import Flowchart.Scene.Resolve

namespace Flowchart

def Scene.texts (s : Scene) : List String :=
  s.frames.map (·.label) ++ s.edges.flatMap (fun e => e.label.toList.flatMap (·.lines)) ++
    s.nodes.flatMap (·.labelLines)

def Rect.plain (r : Rect) : Rect := ⟨r.x, r.y, Single.larger r.width 0.0, Single.larger r.height 0.0⟩

theorem Node.exists_of_drawn? {n : Node} {c : LayoutConfig} {drawn : NodeGeometry}
    (h : n.drawn? c = some drawn) :
    ∃ bounds, n.bounds = some bounds ∧ bounds.isFinite = true ∧
      ∃ r outline, (r = bounds ∨ r = bounds.plain) ∧ drawn = n.draw r outline c := by
  unfold drawn? resolve resolvePlain? at h
  cases hbounds : n.bounds with
  | none => simp [hbounds] at h
  | some bounds =>
    rw [hbounds] at h
    refine ⟨bounds, rfl, ?_⟩
    by_cases hfinite : bounds.isFinite = true
    · refine ⟨hfinite, ?_⟩
      dsimp only at h
      split at h
      · next resolved hresolved =>
        split at hresolved
        · exact absurd hresolved (by simp)
        · obtain rfl := Except.ok.inj hresolved
          obtain rfl := Option.some.inj h
          exact ⟨bounds, _, .inl rfl, rfl⟩
      · rw [if_pos hfinite] at h
        obtain rfl := Option.some.inj h
        exact ⟨bounds.plain, _, .inr rfl, rfl⟩
    · simp [hfinite] at h

namespace Graph

variable {g : Graph} {c : LayoutConfig}

theorem exists_of_endpointBounds {e : Edge} {id : String} {bounds : Rect}
    (h : g.endpointBounds e id = .ok bounds) :
    ∃ n, g.node? id = some n ∧ n.bounds = some bounds := by
  unfold endpointBounds at h
  split at h
  · exact absurd h (by simp)
  next n hn =>
  split at h
  · exact absurd h (by simp)
  next found hfound =>
  obtain rfl := Except.ok.inj h
  exact ⟨n, hn, hfound⟩

theorem exists_of_resolveEdge {i : Nat} {drawn : EdgeGeometry}
    (h : g.resolveEdge i c = .ok drawn) :
    ∃ e first second exit entry, g.edges[i]? = some e ∧
      g.endpointBounds e e.source = .ok first ∧ g.endpointBounds e e.target = .ok second ∧
      e.exitPort = some exit ∧ e.entryPort = some entry ∧
      drawn = g.drawEdge i e (exit.anchor first e.exitOffset) (entry.anchor second e.entryOffset) c := by
  unfold resolveEdge at h
  cases hedge : g.edges[i]? with
  | none => simp [hedge] at h
  | some e =>
    rw [hedge] at h
    cases hfirst : g.endpointBounds e e.source with
    | error problem => simp [hfirst, bind, Except.bind] at h
    | ok first =>
      cases hsecond : g.endpointBounds e e.target with
      | error problem => simp [hfirst, hsecond, bind, Except.bind] at h
      | ok second =>
        cases hexit : e.exitPort with
        | none => simp [hfirst, hsecond, hexit, bind, Except.bind] at h
        | some exit =>
          cases hentry : e.entryPort with
          | none => simp [hfirst, hsecond, hexit, hentry, bind, Except.bind] at h
          | some entry =>
            simp only [hfirst, hsecond, hexit, hentry, bind, Except.bind] at h
            exact ⟨e, first, second, exit, entry, rfl, hfirst, hsecond, hexit, hentry,
              (Except.ok.inj h).symm⟩

theorem exists_of_mem_nodes {n : NodeGeometry} (h : n ∈ (g.scene c).nodes) :
    ∃ m ∈ g.nodes.values, m.drawn? c = some n := by
  obtain ⟨m, hm, hdrawn⟩ := List.mem_filterMap.1 h
  exact ⟨m, (List.mem_filter.1 hm).1, hdrawn⟩

theorem exists_of_mem_edges {e : EdgeGeometry} (h : e ∈ (g.scene c).edges) :
    ∃ i, g.resolveEdge i c = .ok e := by
  obtain ⟨i, _, hdrawn⟩ := List.mem_filterMap.1 h
  refine ⟨i, ?_⟩
  cases hresolved : g.resolveEdge i c with
  | error problem => simp [hresolved, Except.toOption] at hdrawn
  | ok drawn =>
    rw [hresolved] at hdrawn
    rw [Option.some.inj hdrawn]

/-- The members of a frame are around its label, and its rectangle is around theirs. -/
theorem exists_of_mem_frames {f : SubgraphFrame} (h : f ∈ (g.scene c).frames) :
    f.label ∈ g.subgraphLabels ∧
      ∃ around, Rect.unionAll? ((g.membersOf f.label).filterMap Node.bounds) = some around ∧
        f.bounds = around.expand c.flowchart.subgraphMargin := by
  obtain ⟨label, hlabel, hframe⟩ := List.mem_filterMap.1 h
  obtain ⟨around, haround, rfl⟩ := Option.map_eq_some_iff.1 hframe
  exact ⟨hlabel, around, haround, rfl⟩

end Graph
end Flowchart
