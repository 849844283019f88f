import Flowchart.Proofs.Layout.Slots
import Flowchart.Proofs.Scene.Dump
import Flowchart.Proofs.Scene.Resolve

namespace Flowchart.Graph

def Places (g : Graph) (id : String) : Prop := ∃ n, g.node? id = some n ∧ n.isPlaced = true

/-- Why an edge cannot be drawn from or to an identifier. -/
inductive EndFault (g : Graph) (e : Edge) (id : String) : GeometryError → Prop where
  | missing (h : g.node? id = none) : EndFault g e id (.missingEndpoint e.source e.target id)
  | unplaced {n : Node} (h : g.node? id = some n) (hn : n.isPlaced = false) :
    EndFault g e id (.nodeNotPlaced id)

/-- The fault of the first end of an edge that has one. -/
inductive FirstFault (g : Graph) (e : Edge) (fault : GeometryError) : Prop where
  | source (h : g.EndFault e e.source fault) : FirstFault g e fault
  | target (hsource : g.Places e.source) (h : g.EndFault e e.target fault) : FirstFault g e fault

variable {g : Graph} {c c' : LayoutConfig} {e : Edge} {i : Nat} {id : String}
  {fault other : GeometryError} {drawn : EdgeGeometry}

theorem joinsPlaced_iff : g.JoinsPlaced e ↔ g.Places e.source ∧ g.Places e.target := by
  constructor
  · rintro ⟨n, m, hn, hm, hnplaced, hmplaced⟩
    exact ⟨⟨n, hn, hnplaced⟩, m, hm, hmplaced⟩
  · rintro ⟨⟨n, hn, hnplaced⟩, m, hm, hmplaced⟩
    exact ⟨n, m, hn, hm, hnplaced, hmplaced⟩

theorem EndFault.not_places (h : g.EndFault e id fault) : ¬ g.Places id := by
  rintro ⟨n, hn, hplaced⟩
  cases h with
  | missing hmissing => exact absurd (hmissing.symm.trans hn) (by simp)
  | unplaced hm hunplaced =>
    obtain rfl := Option.some.inj (hm.symm.trans hn)
    exact Bool.false_ne_true (hunplaced.symm.trans hplaced)

theorem EndFault.unique (h : g.EndFault e id fault) (hother : g.EndFault e id other) :
    fault = other := by
  cases h with
  | missing hmissing =>
    cases hother with
    | missing => rfl
    | unplaced hn => exact absurd (hmissing.symm.trans hn) (by simp)
  | unplaced hn =>
    cases hother with
    | missing hmissing => exact absurd (hmissing.symm.trans hn) (by simp)
    | unplaced => rfl

theorem FirstFault.not_joinsPlaced (h : g.FirstFault e fault) : ¬ g.JoinsPlaced e := by
  rw [joinsPlaced_iff]
  rintro ⟨hsource, htarget⟩
  cases h with
  | source h => exact h.not_places hsource
  | target _ h => exact h.not_places htarget

theorem FirstFault.unique (h : g.FirstFault e fault) (hother : g.FirstFault e other) :
    fault = other := by
  cases h with
  | source h =>
    cases hother with
    | source hother => exact h.unique hother
    | target hsource => exact absurd hsource h.not_places
  | target hsource h =>
    cases hother with
    | source hother => exact absurd hsource hother.not_places
    | target _ hother => exact h.unique hother

/-- The fault of an end is told by that end: it names no port and no number of an edge. -/
theorem FirstFault.of_end (h : g.FirstFault e fault) :
    (∃ id, fault = .missingEndpoint e.source e.target id) ∨ ∃ id, fault = .nodeNotPlaced id := by
  have hend {id : String} (h : g.EndFault e id fault) :
      (∃ id, fault = .missingEndpoint e.source e.target id) ∨ ∃ id, fault = .nodeNotPlaced id := by
    cases h with
    | missing => exact .inl ⟨id, rfl⟩
    | unplaced => exact .inr ⟨id, rfl⟩
  cases h with
  | source h => exact hend h
  | target _ h => exact hend h

/-- An end has a rectangle when it is a placed node, and a fault otherwise. -/
theorem endpointBounds_cases (g : Graph) (e : Edge) (id : String) :
    (∃ bounds, g.endpointBounds e id = .ok bounds ∧ g.Places id) ∨
      ∃ fault, g.endpointBounds e id = .error fault ∧ g.EndFault e id fault := by
  cases hn : g.node? id with
  | none => exact .inr ⟨_, by rw [endpointBounds, hn], .missing hn⟩
  | some n =>
    cases hbounds : n.bounds with
    | none =>
      have hunplaced : n.isPlaced = false := by
        rw [Node.isPlaced, Option.map_eq_none_iff.1 hbounds]
        rfl
      exact .inr ⟨_, by simp only [endpointBounds, hn, hbounds], .unplaced hn hunplaced⟩
    | some bounds =>
      have hplaced : n.isPlaced = true := by
        obtain ⟨p, hp, _⟩ := Option.map_eq_some_iff.1 hbounds
        rw [Node.isPlaced, hp]
        rfl
      exact .inl ⟨bounds, by simp only [endpointBounds, hn, hbounds], n, hn, hplaced⟩

/-- An edge that has ports if its ends are placed is drawn or fails for an end. -/
theorem resolveEdge_cases (c : LayoutConfig) (he : g.edges[i]? = some e)
    (hports : g.JoinsPlaced e → e.exitPort.isSome = true ∧ e.entryPort.isSome = true) :
    (∃ drawn, g.resolveEdge i c = .ok drawn ∧ g.JoinsPlaced e) ∨
      ∃ fault, g.resolveEdge i c = .error fault ∧ g.FirstFault e fault := by
  rcases g.endpointBounds_cases e e.source with ⟨first, hfirst, hsource⟩ | ⟨fault, hfirst, hfault⟩
  · rcases g.endpointBounds_cases e e.target with
      ⟨second, hsecond, htarget⟩ | ⟨fault, hsecond, hfault⟩
    · have hjoins := joinsPlaced_iff.2 ⟨hsource, htarget⟩
      obtain ⟨exit, hexit⟩ := Option.isSome_iff_exists.1 (hports hjoins).1
      obtain ⟨entry, hentry⟩ := Option.isSome_iff_exists.1 (hports hjoins).2
      refine .inl ⟨g.drawEdge i e (exit.anchor first e.exitOffset)
        (entry.anchor second e.entryOffset) c, ?_, hjoins⟩
      simp only [resolveEdge, he, hfirst, hsecond, hexit, hentry]
      rfl
    · refine .inr ⟨fault, ?_, .target hsource hfault⟩
      simp only [resolveEdge, he, hfirst, hsecond]
      rfl
  · refine .inr ⟨fault, ?_, .source hfault⟩
    simp only [resolveEdge, he, hfirst]
    rfl

/-- A drawn edge has the number that it was asked for by. -/
theorem index_of_resolveEdge (h : g.resolveEdge i c = .ok drawn) : drawn.index = i := by
  obtain ⟨e, first, second, exit, entry, _, _, _, _, _, rfl⟩ := exists_of_resolveEdge h
  rfl

theorem mem_edges_scene_iff :
    drawn ∈ (g.scene c).edges ↔ g.resolveEdge drawn.index c = .ok drawn := by
  constructor
  · intro h
    obtain ⟨i, hi⟩ := exists_of_mem_edges h
    rwa [← index_of_resolveEdge hi] at hi
  · intro h
    obtain ⟨_, _, _, _, _, he, _⟩ := exists_of_resolveEdge h
    obtain ⟨hlt, _⟩ := List.getElem?_eq_some_iff.1 he
    refine List.mem_filterMap.2 ⟨drawn.index, List.mem_range.2 hlt, ?_⟩
    rw [h]
    rfl

/-- The edges of a scene stand in the order of their numbers, each once. -/
theorem map_index_edges_scene (g : Graph) (c : LayoutConfig) :
    (g.scene c).edges.map (·.index) =
      (List.range g.edges.length).filter fun i => (g.resolveEdge i c).isOk := by
  refine (filterMap_map_eq_filter (n := id) fun i _ => ?_).trans (List.map_id _)
  cases h : g.resolveEdge i c with
  | error fault => rfl
  | ok drawn => exact congrArg some (index_of_resolveEdge h)

theorem firstFault_clearPorts : g.FirstFault e.clearPorts fault ↔ g.FirstFault e fault := by
  have hend {id : String} : g.EndFault e.clearPorts id fault ↔ g.EndFault e id fault := by
    constructor
    · rintro (h | ⟨h, hn⟩)
      · exact .missing h
      · exact .unplaced h hn
    · rintro (h | ⟨h, hn⟩)
      · exact .missing h
      · exact .unplaced h hn
  constructor
  · rintro (h | ⟨hsource, h⟩)
    · exact .source (hend.1 h)
    · exact .target hsource (hend.1 h)
  · rintro (h | ⟨hsource, h⟩)
    · exact .source (hend.2 h)
    · exact .target hsource (hend.2 h)

/-- The edge of a number in a layout has the ends that it had before, and ports if these are
placed. -/
theorem exists_edge_arrange (c : LayoutConfig) (he : g.edges[i]? = some e) :
    ∃ e', (g.arrange c).edges[i]? = some e' ∧ e'.clearPorts = e.clearPorts ∧
      ((g.arrange c).JoinsPlaced e' → e'.exitPort.isSome = true ∧ e'.entryPort.isSome = true) := by
  have hlooks := Layout.getElem?_edges_arrange_looks (c := c) (g := g) (i := i)
  rw [he] at hlooks
  obtain ⟨e', he', hsame⟩ := Option.map_eq_some_iff.1 hlooks
  refine ⟨e', he', hsame, fun hjoins => ?_⟩
  obtain ⟨hexit, hentry⟩ := Layout.ports_arrange he'
  rw [hexit, hentry, and_self]
  exact Layout.isSome_ends?_iff.2 hjoins

theorem resolveEdge_arrange_cases (c c' : LayoutConfig) (he : g.edges[i]? = some e) :
    (∃ drawn, (g.arrange c).resolveEdge i c' = .ok drawn ∧ (g.arrange c).JoinsPlaced e) ∨
      ∃ fault, (g.arrange c).resolveEdge i c' = .error fault ∧
        (g.arrange c).FirstFault e fault := by
  obtain ⟨e', he', hsame, hports⟩ := exists_edge_arrange c he
  have hjoins : (g.arrange c).JoinsPlaced e' ↔ (g.arrange c).JoinsPlaced e := by
    change (g.arrange c).JoinsPlaced e'.clearPorts ↔ (g.arrange c).JoinsPlaced e.clearPorts
    rw [hsame]
  have hfault {fault : GeometryError} :
      (g.arrange c).FirstFault e' fault ↔ (g.arrange c).FirstFault e fault := by
    rw [← firstFault_clearPorts, hsame, firstFault_clearPorts]
  simpa only [hjoins, hfault] using resolveEdge_cases c' he' hports

theorem length_edges_arrange (c : LayoutConfig) (g : Graph) :
    (g.arrange c).edges.length = g.edges.length := by
  have hlooks := congrArg List.length (Layout.edges_arrange_looks (c := c) (g := g))
  rwa [List.length_map, List.length_map] at hlooks

/-- After a layout an edge is drawn just when its ends are placed nodes, whatever ports it had
before. Otherwise the first end that is no placed node is what it fails for. The scene has the edges
that can be drawn. -/
theorem arrange_draws_placed_edges (c c' : LayoutConfig) (g : Graph) :
    (∀ i e, g.edges[i]? = some e →
      ((∃ drawn, (g.arrange c).resolveEdge i c' = .ok drawn) ↔ (g.arrange c).JoinsPlaced e) ∧
      (∀ fault, (g.arrange c).resolveEdge i c' = .error fault ↔ (g.arrange c).FirstFault e fault) ∧
      (∀ a b, (g.arrange c).resolveEdge i c' ≠ .error (.missingPorts a b)) ∧
      ∀ number, (g.arrange c).resolveEdge i c' ≠ .error (.unknownEdge number)) ∧
    (∀ drawn, drawn ∈ ((g.arrange c).scene c').edges ↔
      (g.arrange c).resolveEdge drawn.index c' = .ok drawn) ∧
    ((g.arrange c).scene c').edges.map (·.index) =
      (List.range g.edges.length).filter fun i => ((g.arrange c).resolveEdge i c').isOk := by
  refine ⟨fun i e he => ?_, fun drawn => mem_edges_scene_iff, ?_⟩
  · rcases resolveEdge_arrange_cases c c' he with ⟨drawn, hdrawn, hjoins⟩ | ⟨fault, herror, hfault⟩
    · refine ⟨⟨fun _ => hjoins, fun _ => ⟨drawn, hdrawn⟩⟩, fun fault => ?_, ?_, ?_⟩
      · rw [hdrawn]
        exact ⟨fun h => absurd h (by simp), fun h => absurd hjoins h.not_joinsPlaced⟩
      · simp [hdrawn]
      · simp [hdrawn]
    · refine ⟨⟨?_, fun hjoins => absurd hjoins hfault.not_joinsPlaced⟩, fun other => ?_, ?_, ?_⟩
      · rintro ⟨drawn, hdrawn⟩
        exact absurd (herror.symm.trans hdrawn) (by simp)
      · rw [herror, Except.error.injEq]
        exact ⟨fun h => h ▸ hfault, hfault.unique⟩
      · rcases hfault.of_end with ⟨id, rfl⟩ | ⟨id, rfl⟩ <;> simp [herror]
      · rcases hfault.of_end with ⟨id, rfl⟩ | ⟨id, rfl⟩ <;> simp [herror]
  · rw [map_index_edges_scene, length_edges_arrange]

def tornGraph : Graph where
  nodes := ["A", "B", "C"].foldl
    (fun t id => t.insertNew id (.new id id .rectangle none)) .empty
  edges := [("A", "B"), ("A", "Z"), ("C", "Z"), ("C", "C")].map fun (a, b) =>
    { Edge.new a b none .solid .arrow with exitPort := some .left, entryPort := some .left }

/-- Only the first edge is drawn. The third one has a fault at each end, and that of its source is
told. -/
theorem tornGraph_drawn :
    (∃ drawn, (tornGraph.arrange {}).resolveEdge 0 {} = .ok drawn) ∧
      (tornGraph.arrange {}).resolveEdge 1 {} = .error (.missingEndpoint "A" "Z" "Z") ∧
      (tornGraph.arrange {}).resolveEdge 2 {} = .error (.nodeNotPlaced "C") ∧
      ((tornGraph.arrange {}).scene {}).edges.map (·.index) = [0] := by
  obtain ⟨hedges, _, hindices⟩ := arrange_draws_placed_edges {} {} tornGraph
  have hplaces {id : String}
      (h : ((tornGraph.arrange {}).node? id).map Node.isPlaced = some true) :
      (tornGraph.arrange {}).Places id := Option.map_eq_some_iff.1 h
  have hA : (tornGraph.arrange {}).Places "A" := hplaces (by decide +kernel)
  have hB : (tornGraph.arrange {}).Places "B" := hplaces (by decide +kernel)
  have hZ : ((tornGraph.arrange {}).node? "Z").map Node.isPlaced = none := by decide +kernel
  have hC : ((tornGraph.arrange {}).node? "C").map Node.isPlaced = some false := by decide +kernel
  obtain ⟨n, hn, hunplaced⟩ := Option.map_eq_some_iff.1 hC
  refine ⟨(hedges 0 _ rfl).1.2 (joinsPlaced_iff.2 ⟨hA, hB⟩), ?_, ?_, ?_⟩
  · exact ((hedges 1 _ rfl).2.1 _).2 (.target hA (.missing (Option.map_eq_none_iff.1 hZ)))
  · exact ((hedges 2 _ rfl).2.1 _).2 (.source (.unplaced hn hunplaced))
  · rw [hindices]
    decide +kernel

end Flowchart.Graph
