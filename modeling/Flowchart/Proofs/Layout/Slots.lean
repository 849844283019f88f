import Flowchart.Proofs.Layout.Port

namespace Flowchart

namespace Graph

def JoinsPlaced (g : Graph) (e : Edge) : Prop :=
  ∃ n m, g.node? e.source = some n ∧ g.node? e.target = some m ∧ n.isPlaced = true ∧
    m.isPlaced = true

def departures (g : Graph) (id : String) : List Edge :=
  g.edges.filter fun e => e.exitPort.isSome && e.source == id

def arrivals (g : Graph) (id : String) : List Edge :=
  g.edges.filter fun e => e.entryPort.isSome && e.target == id

end Graph

namespace Layout

/-- The offsets are those of the slots of a side, from the first slot to the last, each slot
once. -/
def FillsSide (side : PortSide) (size : Size) (offsets : List Point) : Prop :=
  offsets = (List.range' 1 offsets.length).map fun slot =>
    side.offset (side.length size) slot offsets.length

/-- Edges get their slots one after the other. An edge that is not at the side in question leaves
the slots of those that are. -/
theorem offsets_portsFrom {d : Direction} {all : List Ends} {atSide : Ends → Bool}
    {listed : Edge → Bool} {offset : Edge → Point} {slot : Nat → Point}
    {pairs : List (Edge × Option Ends)}
    (hlisted : ∀ pair ∈ pairs, ∀ upTo,
      listed (portedEdge d all upTo pair.1 pair.2) = pair.2.any atSide)
    (hoffset : ∀ pair ∈ pairs, ∀ ends, pair.2 = some ends → atSide ends = true → ∀ upTo,
      offset (withPorts d all upTo ends pair.1) = slot (upTo.countP atSide))
    (before : List Ends) :
    ((portsFrom d all before pairs).filter listed).map offset =
      (List.range' (before.countP atSide + 1)
        ((pairs.filterMap (·.2)).countP atSide)).map slot := by
  -- on the edges left, after those of `before` have their slots
  induction pairs generalizing before with
  | nil => rfl
  | cons pair rest ih =>
    have hrest (before : List Ends) := ih (fun p hp => hlisted p (List.mem_cons_of_mem pair hp))
      (fun p hp => hoffset p (List.mem_cons_of_mem pair hp)) before
    obtain ⟨e, ends⟩ := pair
    cases ends with
    | none =>
      have hout : listed e = false := hlisted _ List.mem_cons_self []
      rw [portsFrom, List.filter_cons_of_neg (by simp [hout]), hrest]
      rfl
    | some ends =>
      have hin := hlisted _ List.mem_cons_self (ends :: before)
      change listed (withPorts d all (ends :: before) ends e) = atSide ends at hin
      have hmore : ((e, some ends) :: rest).filterMap (·.2) = ends :: rest.filterMap (·.2) := rfl
      rw [portsFrom, hmore]
      by_cases hat : atSide ends = true
      · have hslot := hoffset _ List.mem_cons_self ends rfl hat (ends :: before)
        rw [List.countP_cons_of_pos hat] at hslot
        rw [List.filter_cons_of_pos (hin.trans hat), List.map_cons, hslot, hrest,
          List.countP_cons_of_pos hat, List.countP_cons_of_pos hat, List.range'_succ, List.map_cons]
      · rw [List.filter_cons_of_neg (by simp [hin, hat]), hrest, List.countP_cons_of_neg hat,
          List.countP_cons_of_neg hat]

/-- When all edges have got their slots, the side is full. -/
theorem fillsSide_portsFrom {d : Direction} {all : List Ends} (atSide : Ends → Bool)
    {listed : Edge → Bool} {offset : Edge → Point} {side : PortSide} {size : Size}
    {pairs : List (Edge × Option Ends)} (hall : pairs.filterMap (·.2) = all)
    (hlisted : ∀ pair ∈ pairs, ∀ upTo,
      listed (portedEdge d all upTo pair.1 pair.2) = pair.2.any atSide)
    (hoffset : ∀ pair ∈ pairs, ∀ ends, pair.2 = some ends → atSide ends = true → ∀ upTo,
      offset (withPorts d all upTo ends pair.1) =
        side.offset (side.length size) (upTo.countP atSide) (all.countP atSide)) :
    FillsSide side size (((portsFrom d all [] pairs).filter listed).map offset) := by
  have hslots : ((portsFrom d all [] pairs).filter listed).map offset =
      (List.range' (([] : List Ends).countP atSide + 1)
        ((pairs.filterMap (·.2)).countP atSide)).map fun slot =>
          side.offset (side.length size) slot (all.countP atSide) :=
    offsets_portsFrom hlisted hoffset []
  rw [hall, List.countP_nil, Nat.zero_add] at hslots
  have hlength : (((portsFrom d all [] pairs).filter listed).map offset).length =
      all.countP atSide := by
    rw [hslots, List.length_map, List.length_range']
  rw [FillsSide, hlength]
  exact hslots

/-- What the ends of an edge say of the nodes of the graph. -/
theorem exists_of_ends? {g : Graph} {e : Edge} {ends : Ends} (h : ends? g e = some ends) :
    ∃ n m, g.nodes.place? e.source = some ends.source ∧
      g.nodes.place? e.target = some ends.target ∧ g.nodes.values[ends.source]? = some n ∧
      g.nodes.values[ends.target]? = some m ∧ ends.sourceSize = n.size ∧
      ends.targetSize = m.size := by
  simp only [ends?, Graph.endpoints?, Option.pure_def, Option.bind_eq_bind,
    Option.bind_eq_some_iff, Option.some.injEq] at h
  obtain ⟨_, ⟨u, hu, v, hv, rfl⟩, n, hn, m, hm, hends⟩ := h
  rw [Option.ite_none_right_eq_some, Option.some.injEq] at hends
  obtain ⟨_, rfl⟩ := hends
  exact ⟨n, m, hu, hv, hn, hm, rfl, rfl⟩

/-- Identifiers are the same when their places are. -/
theorem beq_id_eq_beq_place {g : Graph} {a b : String} {i j : Nat}
    (ha : g.nodes.place? a = some i) (hb : g.nodes.place? b = some j) : (a == b) = (i == j) := by
  rw [Bool.eq_iff_iff, beq_iff_eq, beq_iff_eq]
  constructor
  · rintro rfl
    exact Option.some.inj (ha.symm.trans hb)
  · rintro rfl
    rw [Table.place?_eq_some_iff] at ha hb
    exact Option.some.inj (ha.symm.trans hb)

variable {c : LayoutConfig} {g : Graph} {id : String} {n : Node}

/-- The edges that leave a node fill its exit side. -/
theorem fillsSide_departures (hn : (g.arrange c).node? id = some n) :
    FillsSide g.direction.exitSide n.size (((g.arrange c).departures id).map (·.exitOffset)) := by
  obtain ⟨u, hu, hvalue⟩ := Table.find?_eq_some_iff_place?.1 hn
  rw [Graph.departures, edges_arrange]
  refine fillsSide_portsFrom (·.source == u) ?_ ?_ ?_
  · rw [List.filterMap_map]
    rfl
  · intro pair hpair upTo
    obtain ⟨e, _, rfl⟩ := List.mem_map.1 hpair
    cases hends : ends? (g.arrange c) e with
    | none => rfl
    | some ends =>
      obtain ⟨_, _, hsource, _⟩ := exists_of_ends? hends
      exact beq_id_eq_beq_place hsource hu
  · intro pair hpair ends hends hat upTo
    obtain ⟨e, _, rfl⟩ := List.mem_map.1 hpair
    obtain ⟨m, _, _, _, hm, _, hsize, _⟩ := exists_of_ends? hends
    obtain rfl := eq_of_beq hat
    obtain rfl := Option.some.inj (hvalue.symm.trans hm)
    rw [← hsize]
    rfl

/-- The edges that enter a node fill its entry side. -/
theorem fillsSide_arrivals (hn : (g.arrange c).node? id = some n) :
    FillsSide g.direction.entrySide n.size (((g.arrange c).arrivals id).map (·.entryOffset)) := by
  obtain ⟨v, hv, hvalue⟩ := Table.find?_eq_some_iff_place?.1 hn
  rw [Graph.arrivals, edges_arrange]
  refine fillsSide_portsFrom (·.target == v) ?_ ?_ ?_
  · rw [List.filterMap_map]
    rfl
  · intro pair hpair upTo
    obtain ⟨e, _, rfl⟩ := List.mem_map.1 hpair
    cases hends : ends? (g.arrange c) e with
    | none => rfl
    | some ends =>
      obtain ⟨_, _, _, htarget, _⟩ := exists_of_ends? hends
      exact beq_id_eq_beq_place htarget hv
  · intro pair hpair ends hends hat upTo
    obtain ⟨e, _, rfl⟩ := List.mem_map.1 hpair
    obtain ⟨_, m, _, _, _, hm, _, hsize⟩ := exists_of_ends? hends
    obtain rfl := eq_of_beq hat
    obtain rfl := Option.some.inj (hvalue.symm.trans hm)
    rw [← hsize]
    rfl

/-- An edge of a layout is an edge without ports that was given the ports its ends ask for. -/
theorem exists_ported_of_mem {e : Edge} (he : e ∈ (g.arrange c).edges) :
    ∃ all upTo f,
      e = portedEdge g.direction all upTo (Edge.clearPorts f) (ends? (g.arrange c) e) := by
  obtain ⟨i, hi⟩ := List.getElem?_of_mem he
  have hported := getElem?_edges_arrange (c := c) (g := g) (i := i)
  rw [hi] at hported
  obtain ⟨f, _, hf⟩ := Option.map_eq_some_iff.1 hported.symm
  have hlooks : e.clearPorts = f.clearPorts := by
    rw [← hf]
    cases ends? (g.arrange c) f <;> rfl
  have hends : ends? (g.arrange c) e = ends? (g.arrange c) f := by
    rw [← ends?_clearPorts rfl, hlooks, ends?_clearPorts rfl]
  exact ⟨_, _, f, hends ▸ hf.symm⟩

/-- Ports come in pairs, one at each end; an edge without them has no offsets either. -/
theorem ports_of_mem_arrange {e : Edge} (he : e ∈ (g.arrange c).edges) :
    ((g.arrange c).JoinsPlaced e →
      e.exitPort = some g.direction.exitSide ∧ e.entryPort = some g.direction.entrySide) ∧
    (¬ (g.arrange c).JoinsPlaced e →
      e.exitPort = none ∧ e.entryPort = none ∧ e.exitOffset = .zero ∧ e.entryOffset = .zero) := by
  obtain ⟨all, upTo, f, hported⟩ := exists_ported_of_mem he
  have hplaced : (ends? (g.arrange c) e).isSome = true ↔ (g.arrange c).JoinsPlaced e :=
    isSome_ends?_iff
  rw [← hplaced]
  cases hends : ends? (g.arrange c) e with
  | none =>
    rw [hends] at hported
    rw [hported]
    exact ⟨fun h => absurd h (by simp), fun _ => ⟨rfl, rfl, rfl, rfl⟩⟩
  | some ends =>
    rw [hends] at hported
    rw [hported]
    exact ⟨fun _ => ⟨rfl, rfl⟩, fun h => absurd rfl h⟩

/-- A layout leaves the edges in order and gives ports to those between placed nodes only. At every
node they take the slots of the exit side and of the entry side one after the other. -/
theorem ports_share_sides (c : LayoutConfig) (g : Graph) :
    (g.arrange c).edges.map Edge.clearPorts = g.edges.map Edge.clearPorts ∧
    (∀ e ∈ (g.arrange c).edges,
      ((g.arrange c).JoinsPlaced e →
        e.exitPort = some g.direction.exitSide ∧ e.entryPort = some g.direction.entrySide) ∧
      (¬ (g.arrange c).JoinsPlaced e →
        e.exitPort = none ∧ e.entryPort = none ∧ e.exitOffset = .zero ∧ e.entryOffset = .zero)) ∧
    ∀ id n, (g.arrange c).node? id = some n →
      FillsSide g.direction.exitSide n.size (((g.arrange c).departures id).map (·.exitOffset)) ∧
      FillsSide g.direction.entrySide n.size (((g.arrange c).arrivals id).map (·.entryOffset)) :=
  ⟨edges_arrange_looks, fun _ he => ports_of_mem_arrange he,
    fun _ _ hn => ⟨fillsSide_departures hn, fillsSide_arrivals hn⟩⟩

def interruptedGraph : Graph where
  nodes := ["A", "B", "C"].foldl
    (fun t id => t.insertNew id (.new id id .rectangle none)) .empty
  edges := [("A", "B"), ("A", "C"), ("A", "B"), ("C", "C")].map fun (a, b) =>
    .new a b none .solid .arrow

/-- The two edges to the placed node share a side in halves, and the edge between them has no
port. -/
theorem interruptedGraph_sides :
    (∃ n, (interruptedGraph.arrange {}).node? "A" = some n ∧
      ((interruptedGraph.arrange {}).departures "A").map (·.exitOffset) =
        [PortSide.bottom.offset n.size.width 1 2, PortSide.bottom.offset n.size.width 2 2]) ∧
    ∃ e, (interruptedGraph.arrange {}).edges[1]? = some e ∧
      ¬ (interruptedGraph.arrange {}).JoinsPlaced e ∧ e.exitPort = none ∧ e.exitOffset = .zero := by
  obtain ⟨_, hports, hsides⟩ := ports_share_sides {} interruptedGraph
  constructor
  · have hnode : ((interruptedGraph.arrange {}).node? "A").isSome = true := by decide +kernel
    have hlength :
        (((interruptedGraph.arrange {}).departures "A").map (·.exitOffset)).length = 2 := by
      decide +kernel
    obtain ⟨n, hn⟩ := Option.isSome_iff_exists.1 hnode
    have hfills := (hsides "A" n hn).1
    rw [FillsSide, hlength] at hfills
    exact ⟨n, hn, hfills⟩
  · have htarget : ((interruptedGraph.arrange {}).edges[1]?).map (·.target) = some "C" := by
      decide +kernel
    have hunplaced : ((interruptedGraph.arrange {}).node? "C").map Node.isPlaced = some false := by
      decide +kernel
    obtain ⟨e, he, hC⟩ := Option.map_eq_some_iff.1 htarget
    have hnot : ¬ (interruptedGraph.arrange {}).JoinsPlaced e := by
      rintro ⟨_, m, _, hm, _, hplaced⟩
      rw [hC] at hm
      simp [hm, hplaced] at hunplaced
    obtain ⟨hexit, _, hoffset, _⟩ := (hports e (List.mem_of_getElem? he)).2 hnot
    exact ⟨e, he, hnot, hexit, hoffset⟩

end Layout
end Flowchart
