import Flowchart.Proofs.Layout.Place

namespace Flowchart.Layout

def portedEdge (d : Direction) (all upTo : List Ends) (e : Edge) : Option Ends → Edge
  | none => e
  | some ends => withPorts d all upTo ends e

/-- An edge sees the ends of the edges up to it, last one first. -/
theorem getElem?_portsFrom (d : Direction) (all before : List Ends)
    (pairs : List (Edge × Option Ends)) (i : Nat) :
    (portsFrom d all before pairs)[i]? =
      pairs[i]?.map fun pair =>
        portedEdge d all (((pairs.take (i + 1)).filterMap (·.2)).reverse ++ before) pair.1
          pair.2 := by
  -- an edge between placed nodes joins `before`, so the ends seen by later edges grow
  induction pairs generalizing before i with
  | nil => rfl
  | cons pair rest ih =>
    obtain ⟨e, ends⟩ := pair
    cases ends with
    | none =>
      cases i with
      | zero => rfl
      | succ i => exact ih before i
    | some ends =>
      cases i with
      | zero => rfl
      | succ i =>
        have hends : (((e, some ends) :: rest.take (i + 1)).filterMap (·.2)).reverse ++ before =
            ((rest.take (i + 1)).filterMap (·.2)).reverse ++ ends :: before := by
          rw [List.filterMap_cons, List.reverse_cons, List.append_assoc]
          rfl
        rw [portsFrom, List.getElem?_cons_succ, ih, List.getElem?_cons_succ, List.take_succ_cons,
          hends]

variable {c : LayoutConfig} {g : Graph} {i : Nat}

/-- The ends of an edge are found among the nodes; other edges and ports do not matter. -/
theorem ends?_clearPorts {g' : Graph} (h : g'.nodes = g.nodes) (e : Edge) :
    ends? g' e.clearPorts = ends? g e := by
  simp only [ends?, Graph.endpoints?, h, Edge.clearPorts]

/-- The edges of a layout get their ports by the ends that they have in it. -/
theorem edges_arrange : (g.arrange c).edges =
    portsFrom g.direction (g.edges.filterMap (ends? (g.arrange c))) []
      (g.edges.map fun e => (e.clearPorts, ends? (g.arrange c) e)) := by
  have hnodes : (place c (layers (reset c g)) (reset c g)).nodes = (g.arrange c).nodes := rfl
  have hedges : (place c (layers (reset c g)) (reset c g)).edges = g.edges.map Edge.clearPorts :=
    rfl
  have hends : (place c (layers (reset c g)) (reset c g)).edges.map
      (ends? (place c (layers (reset c g)) (reset c g))) = g.edges.map (ends? (g.arrange c)) := by
    rw [hedges, List.map_map]
    exact List.map_congr_left fun e _ => ends?_clearPorts hnodes e
  have harrange : (g.arrange c).edges = portsFrom g.direction
      ((g.edges.map (ends? (g.arrange c))).filterMap id) []
      ((g.edges.map Edge.clearPorts).zip (g.edges.map (ends? (g.arrange c)))) := by
    rw [← hends, ← hedges]
    rfl
  rw [harrange, List.zip_map', List.filterMap_map]
  rfl

/-- Every edge has the ports that its own ends and those of the edges up to it ask for. -/
theorem getElem?_edges_arrange :
    (g.arrange c).edges[i]? = g.edges[i]?.map fun e =>
      portedEdge g.direction (g.edges.filterMap (ends? (g.arrange c)))
        ((g.edges.take (i + 1)).filterMap (ends? (g.arrange c))).reverse e.clearPorts
        (ends? (g.arrange c) e) := by
  rw [edges_arrange, getElem?_portsFrom, List.append_nil, List.getElem?_map, Option.map_map,
    ← List.map_take, List.filterMap_map]
  rfl

/-- A layout leaves the ends of edges, their texts and their looks. -/
theorem getElem?_edges_arrange_looks :
    ((g.arrange c).edges[i]?).map Edge.clearPorts = g.edges[i]?.map Edge.clearPorts := by
  rw [getElem?_edges_arrange, Option.map_map]
  congr 1
  funext e
  simp only [Function.comp]
  cases ends? (g.arrange c) e <;> rfl

theorem edges_arrange_looks :
    (g.arrange c).edges.map Edge.clearPorts = g.edges.map Edge.clearPorts := by
  apply List.ext_getElem?
  intro i
  rw [List.getElem?_map, List.getElem?_map, getElem?_edges_arrange_looks]

/-- The ends of an edge are known when both are placed nodes. -/
theorem isSome_ends?_iff {e : Edge} :
    (ends? g e).isSome = true ↔
      ∃ n m, g.node? e.source = some n ∧ g.node? e.target = some m ∧ n.isPlaced = true ∧
        m.isPlaced = true := by
  simp only [ends?, Graph.endpoints?, Graph.node?, Table.find?_eq_some_iff_place?, Option.pure_def,
    Option.bind_eq_bind]
  cases hs : g.nodes.place? e.source with
  | none => simp
  | some u =>
    cases ht : g.nodes.place? e.target with
    | none => simp
    | some v =>
      cases hn : g.nodes.values[u]? with
      | none => simp [hn]
      | some n =>
        cases hm : g.nodes.values[v]? with
        | none => simp [hn, hm]
        | some m => by_cases hplaced : n.isPlaced ∧ m.isPlaced <;> simp_all

/-- The edges with ports are those with both ends placed. -/
theorem ports_arrange {e : Edge} (he : (g.arrange c).edges[i]? = some e) :
    e.exitPort.isSome = (ends? (g.arrange c) e).isSome ∧
      e.entryPort.isSome = (ends? (g.arrange c) e).isSome := by
  have hlooks := getElem?_edges_arrange_looks (c := c) (g := g) (i := i)
  have hported := getElem?_edges_arrange (c := c) (g := g) (i := i)
  rw [he] at hlooks hported
  obtain ⟨f, hf, hef⟩ := Option.map_eq_some_iff.1 hlooks.symm
  have hends : ends? (g.arrange c) e = ends? (g.arrange c) f := by
    rw [← ends?_clearPorts rfl, ← hef, ends?_clearPorts rfl]
  rw [hf, Option.map_some, Option.some.injEq] at hported
  rw [hends, hported]
  cases ends? (g.arrange c) f with
  | none => exact ⟨rfl, rfl⟩
  | some ends => exact ⟨rfl, rfl⟩

end Flowchart.Layout
