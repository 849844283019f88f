import Flowchart.Proofs.Graph.Path
import Flowchart.Proofs.Layout.Place
import Flowchart.Proofs.Layout.Sweep

namespace Flowchart.Layout

theorem mem_links {g : Graph} {i j : Nat} :
    (i, j) ∈ links g ↔
      ∃ e ∈ g.edges, g.nodes.keys[i]? = some e.source ∧ g.nodes.keys[j]? = some e.target := by
  simp only [links, List.mem_filterMap, Graph.endpoints?, Option.pure_def, Option.bind_eq_bind,
    Option.bind_eq_some_iff, Table.place?_eq_some_iff, Option.some.injEq, Prod.mk.injEq]
  constructor
  · rintro ⟨e, he, u, hu, v, hv, rfl, rfl⟩
    exact ⟨e, he, hu, hv⟩
  · rintro ⟨e, he, hi, hj⟩
    exact ⟨e, he, i, hi, j, hj, rfl, rfl⟩

theorem leads_of_link {g : Graph} {i j : Nat} {b : String} (h : (i, j) ∈ links g)
    (hb : g.nodes.keys[j]? = some b) : ∃ a, g.nodes.keys[i]? = some a ∧ g.Leads a b := by
  obtain ⟨e, he, hi, hj⟩ := mem_links.1 h
  have htarget : e.target = b := Option.some.inj (hj.symm.trans hb)
  exact ⟨e.source, hi, List.mem_of_getElem? hi, List.mem_of_getElem? hb, e, he, rfl, htarget⟩

theorem link_of_leads {g : Graph} {a b : String} {j : Nat} (h : g.Leads a b)
    (hb : g.nodes.keys[j]? = some b) : ∃ i, g.nodes.keys[i]? = some a ∧ (i, j) ∈ links g := by
  obtain ⟨ha, _, e, he, rfl, rfl⟩ := h
  obtain ⟨i, hi⟩ := List.getElem?_of_mem ha
  exact ⟨i, hi, mem_links.2 ⟨e, he, hi, hb⟩⟩

theorem walkTo_iff {g : Graph} {i n : Nat} {id : String} (hid : g.nodes.keys[i]? = some id) :
    WalkTo (Linked (links g)) n i ↔ WalkTo g.Leads n id := by
  constructor
  · intro h
    exact h.simulate (fun i a => g.nodes.keys[i]? = some a)
      (fun _ _ _ hlink hb => leads_of_link hlink hb) hid
  · intro h
    exact h.simulate (fun a i => g.nodes.keys[i]? = some a)
      (fun _ _ _ hleads hj => link_of_leads hleads hj) hid

theorem isDepth_iff {g : Graph} {i k : Nat} {id : String} (hid : g.nodes.keys[i]? = some id) :
    IsDepth (Linked (links g)) i k ↔ IsDepth g.Leads id k := by
  simp only [IsDepth, walkTo_iff hid]

variable {g : Graph} {i k : Nat} {id : String}

theorem lt_size_of_getElem? (hid : g.nodes.keys[i]? = some id) : i < g.nodes.size := by
  have hlt := (List.getElem?_eq_some_iff.1 hid).1
  simpa [Table.keys, Table.size] using hlt

/-- A node that no layer holds ends walks of any length. -/
theorem walkTo_of_not_mem (n : Nat) (hlt : i < g.nodes.size) (hi : i ∉ (layers g).flatten) :
    WalkTo (Linked (links g)) n i := by
  -- from a stuck node one can always go back to another one
  induction n generalizing i with
  | zero => exact .start i
  | succ n ih =>
    obtain ⟨u, hui, hu⟩ := (layers_layered g).2 i hlt hi
    obtain ⟨e, _, hkey, _⟩ := mem_links.1 hui
    exact (ih (lt_size_of_getElem? hkey) hu).step hui

/-- A layer holds the nodes whose depth is its number. -/
theorem mem_layer_iff (hid : g.nodes.keys[i]? = some id) :
    (∃ layer, (layers g)[k]? = some layer ∧ i ∈ layer) ↔ IsDepth g.Leads id k := by
  have hlayered := (layers_layered g).1
  rw [← isDepth_iff hid]
  constructor
  · rintro ⟨layer, hlayer, hi⟩
    exact (hlayered.depth k layer hlayer i hi).2
  · intro hdepth
    by_cases hi : i ∈ (layers g).flatten
    · obtain ⟨layer, hlayer, hmem⟩ := List.mem_flatten.1 hi
      obtain ⟨l, hl⟩ := List.getElem?_of_mem hlayer
      have hlk : l = k := (hlayered.depth l layer hl i hmem).2.unique hdepth
      exact ⟨layer, hlk ▸ hl, hmem⟩
    · have hwalk := walkTo_of_not_mem (k + 1) (lt_size_of_getElem? hid) hi
      exact absurd (hdepth.2 _ hwalk) (by omega)

/-- The layers hold the nodes that no cycle reaches. -/
theorem mem_layers_iff (hid : g.nodes.keys[i]? = some id) :
    i ∈ (layers g).flatten ↔ ¬ BehindCycle g.Leads id := by
  constructor
  · intro hi
    obtain ⟨layer, hlayer, hmem⟩ := List.mem_flatten.1 hi
    obtain ⟨k, hk⟩ := List.getElem?_of_mem hlayer
    exact ((mem_layer_iff hid).1 ⟨layer, hk, hmem⟩).not_behindCycle
  · intro hnot
    by_contra hi
    have hwalk := walkTo_of_not_mem (g.nodes.keys.length + 1) (lt_size_of_getElem? hid) hi
    have hcycle := behindCycle_of_long_walk g.nodes.keys (fun a b hab => hab.1) (Nat.lt_succ_self _)
      ((walkTo_iff hid).1 hwalk)
    exact hnot hcycle

variable {c : LayoutConfig} {n : Node}

/-- Position and rank come together, and the rank is the number of the layer. -/
theorem rank_arrange (hn : (g.arrange c).nodes.entries[i]? = some (id, n)) :
    n.isPlaced = n.rank.isSome ∧ ∀ k, n.rank = some k ↔ IsDepth g.Leads id k := by
  rw [getElem?_arrange] at hn
  obtain ⟨⟨id', m⟩, hm, heq⟩ := Option.map_eq_some_iff.1 hn
  obtain ⟨rfl, rfl⟩ := Prod.mk.inj heq
  have hid : g.nodes.keys[i]? = some id' := Table.getElem?_keys hm
  refine ⟨by simp [Node.isPlaced, placedNode], ?_⟩
  intro k
  rw [← mem_layer_iff hid]
  have hlayered := (layers_layered g).1
  constructor
  · intro hk
    by_cases hi : i ∈ (layers g).flatten
    · obtain ⟨layer, hlayer, hmem⟩ := List.mem_flatten.1 hi
      obtain ⟨l, hl⟩ := List.getElem?_of_mem hlayer
      obtain ⟨slot, _, hslot⟩ := slotOf?_of_mem hlayered.nodup hl hmem
      have hlk : l = k := by simpa [placedNode, hslot] using hk
      exact ⟨layer, hlk ▸ hl, hmem⟩
    · simp [placedNode, slotOf?_eq_none hi] at hk
  · rintro ⟨layer, hlayer, hmem⟩
    obtain ⟨slot, _, hslot⟩ := slotOf?_of_mem hlayered.nodup hlayer hmem
    simp [placedNode, hslot]

theorem isPlaced_arrange_iff (hn : (g.arrange c).nodes.entries[i]? = some (id, n)) :
    n.isPlaced = true ↔ ¬ BehindCycle g.Leads id := by
  have hid := getElem?_keys_of_arrange hn
  rw [← mem_layers_iff hid, (rank_arrange hn).1, Option.isSome_iff_exists]
  simp only [(rank_arrange hn).2, ← mem_layer_iff hid]
  constructor
  · rintro ⟨k, layer, hlayer, hi⟩
    exact List.mem_flatten.2 ⟨layer, List.mem_of_getElem? hlayer, hi⟩
  · intro hi
    obtain ⟨layer, hlayer, hmem⟩ := List.mem_flatten.1 hi
    obtain ⟨k, hk⟩ := List.getElem?_of_mem hlayer
    exact ⟨k, layer, hk, hmem⟩

theorem entry_of_node? {id : String} (hn : (g.arrange c).node? id = some n) :
    ∃ i : Nat, (g.arrange c).nodes.entries[i]? = some (id, n) :=
  List.getElem?_of_mem (Table.mem_entries_of_find? hn)

/-- Ranks grow along edges, and the source of an edge is placed before its target. -/
theorem rank_lt_of_edge {e : Edge} {m : Node} (he : e ∈ g.edges)
    (hn : (g.arrange c).node? e.source = some n) (hm : (g.arrange c).node? e.target = some m)
    (hplaced : m.isPlaced = true) :
    n.isPlaced = true ∧ ∃ j k, n.rank = some j ∧ m.rank = some k ∧ j < k := by
  obtain ⟨u, hu⟩ := entry_of_node? hn
  obtain ⟨v, hv⟩ := entry_of_node? hm
  have hkey {i : Nat} {id : String} {n : Node}
      (h : (g.arrange c).nodes.entries[i]? = some (id, n)) : id ∈ g.nodes.keys :=
    List.mem_of_getElem? (getElem?_keys_of_arrange h)
  have hleads : g.Leads e.source e.target := ⟨hkey hu, hkey hv, e, he, rfl, rfl⟩
  have hsource : n.isPlaced = true := by
    rw [isPlaced_arrange_iff hu]
    rintro ⟨a, hcycle, hreach⟩
    exact (isPlaced_arrange_iff hv).1 hplaced ⟨a, hcycle, hreach.tail hleads⟩
  obtain ⟨j, hj⟩ := Option.isSome_iff_exists.1 ((rank_arrange hu).1 ▸ hsource)
  obtain ⟨k, hk⟩ := Option.isSome_iff_exists.1 ((rank_arrange hv).1 ▸ hplaced)
  refine ⟨hsource, j, k, hj, hk, ?_⟩
  have hwalk := (((rank_arrange hu).2 j).1 hj).1.step hleads
  exact (((rank_arrange hv).2 k).1 hk).2 _ hwalk

/-- Every layer is the rank of some node. -/
theorem exists_rank_iff :
    (∃ n ∈ (g.arrange c).nodes.values, n.rank = some k) ↔ k < (layers g).length := by
  have hlayered := (layers_layered g).1
  constructor
  · rintro ⟨n, hn, hk⟩
    obtain ⟨⟨id, _⟩, he, rfl⟩ := List.mem_map.1 hn
    obtain ⟨i, hi⟩ := List.getElem?_of_mem he
    have hid := getElem?_keys_of_arrange hi
    obtain ⟨layer, hlayer, _⟩ := (mem_layer_iff hid).2 (((rank_arrange hi).2 k).1 hk)
    exact (List.getElem?_eq_some_iff.1 hlayer).1
  · intro hk
    have hlayer : (layers g)[k]? = some (layers g)[k] := List.getElem?_eq_getElem hk
    obtain ⟨i, hi⟩ := List.exists_mem_of_ne_nil _ (hlayered.nonempty _ (List.getElem_mem hk))
    have hlt := (hlayered.depth k _ hlayer i hi).1
    obtain ⟨⟨id, m⟩, hentry⟩ : ∃ e, g.nodes.entries[i]? = some e :=
      ⟨_, List.getElem?_eq_getElem hlt⟩
    have harranged := getElem?_arrange c g i
    rw [hentry] at harranged
    refine ⟨_, List.mem_map.2 ⟨_, List.mem_of_getElem? harranged, rfl⟩, ?_⟩
    rw [(rank_arrange harranged).2 k, ← mem_layer_iff (Table.getElem?_keys hentry)]
    exact ⟨_, hlayer, hi⟩

/-- A layout places exactly the nodes that no cycle reaches, each of them once in the layers, and
gives positions and ranks together. -/
theorem arrange_places_outside_cycles (c : LayoutConfig) (g : Graph) :
    (g.arrange c).nodes.keys = g.nodes.keys ∧ (∀ i ∈ (layers g).flatten, i < g.nodes.size) ∧
    ∀ i id n, (g.arrange c).nodes.entries[i]? = some (id, n) →
      (n.position.isSome = true ↔ ¬ BehindCycle g.Leads id) ∧
      (layers g).flatten.count i = (if n.position.isSome then 1 else 0) ∧
      n.position.isSome = n.rank.isSome := by
  have hlayered := (layers_layered g).1
  refine ⟨keys_arrange c g, ?_, ?_⟩
  · intro i hi
    obtain ⟨layer, hlayer, hmem⟩ := List.mem_flatten.1 hi
    obtain ⟨k, hk⟩ := List.getElem?_of_mem hlayer
    exact (hlayered.depth k layer hk i hmem).1
  · intro i id n hn
    have hid := getElem?_keys_of_arrange hn
    have hplaced : n.position.isSome = true ↔ ¬ BehindCycle g.Leads id := isPlaced_arrange_iff hn
    refine ⟨hplaced, ?_, (rank_arrange hn).1⟩
    rw [hlayered.nodup.count]
    exact if_congr ((mem_layers_iff hid).trans hplaced.symm) rfl rfl

def entangledGraph : Graph where
  nodes := ["A", "B", "C", "D", "E"].foldl
    (fun t id => t.insertNew id (.new id id .rectangle none)) .empty
  edges := [("A", "B"), ("A", "B"), ("B", "C"), ("C", "B"), ("C", "D"), ("E", "E"), ("X", "A")].map
    fun (a, b) => .new a b none .solid .arrow

/-- In it the node behind the cycle has no place and the first node has one. -/
theorem entangledGraph_places :
    (∃ n, (entangledGraph.arrange {}).nodes.entries[3]? = some ("D", n) ∧
      n.position.isSome = false ∧ BehindCycle entangledGraph.Leads "D") ∧
    ∃ n, (entangledGraph.arrange {}).nodes.entries[0]? = some ("A", n) ∧
      n.position.isSome = true ∧ ¬ BehindCycle entangledGraph.Leads "A" := by
  have hlayers : layers entangledGraph = [[0]] := by decide +kernel
  have hplaces := (arrange_places_outside_cycles {} entangledGraph).2.2
  constructor
  · refine ⟨_, getElem?_arrange {} entangledGraph 3, ?_, ?_⟩
    · rw [hlayers]
      rfl
    · by_contra hnot
      have hsome := (hplaces 3 "D" _ (getElem?_arrange {} entangledGraph 3)).1.2 hnot
      rw [hlayers] at hsome
      exact absurd hsome (by decide)
  · have hsome : (placedNode {} .topDown (layers entangledGraph) 0
        (.new "A" "A" .rectangle none)).position.isSome = true := by
      rw [hlayers]
      rfl
    refine ⟨_, getElem?_arrange {} entangledGraph 0, hsome, ?_⟩
    exact (hplaces 0 "A" _ (getElem?_arrange {} entangledGraph 0)).1.1 hsome

/-- The rank of a placed node is the length of the longest path to it, and the number of its layer.
So ranks grow along the edges between nodes, and the ranks in use are those of the layers, none of
which is empty. -/
theorem rank_is_longest_path (c : LayoutConfig) (g : Graph) :
    (∀ i id n, (g.arrange c).nodes.entries[i]? = some (id, n) → n.isPlaced = true →
      ∃ k layer, n.rank = some k ∧ g.LongestPathTo id k ∧ (layers g)[k]? = some layer ∧ i ∈ layer) ∧
    (∀ e ∈ g.edges, ∀ n m, (g.arrange c).node? e.source = some n →
      (g.arrange c).node? e.target = some m → m.isPlaced = true →
      n.isPlaced = true ∧ ∃ j k, n.rank = some j ∧ m.rank = some k ∧ j < k) ∧
    (∀ layer ∈ layers g, layer ≠ []) ∧
    ∀ k, (∃ n ∈ (g.arrange c).nodes.values, n.rank = some k) ↔ k < (layers g).length := by
  refine ⟨?_, ?_, (layers_layered g).1.nonempty, fun k => exists_rank_iff⟩
  · intro i id n hn hplaced
    have hid := getElem?_keys_of_arrange hn
    obtain ⟨k, hk⟩ := Option.isSome_iff_exists.1 ((rank_arrange hn).1 ▸ hplaced)
    have hdepth := ((rank_arrange hn).2 k).1 hk
    obtain ⟨layer, hlayer, hi⟩ := (mem_layer_iff hid).2 hdepth
    have hpath := longestPathTo_of_isDepth (List.mem_of_getElem? hid) hdepth
    exact ⟨k, layer, hk, hpath, hlayer, hi⟩
  · intro e he n m hn hm hplaced
    exact rank_lt_of_edge he hn hm hplaced

def forkedGraph : Graph where
  nodes := ["A", "B", "C"].foldl
    (fun t id => t.insertNew id (.new id id .rectangle none)) .empty
  edges := [("A", "C"), ("A", "B"), ("B", "C")].map fun (a, b) => .new a b none .solid .arrow

/-- The longer way counts. -/
theorem forkedGraph_rank :
    ∃ n, (forkedGraph.arrange {}).nodes.entries[2]? = some ("C", n) ∧ n.rank = some 2 ∧
      forkedGraph.LongestPathTo "C" 2 := by
  have hlayers : layers forkedGraph = [[0], [1], [2]] := by decide +kernel
  have hplaced : (placedNode {} .topDown (layers forkedGraph) 2
      (.new "C" "C" .rectangle none)).isPlaced = true := by
    rw [hlayers]
    rfl
  have hrank : (placedNode {} .topDown (layers forkedGraph) 2
      (.new "C" "C" .rectangle none)).rank = some 2 := by
    rw [hlayers]
    rfl
  obtain ⟨k, _, hk, hpath, _⟩ := (rank_is_longest_path {} forkedGraph).1 2 "C" _
    (getElem?_arrange {} forkedGraph 2) hplaced
  have hk2 : k = 2 := Option.some.inj (hk.symm.trans hrank)
  exact ⟨_, getElem?_arrange {} forkedGraph 2, hrank, hk2 ▸ hpath⟩

end Flowchart.Layout
