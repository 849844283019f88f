import Flowchart.Layout.Arrange
import Mathlib.Data.List.Nodup

namespace Flowchart.Layout

/-- In layers that share no node, a node has one slot. -/
theorem slotOf?_of_mem {layers : List (List Nat)} (hnodup : layers.flatten.Nodup) {k i : Nat}
    {layer : List Nat} (hlayer : layers[k]? = some layer) (hi : i ∈ layer) :
    ∃ slot, layer[slot]? = some i ∧ slotOf? layers i = some (k, slot, layer.length) := by
  obtain ⟨hk, hget⟩ := List.getElem?_eq_some_iff.1 hlayer
  have hrank : layers.findIdx? (·.contains i) = some k := by
    refine List.findIdx?_eq_some_iff_getElem.2 ⟨hk, by simpa [hget] using hi, ?_⟩
    intro j hj hmem
    -- a layer before this one that held the node would share it
    have hdisjoint := List.pairwise_iff_getElem.1 (List.nodup_flatten.1 hnodup).2 j k (by omega) hk hj
    exact hdisjoint (List.contains_iff_mem.1 hmem) (hget ▸ hi)
  obtain ⟨slot, hslot⟩ := Option.isSome_iff_exists.1 (List.isSome_idxOf?.2 hi)
  obtain ⟨hlt, hat, _⟩ := List.idxOf?_eq_some_iff.1 hslot
  refine ⟨slot, List.getElem?_eq_some_iff.2 ⟨hlt, hat⟩, ?_⟩
  simp only [slotOf?, hrank, hlayer, hslot, Option.bind_eq_bind, Option.bind_some, Option.pure_def]

theorem slotOf?_eq_none {layers : List (List Nat)} {i : Nat} (hi : i ∉ layers.flatten) :
    slotOf? layers i = none := by
  have hnone : layers.findIdx? (·.contains i) = none := by
    rw [List.findIdx?_eq_none_iff]
    intro layer hlayer
    by_contra hmem
    exact hi (List.mem_flatten.2 ⟨layer, hlayer, by simpa using hmem⟩)
  simp only [slotOf?, hnone, Option.bind_eq_bind, Option.bind_none]

def placedNode (c : LayoutConfig) (d : Direction) (layers : List (List Nat)) (i : Nat) (n : Node) :
    Node :=
  { n with
    size := ⟨c.nodeWidth, c.nodeHeight⟩
    rank := (slotOf? layers i).map (·.1)
    position := (slotOf? layers i).map fun (rank, slot, count) =>
      slotCorner c d (widest c d layers) rank count slot }

@[simp] theorem place?_reset (c : LayoutConfig) (g : Graph) (id : String) :
    (reset c g).nodes.place? id = g.nodes.place? id :=
  Table.place?_congr (Table.keys_mapPlaces _ _) id

theorem links_reset (c : LayoutConfig) (g : Graph) : links (reset c g) = links g := by
  have hends : (reset c g).endpoints? ∘ Edge.clearPorts = g.endpoints? := by
    funext e
    simp only [Function.comp, Graph.endpoints?, place?_reset, Edge.clearPorts]
  rw [links, links, ← hends, ← List.filterMap_map]
  rfl

/-- Earlier places and ports do not matter for layers. -/
theorem layers_reset (c : LayoutConfig) (g : Graph) : layers (reset c g) = layers g := by
  have hsize : (reset c g).nodes.size = g.nodes.size := by
    simp [reset, Table.size, Table.mapPlaces]
  simp only [layers, links_reset, hsize]

@[simp] theorem direction_arrange (c : LayoutConfig) (g : Graph) :
    (g.arrange c).direction = g.direction := rfl

@[simp] theorem keys_arrange (c : LayoutConfig) (g : Graph) :
    (g.arrange c).nodes.keys = g.nodes.keys := by
  simp only [Graph.arrange, assignPorts, place, reset, Table.keys_mapPlaces]

theorem getElem?_keys_of_arrange {c : LayoutConfig} {g : Graph} {i : Nat} {id : String} {n : Node}
    (h : (g.arrange c).nodes.entries[i]? = some (id, n)) : g.nodes.keys[i]? = some id :=
  keys_arrange c g ▸ Table.getElem?_keys h

theorem getElem?_arrange (c : LayoutConfig) (g : Graph) (i : Nat) :
    (g.arrange c).nodes.entries[i]? =
      g.nodes.entries[i]?.map fun e => (e.1, placedNode c g.direction (layers g) i e.2) := by
  simp only [Graph.arrange, assignPorts, place, layers_reset]
  simp only [reset, Table.mapPlaces, List.getElem?_mapIdx, Option.map_map]
  congr 1
  funext e
  simp only [Function.comp, placedNode]
  cases slotOf? (layers g) i <;> rfl

end Flowchart.Layout
