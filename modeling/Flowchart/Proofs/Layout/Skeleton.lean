import Flowchart.Proofs.Graph.Recast
import Flowchart.Proofs.Layout.Port
import Mathlib.Data.List.ReduceOption

/-! A layout sees only the direction of a graph, its identifiers in order, and the ends of its
edges. What it makes of nodes and edges it sets in full, whatever was there before. -/
namespace Flowchart

structure Placement where
  position : Option Point
  rank : Option Nat
  size : Size
  deriving DecidableEq

structure Routing where
  exitPort : Option PortSide
  entryPort : Option PortSide
  exitOffset : Point
  entryOffset : Point
  deriving DecidableEq

def Node.placement (n : Node) : Placement := ⟨n.position, n.rank, n.size⟩

def Edge.routing (e : Edge) : Routing := ⟨e.exitPort, e.entryPort, e.exitOffset, e.entryOffset⟩

def Node.unlaid (n : Node) : Node :=
  { n with position := none, rank := none, size := Node.defaultSize }

def Edge.unlaid (e : Edge) : Edge :=
  { e with exitPort := none, entryPort := none, exitOffset := .zero, entryOffset := .zero }

def Edge.ends (e : Edge) : String × String := (e.source, e.target)

namespace Graph

def placements (g : Graph) : List Placement := g.nodes.values.map Node.placement

def routings (g : Graph) : List Routing := g.edges.map Edge.routing

def unlaid (g : Graph) : Graph := g.recast g.direction Node.unlaid Edge.unlaid

structure SameSkeleton (g h : Graph) : Prop where
  direction : g.direction = h.direction
  ids : g.nodes.keys = h.nodes.keys
  ends : g.edges.map Edge.ends = h.edges.map Edge.ends

end Graph

theorem map_eq_map_of_view {α β γ : Type} {view : α → γ} {f f' : α → β}
    (hff : ∀ a b, view a = view b → f a = f' b) {l m : List α} (h : l.map view = m.map view) :
    l.map f = m.map f' := by
  induction l generalizing m with
  | nil =>
    obtain rfl := List.map_eq_nil_iff.1 h.symm
    rfl
  | cons a l ih =>
    obtain ⟨b, m, rfl, hab, hrest⟩ := List.map_eq_cons_iff.1 h.symm
    rw [List.map_cons, List.map_cons, hff a b hab.symm, ih hrest.symm]

/-- Lists that look the same from two sides are the same, if the two sides show everything. -/
theorem eq_of_map_eq_map {α β γ : Type} {f : α → β} {f' : α → γ}
    (hall : ∀ a b, f a = f b → f' a = f' b → a = b) {l m : List α} (h : l.map f = m.map f)
    (h' : l.map f' = m.map f') : l = m := by
  have hpairs : l.map (fun a => (f a, f' a)) = m.map fun a => (f a, f' a) := by
    rw [← List.zip_map', ← List.zip_map', h, h']
  refine (List.map_injective_iff.2 fun a b hab => ?_) hpairs
  exact hall a b (congrArg Prod.fst hab) (congrArg Prod.snd hab)

namespace Table

variable {κ ν : Type}

theorem ext_keys_values {t u : Table κ ν} (hkeys : t.keys = u.keys) (hvalues : t.values = u.values) :
    t = u :=
  Table.ext (eq_of_map_eq_map (fun _ _ => Prod.ext) hkeys hvalues)

end Table

theorem Node.eq_of_unlaid {n m : Node} (hunlaid : n.unlaid = m.unlaid)
    (hplacement : n.placement = m.placement) : n = m := by
  have hwhole (k : Node) : k = { k.unlaid with
    position := k.placement.position, rank := k.placement.rank, size := k.placement.size } := rfl
  rw [hwhole n, hwhole m, hunlaid, hplacement]

theorem Edge.eq_of_unlaid {e f : Edge} (hunlaid : e.unlaid = f.unlaid)
    (hrouting : e.routing = f.routing) : e = f := by
  have hwhole (k : Edge) : k = { k.unlaid with
    exitPort := k.routing.exitPort, entryPort := k.routing.entryPort,
    exitOffset := k.routing.exitOffset, entryOffset := k.routing.entryOffset } := rfl
  rw [hwhole e, hwhole f, hunlaid, hrouting]

namespace Graph

variable {g h k : Graph}

theorem SameSkeleton.symm (hsame : g.SameSkeleton h) : h.SameSkeleton g :=
  ⟨hsame.direction.symm, hsame.ids.symm, hsame.ends.symm⟩

theorem SameSkeleton.trans (hsame : g.SameSkeleton h) (hnext : h.SameSkeleton k) :
    g.SameSkeleton k :=
  ⟨hsame.direction.trans hnext.direction, hsame.ids.trans hnext.ids, hsame.ends.trans hnext.ends⟩

theorem SameSkeleton.recast {node : Node → Node} {edge : Edge → Edge}
    (hends : ∀ e, (edge e).ends = e.ends) : (g.recast g.direction node edge).SameSkeleton g where
  direction := rfl
  ids := g.keys_recast g.direction
  ends := by
    rw [Graph.recast, List.map_map]
    exact List.map_congr_left fun e _ => hends e

/-- Graphs that differ only by what layouts have left in them have one skeleton. -/
theorem SameSkeleton.of_unlaid (hunlaid : g.unlaid = h.unlaid) : g.SameSkeleton h := by
  have hg : g.unlaid.SameSkeleton g := .recast fun _ => rfl
  have hh : h.unlaid.SameSkeleton h := .recast fun _ => rfl
  exact hg.symm.trans (hunlaid ▸ hh)

/-- A graph is known from what a layout leaves and from what it makes. -/
theorem eq_of_unlaid (hunlaid : g.unlaid = h.unlaid) (hplacements : g.placements = h.placements)
    (hroutings : g.routings = h.routings) : g = h := by
  have hsame := SameSkeleton.of_unlaid hunlaid
  have hvalues : g.nodes.values.map Node.unlaid = h.nodes.values.map Node.unlaid := by
    rw [← g.values_recast g.direction, ← h.values_recast h.direction]
    exact congrArg (fun k : Graph => k.nodes.values) hunlaid
  have hedges : g.edges.map Edge.unlaid = h.edges.map Edge.unlaid := congrArg edges hunlaid
  have hnodes : g.nodes = h.nodes :=
    Table.ext_keys_values hsame.ids
      (eq_of_map_eq_map (fun _ _ => Node.eq_of_unlaid) hvalues hplacements)
  have hedges : g.edges = h.edges :=
    eq_of_map_eq_map (fun _ _ => Edge.eq_of_unlaid) hedges hroutings
  calc g = ⟨g.direction, g.nodes, g.edges⟩ := rfl
    _ = ⟨h.direction, h.nodes, h.edges⟩ := by rw [hsame.direction, hnodes, hedges]
    _ = h := rfl

end Graph

namespace Layout

open Flowchart.Graph (SameSkeleton)

variable {c : LayoutConfig} {g h : Graph}

theorem endpoints?_congr (hids : g.nodes.keys = h.nodes.keys) {e f : Edge} (hef : e.ends = f.ends) :
    g.endpoints? e = h.endpoints? f := by
  have hsource : e.source = f.source := congrArg Prod.fst hef
  have htarget : e.target = f.target := congrArg Prod.snd hef
  simp only [Graph.endpoints?, hsource, htarget, Table.place?_congr hids]

theorem links_congr (hsame : g.SameSkeleton h) : links g = links h := by
  have hmaps : g.edges.map g.endpoints? = h.edges.map h.endpoints? :=
    map_eq_map_of_view (fun _ _ => endpoints?_congr hsame.ids) hsame.ends
  calc links g = (g.edges.map g.endpoints?).reduceOption := by
        rw [List.reduceOption, List.filterMap_map]
        rfl
    _ = (h.edges.map h.endpoints?).reduceOption := by rw [hmaps]
    _ = links h := by
        rw [List.reduceOption, List.filterMap_map]
        rfl

theorem size_eq_length_keys (g : Graph) : g.nodes.size = g.nodes.keys.length := by
  simp [Table.size, Table.keys]

theorem layers_congr (hsame : g.SameSkeleton h) : layers g = layers h := by
  simp only [layers, links_congr hsame, size_eq_length_keys, hsame.ids]

def placementAt (c : LayoutConfig) (d : Direction) (layers : List (List Nat)) (i : Nat) :
    Placement where
  position := (slotOf? layers i).map fun (rank, slot, count) =>
    slotCorner c d (widest c d layers) rank count slot
  rank := (slotOf? layers i).map (·.1)
  size := ⟨c.nodeWidth, c.nodeHeight⟩

theorem placements_arrange (c : LayoutConfig) (g : Graph) :
    (g.arrange c).placements =
      (List.range g.nodes.size).map (placementAt c g.direction (layers g)) := by
  apply List.ext_getElem?
  intro i
  simp only [Graph.placements, Table.values, List.getElem?_map, getElem?_arrange, Option.map_map]
  by_cases hi : i < g.nodes.size
  · have hlt : i < g.nodes.entries.length := hi
    rw [List.getElem?_eq_getElem hlt, List.getElem?_range hi]
    rfl
  · have hle : g.nodes.entries.length ≤ i := Nat.le_of_not_lt hi
    have hrange : (List.range g.nodes.size).length ≤ i := List.length_range.symm ▸ hle
    rw [List.getElem?_eq_none hle, List.getElem?_eq_none hrange]
    rfl

theorem placements_arrange_congr (hsame : g.SameSkeleton h) :
    (g.arrange c).placements = (h.arrange c).placements := by
  rw [placements_arrange, placements_arrange, layers_congr hsame, hsame.direction,
    size_eq_length_keys, size_eq_length_keys, hsame.ids]

/-- Of the nodes at the ends of an edge only the placements are looked at. -/
theorem ends?_eq_placements (g : Graph) (e : Edge) :
    ends? g e = (g.endpoints? e).bind fun (source, target) =>
      g.placements[source]?.bind fun first => g.placements[target]?.bind fun second =>
        if first.position.isSome && second.position.isSome then
          some ⟨source, target, first.size, second.size⟩
        else none := by
  simp only [ends?, Graph.placements, List.getElem?_map, Option.bind_map]
  rfl

theorem ends?_congr (hids : g.nodes.keys = h.nodes.keys) (hplacements : g.placements = h.placements)
    {e f : Edge} (hef : e.ends = f.ends) : ends? g e = ends? h f := by
  rw [ends?_eq_placements, ends?_eq_placements, endpoints?_congr hids hef, hplacements]

def routingAt (d : Direction) (all upTo : List Ends) : Option Ends → Routing
  | none => ⟨none, none, .zero, .zero⟩
  | some ends =>
    { exitPort := some d.exitSide
      entryPort := some d.entrySide
      exitOffset := d.exitSide.offset (d.exitSide.length ends.sourceSize) (leaving ends upTo)
        (leaving ends all)
      entryOffset := d.entrySide.offset (d.entrySide.length ends.targetSize) (entering ends upTo)
        (entering ends all) }

def routingsOf (d : Direction) (ends : List (Option Ends)) : List Routing :=
  ends.mapIdx fun i own => routingAt d ends.reduceOption (ends.take (i + 1)).reduceOption.reverse own

theorem routings_arrange (c : LayoutConfig) (g : Graph) :
    (g.arrange c).routings = routingsOf g.direction (g.edges.map (ends? (g.arrange c))) := by
  have hported (all upTo : List Ends) (e : Edge) (ends : Option Ends) :
      (portedEdge g.direction all upTo e.clearPorts ends).routing =
        routingAt g.direction all upTo ends := by
    cases ends <;> rfl
  apply List.ext_getElem?
  intro i
  rw [Graph.routings, List.getElem?_map, getElem?_edges_arrange, Option.map_map, routingsOf,
    List.getElem?_mapIdx, List.getElem?_map, Option.map_map, List.reduceOption, ← List.map_take,
    List.filterMap_map, List.filterMap_map]
  simp only [Function.comp_def, hported, id]

theorem routings_arrange_congr (hsame : g.SameSkeleton h) :
    (g.arrange c).routings = (h.arrange c).routings := by
  have hids : (g.arrange c).nodes.keys = (h.arrange c).nodes.keys := by
    rw [keys_arrange, keys_arrange, hsame.ids]
  have hends : g.edges.map (ends? (g.arrange c)) = h.edges.map (ends? (h.arrange c)) :=
    map_eq_map_of_view (fun _ _ => ends?_congr hids (placements_arrange_congr hsame)) hsame.ends
  rw [routings_arrange, routings_arrange, hends, hsame.direction]

theorem unlaid_arrange (c : LayoutConfig) (g : Graph) : (g.arrange c).unlaid = g.unlaid := by
  have hnodes : (g.arrange c).unlaid.nodes = g.unlaid.nodes := by
    apply Table.ext
    apply List.ext_getElem?
    intro i
    simp only [Graph.unlaid, Graph.recast, Table.entries_mapPlaces_const, List.getElem?_map,
      getElem?_arrange, Option.map_map]
    rfl
  have hedges : (g.arrange c).unlaid.edges = g.unlaid.edges := edges_arrange_looks
  calc (g.arrange c).unlaid
      = ⟨g.direction, (g.arrange c).unlaid.nodes, (g.arrange c).unlaid.edges⟩ := rfl
    _ = g.unlaid := by rw [hnodes, hedges]; rfl

/-- Graphs that differ only by what earlier layouts have left in them have one layout. -/
theorem arrange_congr (hunlaid : g.unlaid = h.unlaid) : g.arrange c = h.arrange c := by
  have hsame := SameSkeleton.of_unlaid hunlaid
  refine Graph.eq_of_unlaid ?_ (placements_arrange_congr hsame) (routings_arrange_congr hsame)
  rw [unlaid_arrange, unlaid_arrange, hunlaid]

/-- Two graphs with one skeleton get the same places, ranks, sizes, ports and offsets, whatever
earlier layouts have left in them. A layout changes nothing else of either of them, and laying them
out once more changes nothing at all. -/
theorem arrange_sees_skeleton (c : LayoutConfig) {g h : Graph} (hsame : g.SameSkeleton h) :
    (g.arrange c).placements = (h.arrange c).placements ∧
      (g.arrange c).routings = (h.arrange c).routings ∧
      ∀ k ∈ [g, h], (k.arrange c).unlaid = k.unlaid ∧ (k.arrange c).arrange c = k.arrange c := by
  refine ⟨placements_arrange_congr hsame, routings_arrange_congr hsame, fun k _ => ?_⟩
  exact ⟨unlaid_arrange c k, arrange_congr (unlaid_arrange c k)⟩

def loopedGraph : Graph where
  nodes := ["A", "B", "C"].foldl
    (fun t id => t.insertNew id (.new id id .rectangle none)) .empty
  edges := [("A", "B"), ("C", "C")].map fun (a, b) => .new a b none .solid .arrow

def staleGraph : Graph where
  nodes := loopedGraph.nodes.mapPlaces fun i n =>
    { n with label := "old", shape := .hexagon, position := some ⟨999.0, 999.0⟩, rank := some i }
  edges := loopedGraph.edges.map fun e =>
    { e with label := some "old", exitPort := some .left, entryOffset := ⟨5.0, 0.0⟩ }

/-- The stale places are gone, also that of the node with the loop. -/
theorem staleGraph_arranged :
    loopedGraph.SameSkeleton staleGraph ∧
      staleGraph.placements.map (·.position.isSome) = [true, true, true] ∧
      (staleGraph.arrange {}).placements.map (·.position.isSome) = [true, true, false] ∧
      (loopedGraph.arrange {}).placements = (staleGraph.arrange {}).placements ∧
      (loopedGraph.arrange {}).routings = (staleGraph.arrange {}).routings ∧
      ∀ k ∈ [loopedGraph, staleGraph],
        (k.arrange {}).unlaid = k.unlaid ∧ (k.arrange {}).arrange {} = k.arrange {} := by
  have hsame : loopedGraph.SameSkeleton staleGraph := ⟨rfl, by decide, by decide⟩
  exact ⟨hsame, by decide, by decide +kernel, arrange_sees_skeleton {} hsame⟩

end Layout
end Flowchart
