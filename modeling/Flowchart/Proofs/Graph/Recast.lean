import Flowchart.Scene.Frame
import Flowchart.Scene.Route

namespace Flowchart.Graph

def recast (g : Graph) (d : Direction) (node : Node → Node) (edge : Edge → Edge) : Graph where
  direction := d
  nodes := g.nodes.mapPlaces fun _ => node
  edges := g.edges.map edge

variable (g : Graph) (d : Direction) {node node' : Node → Node} {edge edge' : Edge → Edge}

@[simp] theorem keys_recast : (g.recast d node edge).nodes.keys = g.nodes.keys :=
  Table.keys_mapPlaces _ _

theorem values_recast : (g.recast d node edge).nodes.values = g.nodes.values.map node :=
  Table.values_mapPlaces_const _ _

theorem node?_recast (id : String) : (g.recast d node edge).node? id = (g.node? id).map node :=
  Table.find?_mapPlaces_const _ _ _

theorem getElem?_edges_recast (i : Nat) :
    (g.recast d node edge).edges[i]? = g.edges[i]?.map edge := List.getElem?_map ..

theorem recast_recast (e : Direction) :
    (g.recast d node edge).recast e node' edge' = g.recast e (node' ∘ node) (edge' ∘ edge) := by
  have hnodes : (g.nodes.mapPlaces fun _ => node).mapPlaces (fun _ => node') =
      g.nodes.mapPlaces fun _ => node' ∘ node := by
    apply Table.ext
    simp only [Table.entries_mapPlaces_const, List.map_map]
    rfl
  simp only [recast, hnodes, List.map_map]

theorem placedNodes_recast (hplaced : ∀ n, (node n).isPlaced = n.isPlaced) :
    (g.recast d node edge).placedNodes = g.placedNodes.map node := by
  have hboth : Node.isPlaced ∘ node = Node.isPlaced := funext hplaced
  rw [placedNodes, values_recast, List.filter_map, hboth, placedNodes]

theorem membersOf_recast (hplaced : ∀ n, (node n).isPlaced = n.isPlaced)
    (hsubgraph : ∀ n, (node n).subgraph = n.subgraph) (label : String) :
    (g.recast d node edge).membersOf label = (g.membersOf label).map node := by
  rw [membersOf, placedNodes_recast g d hplaced, List.filter_map, membersOf]
  simp only [Function.comp_def, hsubgraph]

theorem subgraphLabels_recast (hsubgraph : ∀ n, (node n).subgraph = n.subgraph) :
    (g.recast d node edge).subgraphLabels = g.subgraphLabels := by
  rw [subgraphLabels, values_recast, List.foldl_map, subgraphLabels]
  simp only [hsubgraph]

theorem endpointBounds_recast {rect : Rect → Rect}
    (hbounds : ∀ n, (node n).bounds = n.bounds.map rect) {e f : Edge} (hsource : f.source = e.source)
    (htarget : f.target = e.target) (id : String) :
    (g.recast d node edge).endpointBounds f id = (g.endpointBounds e id).map rect := by
  rw [endpointBounds, endpointBounds, node?_recast, hsource, htarget]
  cases g.node? id with
  | none => rfl
  | some n =>
    simp only [Option.map_some, hbounds]
    cases n.bounds <;> rfl

end Flowchart.Graph
