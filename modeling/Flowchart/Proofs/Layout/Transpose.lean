import Flowchart.Proofs.Layout.Skeleton

/-! Every measure of a layout is taken along the flow or across it, so the same sums are made of the
same numbers in either direction. -/
namespace Flowchart

def Point.transpose (p : Point) : Point := ⟨p.y, p.x⟩

def Size.transpose (s : Size) : Size := ⟨s.height, s.width⟩

namespace PortSide

def transpose : PortSide → PortSide
  | left => top
  | right => bottom
  | top => left
  | bottom => right

theorem length_transpose (side : PortSide) (size : Size) :
    side.transpose.length size.transpose = side.length size := by
  cases side <;> rfl

theorem offset_transpose (side : PortSide) (length : Float32) (slot count : Nat) :
    side.transpose.offset length slot count = (side.offset length slot count).transpose := by
  cases side <;> rfl

end PortSide

namespace Direction

def transpose : Direction → Direction
  | topDown => leftRight
  | leftRight => topDown

theorem exitSide_transpose (d : Direction) : d.transpose.exitSide = d.exitSide.transpose := by
  cases d <;> rfl

theorem entrySide_transpose (d : Direction) : d.transpose.entrySide = d.entrySide.transpose := by
  cases d <;> rfl

end Direction

def LayoutConfig.transpose (c : LayoutConfig) : LayoutConfig :=
  { c with nodeWidth := c.nodeHeight, nodeHeight := c.nodeWidth }

def Node.transpose (n : Node) : Node :=
  { n with position := n.position.map Point.transpose, size := n.size.transpose }

def Edge.transpose (e : Edge) : Edge :=
  { e with
    exitPort := e.exitPort.map PortSide.transpose
    entryPort := e.entryPort.map PortSide.transpose
    exitOffset := e.exitOffset.transpose
    entryOffset := e.entryOffset.transpose }

def Placement.transpose (p : Placement) : Placement :=
  ⟨p.position.map Point.transpose, p.rank, p.size.transpose⟩

def Routing.transpose (r : Routing) : Routing :=
  ⟨r.exitPort.map PortSide.transpose, r.entryPort.map PortSide.transpose, r.exitOffset.transpose,
    r.entryOffset.transpose⟩

namespace Graph

def transpose (g : Graph) : Graph := g.recast g.direction.transpose Node.transpose Edge.transpose

def toward (g : Graph) (d : Direction) : Graph := { g with direction := d }

theorem placements_transpose (g : Graph) :
    g.transpose.placements = g.placements.map Placement.transpose := by
  rw [placements, transpose, values_recast, placements, List.map_map, List.map_map]
  rfl

theorem routings_transpose (g : Graph) :
    g.transpose.routings = g.routings.map Routing.transpose := by
  rw [routings, transpose, recast, routings, List.map_map, List.map_map]
  rfl

theorem unlaid_transpose (g : Graph) :
    g.transpose.unlaid = g.unlaid.toward g.direction.transpose := by
  rw [unlaid, transpose, recast_recast]
  rfl

end Graph

namespace Layout

variable (c : LayoutConfig) (d : Direction)

theorem span_transpose (count : Nat) : span c.transpose d.transpose count = span c d count := by
  cases d <;> rfl

theorem widest_transpose (layers : List (List Nat)) :
    widest c.transpose d.transpose layers = widest c d layers := by
  simp only [widest, span_transpose]

theorem slotCorner_transpose (widest : Float32) (rank count slot : Nat) :
    slotCorner c.transpose d.transpose widest rank count slot =
      (slotCorner c d widest rank count slot).transpose := by
  simp only [slotCorner, span_transpose]
  cases d <;> rfl

theorem placementAt_transpose (layers : List (List Nat)) (i : Nat) :
    placementAt c.transpose d.transpose layers i = (placementAt c d layers i).transpose := by
  simp only [placementAt, widest_transpose, slotCorner_transpose, Placement.transpose,
    Option.map_map]
  rfl

def Ends.transpose (e : Ends) : Ends :=
  { e with sourceSize := e.sourceSize.transpose, targetSize := e.targetSize.transpose }

theorem ends?_transpose (g : Graph) (e : Edge) :
    ends? g.transpose e = (ends? g e).map Ends.transpose := by
  have hends : g.transpose.endpoints? e = g.endpoints? e :=
    endpoints?_congr (g.keys_recast _) rfl
  rw [ends?_eq_placements, ends?_eq_placements, hends, Graph.placements_transpose]
  simp only [List.getElem?_map, Option.bind_map, Option.map_bind, Function.comp_def,
    Placement.transpose, Option.isSome_map, apply_ite (Option.map Ends.transpose)]
  rfl

theorem routingAt_transpose (all upTo : List Ends) (ends : Option Ends) :
    routingAt d.transpose (all.map Ends.transpose) (upTo.map Ends.transpose)
        (ends.map Ends.transpose) =
      (routingAt d all upTo ends).transpose := by
  have hleaving (e : Ends) (edges : List Ends) :
      leaving e.transpose (edges.map Ends.transpose) = leaving e edges := List.countP_map ..
  have hentering (e : Ends) (edges : List Ends) :
      entering e.transpose (edges.map Ends.transpose) = entering e edges := List.countP_map ..
  cases ends with
  | none => rfl
  | some ends =>
    simp only [Option.map_some, routingAt, hleaving, hentering, Direction.exitSide_transpose,
      Direction.entrySide_transpose]
    simp only [Ends.transpose, PortSide.length_transpose, PortSide.offset_transpose,
      Routing.transpose, Option.map_some]

theorem routingsOf_transpose (ends : List (Option Ends)) :
    routingsOf d.transpose (ends.map (Option.map Ends.transpose)) =
      (routingsOf d ends).map Routing.transpose := by
  have hreduce (ends : List (Option Ends)) :
      (ends.map (Option.map Ends.transpose)).reduceOption =
        ends.reduceOption.map Ends.transpose := List.reduceOption_map ..
  apply List.ext_getElem?
  intro i
  rw [routingsOf, List.getElem?_map, routingsOf, List.getElem?_mapIdx, List.getElem?_mapIdx,
    List.getElem?_map, Option.map_map, Option.map_map]
  simp only [← List.map_take, hreduce, ← List.map_reverse, routingAt_transpose, Function.comp_def]

/-- A graph laid out in the other direction, with the measures of its nodes exchanged, is the graph
laid out in its own direction with the axes exchanged. -/
theorem arrange_toward_transpose (g : Graph) :
    (g.toward d.transpose).arrange c.transpose = ((g.toward d).arrange c).transpose := by
  have hplacements : ((g.toward d.transpose).arrange c.transpose).placements =
      (((g.toward d).arrange c).transpose).placements := by
    rw [Graph.placements_transpose, placements_arrange, placements_arrange, List.map_map]
    exact List.map_congr_left fun i _ => placementAt_transpose c d (layers g) i
  have hkeys : ((g.toward d.transpose).arrange c.transpose).nodes.keys =
      ((g.toward d).arrange c).transpose.nodes.keys := by
    rw [keys_arrange, Graph.transpose, Graph.keys_recast, keys_arrange]
    rfl
  have hends : g.edges.map (ends? ((g.toward d.transpose).arrange c.transpose)) =
      (g.edges.map (ends? ((g.toward d).arrange c))).map (Option.map Ends.transpose) := by
    rw [List.map_map]
    refine List.map_congr_left fun e _ => ?_
    exact (ends?_congr hkeys hplacements rfl).trans (ends?_transpose _ e)
  have hroutings : ((g.toward d.transpose).arrange c.transpose).routings =
      (((g.toward d).arrange c).transpose).routings := by
    rw [Graph.routings_transpose, routings_arrange, routings_arrange, ← routingsOf_transpose]
    exact congrArg (routingsOf d.transpose) hends
  refine Graph.eq_of_unlaid ?_ hplacements hroutings
  rw [unlaid_arrange, Graph.unlaid_transpose, unlaid_arrange]
  rfl

end Layout
end Flowchart
