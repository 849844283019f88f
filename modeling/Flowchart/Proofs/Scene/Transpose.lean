import Flowchart.Proofs.Layout.Transpose
import Flowchart.Scene.Resolve

namespace Flowchart

namespace Rect

def transpose (r : Rect) : Rect := ⟨r.y, r.x, r.height, r.width⟩

theorem union_transpose (r s : Rect) :
    (r.union s).transpose = r.transpose.union s.transpose := rfl

theorem unionAll?_transpose (rects : List Rect) :
    unionAll? (rects.map transpose) = (unionAll? rects).map transpose := by
  cases rects with
  | nil => rfl
  | cons r rest =>
    have hfold : (rest.map transpose).foldl union r.transpose =
        (rest.foldl union r).transpose := by
      rw [List.foldl_map]
      exact List.foldl_hom transpose fun around r => (union_transpose around r).symm
    rw [List.map_cons, unionAll?, unionAll?, hfold, Option.map_some]

end Rect

theorem PortSide.anchor_transpose (side : PortSide) (bounds : Rect) (offset : Point) :
    side.transpose.anchor bounds.transpose offset.transpose =
      (side.anchor bounds offset).transpose := by
  cases side <;> rfl

def Route.transpose (r : Route) : Route :=
  ⟨r.start.transpose, r.firstBend.transpose, r.secondBend.transpose, r.finish.transpose⟩

theorem elbowRoute_transpose (start finish : Point) (d : Direction) :
    elbowRoute start.transpose finish.transpose d.transpose =
      (elbowRoute start finish d).transpose := by
  cases d <;> rfl

def SubgraphFrame.transpose (f : SubgraphFrame) : SubgraphFrame :=
  { f with bounds := f.bounds.transpose, labelAnchor := f.labelAnchor.transpose }

theorem Node.bounds_transpose (n : Node) : n.transpose.bounds = n.bounds.map Rect.transpose := by
  rw [bounds, bounds, transpose, Option.map_map, Option.map_map]
  rfl

namespace Graph

variable (g : Graph) (c : LayoutConfig)

/-- An edge has a route when it has one in the other direction, and the failures are the same. -/
theorem route_resolveEdge_transpose (c' : LayoutConfig) (i : Nat) :
    (g.transpose.resolveEdge i c').map (·.route) =
      (g.resolveEdge i c).map (·.route.transpose) := by
  have hedge : g.transpose.edges[i]? = g.edges[i]?.map Edge.transpose := g.getElem?_edges_recast _ i
  unfold resolveEdge
  rw [hedge]
  cases g.edges[i]? with
  | none => rfl
  | some e =>
    have hfirst : g.transpose.endpointBounds e.transpose e.transpose.source =
        (g.endpointBounds e e.source).map Rect.transpose :=
      g.endpointBounds_recast _ Node.bounds_transpose rfl rfl _
    have hsecond : g.transpose.endpointBounds e.transpose e.transpose.target =
        (g.endpointBounds e e.target).map Rect.transpose :=
      g.endpointBounds_recast _ Node.bounds_transpose rfl rfl _
    have hexit : e.transpose.exitPort = e.exitPort.map PortSide.transpose := rfl
    have hentry : e.transpose.entryPort = e.entryPort.map PortSide.transpose := rfl
    simp only [Option.map_some, hfirst, hsecond, hexit, hentry]
    cases g.endpointBounds e e.source with
    | error _ => simp only [Except.map, bind, Except.bind]
    | ok first =>
      cases g.endpointBounds e e.target with
      | error _ => simp only [Except.map, bind, Except.bind]
      | ok second =>
        cases e.exitPort with
        | none => rfl
        | some exit =>
          cases e.entryPort with
          | none => rfl
          | some entry =>
            have hstart := exit.anchor_transpose first e.exitOffset
            have hfinish := entry.anchor_transpose second e.entryOffset
            have hroute := elbowRoute_transpose (exit.anchor first e.exitOffset)
              (entry.anchor second e.entryOffset) g.direction
            rw [← hstart, ← hfinish] at hroute
            exact congrArg Except.ok hroute

theorem frame?_transpose (label : String) :
    g.transpose.frame? label c.transpose = (g.frame? label c).map SubgraphFrame.transpose := by
  have hplaced (n : Node) : n.transpose.isPlaced = n.isPlaced := by
    simp [Node.transpose, Node.isPlaced]
  have hmembers : g.transpose.membersOf label = (g.membersOf label).map Node.transpose :=
    g.membersOf_recast _ hplaced (fun _ => rfl) label
  have hbounds : ((g.membersOf label).map Node.transpose).filterMap Node.bounds =
      ((g.membersOf label).filterMap Node.bounds).map Rect.transpose := by
    rw [List.filterMap_map, List.map_filterMap]
    exact List.filterMap_congr fun n _ => n.bounds_transpose
  simp only [frame?, hmembers, hbounds, Rect.unionAll?_transpose, Option.map_map, List.map_map]
  rfl

theorem frames_transpose :
    g.transpose.frames c.transpose = (g.frames c).map SubgraphFrame.transpose := by
  have hlabels : g.transpose.subgraphLabels = g.subgraphLabels :=
    g.subgraphLabels_recast _ fun _ => rfl
  rw [frames, frames, hlabels, List.map_filterMap]
  exact List.filterMap_congr fun label _ => g.frame?_transpose c label

/-- From top to bottom a graph is laid out as from left to right with the axes exchanged, if the two
measures of nodes are exchanged too. The same edges have routes, through the same points with the
coordinates exchanged, and the frames have the same labels and members. -/
theorem topDown_transposes_leftRight (g : Graph) (c : LayoutConfig) :
    (g.toward .topDown).arrange c.transpose = ((g.toward .leftRight).arrange c).transpose ∧
      (∀ i, (((g.toward .topDown).arrange c.transpose).resolveEdge i c.transpose).map (·.route) =
        (((g.toward .leftRight).arrange c).resolveEdge i c).map (·.route.transpose)) ∧
      ((g.toward .topDown).arrange c.transpose).frames c.transpose =
        (((g.toward .leftRight).arrange c).frames c).map SubgraphFrame.transpose := by
  have hdown : (g.toward .topDown).arrange c.transpose =
      ((g.toward .leftRight).arrange c).transpose :=
    Layout.arrange_toward_transpose c .leftRight g
  refine ⟨hdown, fun i => ?_, ?_⟩
  · rw [hdown]
    exact ((g.toward .leftRight).arrange c).route_resolveEdge_transpose c c.transpose i
  · rw [hdown]
    exact ((g.toward .leftRight).arrange c).frames_transpose c

end Graph
end Flowchart
