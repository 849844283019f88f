import Flowchart.Scene.Frame
import Flowchart.Scene.Outline
import Flowchart.Scene.Route

namespace Flowchart

def EdgeLabel.bounds (l : EdgeLabel) : Rect :=
  ⟨l.anchor.x - l.width / 2.0, l.anchor.y - l.height / 2.0, l.width, l.height⟩

def Point.bounds (p : Point) : Rect := ⟨p.x, p.y, 0.0, 0.0⟩

def EdgeGeometry.parts (e : EdgeGeometry) : List Rect :=
  (e.route.points ++ [e.labelSegment.start, e.labelSegment.finish]).map Point.bounds ++
    (e.label.map EdgeLabel.bounds).toList

namespace Scene

def parts (s : Scene) : List Rect :=
  (s.nodes.map (·.bounds) ++ s.frames.map (·.bounds) ++ s.edges.flatMap EdgeGeometry.parts).filter
    Rect.isFinite

/-- The width and height of a drawing: from the origin to the right and bottom of all its parts, and
a margin more; nothing for an empty one. -/
def extent (s : Scene) (margin : Float32) : Size :=
  match Rect.unionAll? s.parts with
  | none => ⟨0.0, 0.0⟩
  | some r => ⟨Single.larger (r.right + margin) 0.0, Single.larger (r.bottom + margin) 0.0⟩

end Scene

def Graph.scene (g : Graph) (c : LayoutConfig) : Scene :=
  let drawn : Scene := {
    nodes := g.placedNodes.filterMap (·.drawn? c)
    edges := (List.range g.edges.length).filterMap fun i => (g.resolveEdge i c).toOption
    frames := g.frames c }
  let size := drawn.extent c.margin
  { drawn with width := size.width, height := size.height }

end Flowchart
