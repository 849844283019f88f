import Flowchart.Config.Basic
import Flowchart.Label
import Flowchart.Layout.Ports
import Flowchart.Scene.Arrow

namespace Flowchart

def Direction.flowAxis : Direction → Point
  | .leftRight => ⟨1.0, 0.0⟩
  | .topDown => ⟨0.0, 1.0⟩

def Direction.crossAxis : Direction → Point
  | .leftRight => ⟨0.0, 1.0⟩
  | .topDown => ⟨1.0, 0.0⟩

def elbowRoute (start finish : Point) : Direction → Route
  | .leftRight =>
    let middle := (start.x + finish.x) / 2.0
    ⟨start, ⟨middle, start.y⟩, ⟨middle, finish.y⟩, finish⟩
  | .topDown =>
    let middle := (start.y + finish.y) / 2.0
    ⟨start, ⟨start.x, middle⟩, ⟨finish.x, middle⟩, finish⟩

/-- A segment at least as long as asked: one that is too short grows on both ends alike, in its own
direction, or along the axis given if it is too short to have one. -/
def Segment.extend (s : Segment) (least : Float32) (axis : Point) : Segment :=
  let length := s.length
  if least ≤ length then s
  else
    let along : Point :=
      if Single.epsilon < length then
        ⟨(s.finish.x - s.start.x) / length, (s.finish.y - s.start.y) / length⟩
      else axis
    let middle := s.midpoint
    let half := least / 2.0
    ⟨⟨middle.x - along.x * half, middle.y - along.y * half⟩,
      ⟨middle.x + along.x * half, middle.y + along.y * half⟩⟩

/-- The middle of a label: to the right of an upright segment, above one that lies. -/
def labelAnchor (s : Segment) (width height gap : Float32) : Direction → Point
  | .leftRight => ⟨s.midpoint.x + width / 2.0 + gap, s.midpoint.y⟩
  | .topDown => ⟨s.midpoint.x, s.midpoint.y - height / 2.0 - gap⟩

def placeLabel (text : String) (middle : Segment) (d : Direction) (c : LayoutConfig) :
    Segment × EdgeLabel :=
  let flow := c.flowchart
  let block := Label.measure text flow.edgeLabelFontSize c.labelLineHeight
  let segment := middle.extend (block.width + flow.edgeLabelPadding) d.crossAxis
  (segment, {
    text := text
    lines := block.lines
    anchor := labelAnchor segment block.width block.height flow.edgeLabelGap d
    width := block.width
    height := block.height
    fontSize := flow.edgeLabelFontSize })

namespace Graph

def endpointBounds (g : Graph) (e : Edge) (id : String) : Except GeometryError Rect :=
  match g.node? id with
  | none => .error (.missingEndpoint e.source e.target id)
  | some n =>
    match n.bounds with
    | none => .error (.nodeNotPlaced id)
    | some bounds => .ok bounds

def drawEdge (g : Graph) (index : Nat) (e : Edge) (start finish : Point) (c : LayoutConfig) :
    EdgeGeometry :=
  let route := elbowRoute start finish g.direction
  let placed := e.label.map fun text => placeLabel text route.middle g.direction c
  { index := index
    source := e.source
    target := e.target
    route := route
    labelSegment := (placed.map (·.1)).getD route.middle
    label := placed.map (·.2)
    arrow :=
      e.arrowhead.glyph route.secondBend finish c.flowchart.arrowSize g.direction.flowAxis
    color := e.color
    strokeWidth := e.strokeWidth
    style := e.style }

/-- The edge of a number as it is drawn: its ends are placed nodes, the source looked at first, and
it has ports. -/
def resolveEdge (g : Graph) (index : Nat) (c : LayoutConfig) : Except GeometryError EdgeGeometry :=
  match g.edges[index]? with
  | none => .error (.unknownEdge index)
  | some e => do
    let first ← g.endpointBounds e e.source
    let second ← g.endpointBounds e e.target
    match e.exitPort, e.entryPort with
    | some exit, some entry =>
      let start := exit.anchor first e.exitOffset
      let finish := entry.anchor second e.entryOffset
      .ok (g.drawEdge index e start finish c)
    | _, _ => .error (.missingPorts e.source e.target)

end Graph
end Flowchart
