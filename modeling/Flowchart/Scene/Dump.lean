import Flowchart.Json.Text
import Flowchart.Scene.Json

namespace Flowchart

open Json (ofSingle ofNat ofText? ofTexts ofOption)

structure NodeDump where
  id : String
  shape : String
  rank : Option Nat
  bounds : Rect
  fontSize : Float32
  labelLines : List String
  subgraph : Option String
  fill : String
  border : String

structure EdgeDump where
  index : Nat
  source : String
  target : String
  style : String
  arrowhead : String
  points : List Point
  labelSegment : Segment
  label : Option EdgeLabel

structure SceneDump where
  direction : String
  width : Float32
  height : Float32
  nodes : List NodeDump
  /-- The nodes that the layout gave no place. -/
  unplaced : List String
  edges : List EdgeDump
  frames : List SubgraphFrame

def NodeGeometry.dump (g : Graph) (n : NodeGeometry) : NodeDump :=
  let source := g.node? n.id
  { id := n.id
    shape := (source.map fun m => m.shape.name).getD ""
    rank := source.bind Node.rank
    bounds := n.bounds
    fontSize := n.fontSize
    labelLines := n.labelLines
    subgraph := source.bind Node.subgraph
    fill := n.fill.toHex
    border := n.border.toHex }

def EdgeGeometry.dump? (g : Graph) (e : EdgeGeometry) : Option EdgeDump :=
  g.edges[e.index]?.map fun source => {
    index := e.index
    source := source.source
    target := source.target
    style := source.style.name
    arrowhead := source.arrowhead.name
    points := e.route.points
    labelSegment := e.labelSegment
    label := e.label }

def Scene.dump (s : Scene) (g : Graph) : SceneDump where
  direction := g.direction.name
  width := s.width
  height := s.height
  nodes := s.nodes.map (·.dump g)
  unplaced := (g.nodes.values.filter (!·.isPlaced)).map Node.id
  edges := s.edges.filterMap (·.dump? g)
  frames := s.frames

def NodeDump.toJson (n : NodeDump) : Json :=
  .object [("id", .string n.id), ("shape", .string n.shape), ("rank", ofOption ofNat n.rank),
    ("x", ofSingle n.bounds.x), ("y", ofSingle n.bounds.y), ("width", ofSingle n.bounds.width),
    ("height", ofSingle n.bounds.height), ("font_size", ofSingle n.fontSize),
    ("label_lines", ofTexts n.labelLines), ("subgraph", ofText? n.subgraph),
    ("fill", .string n.fill), ("border", .string n.border)]

def EdgeDump.toJson (e : EdgeDump) : Json :=
  .object [("index", ofNat e.index), ("from", .string e.source), ("to", .string e.target),
    ("style", .string e.style), ("arrowhead", .string e.arrowhead),
    ("points", .array (e.points.map Point.toPair)), ("label_segment", e.labelSegment.toJson),
    ("label", ofOption EdgeLabel.toJson e.label)]

def SceneDump.toJson (d : SceneDump) : Json :=
  .object [("direction", .string d.direction), ("width", ofSingle d.width),
    ("height", ofSingle d.height), ("nodes", .array (d.nodes.map NodeDump.toJson)),
    ("unplaced", ofTexts d.unplaced), ("edges", .array (d.edges.map EdgeDump.toJson)),
    ("frames", .array (d.frames.map SubgraphFrame.toJson))]

def Scene.dumpText (s : Scene) (g : Graph) : String := (s.dump g).toJson.pretty

end Flowchart
