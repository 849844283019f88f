import Flowchart.Color.Basic
import Flowchart.Graph.Table
import Flowchart.Plane
import Flowchart.Text.Blank

namespace Flowchart

inductive Direction where
  | topDown
  | leftRight
  deriving DecidableEq, Repr

namespace Direction

/-- `LR` means left to right; every other token means top to bottom. -/
def ofToken (token : List Char) : Direction :=
  if Text.trim token = ['L', 'R'] then leftRight else topDown

def isHorizontal : Direction → Bool
  | topDown => false
  | leftRight => true

def name : Direction → String
  | topDown => "TopDown"
  | leftRight => "LeftRight"

end Direction

inductive NodeShape where
  | rectangle
  | roundRect
  | diamond
  | circle
  | stadium
  | doubleRect
  | hexagon
  deriving DecidableEq, Repr

namespace NodeShape

def all : List NodeShape :=
  [rectangle, roundRect, diamond, circle, stadium, doubleRect, hexagon]

def name : NodeShape → String
  | rectangle => "Rectangle"
  | roundRect => "RoundRect"
  | diamond => "Diamond"
  | circle => "Circle"
  | stadium => "Stadium"
  | doubleRect => "DoubleRect"
  | hexagon => "Hexagon"

end NodeShape

inductive EdgeStyle where
  | solid
  | dashed
  | dotted
  | bold
  | thick
  deriving DecidableEq, Repr

namespace EdgeStyle

def all : List EdgeStyle := [solid, dashed, dotted, bold, thick]

def name : EdgeStyle → String
  | solid => "Solid"
  | dashed => "Dashed"
  | dotted => "Dotted"
  | bold => "Bold"
  | thick => "Thick"

end EdgeStyle

inductive Arrowhead where
  | bare
  | arrow
  | openArrow
  | cross
  | circle
  deriving DecidableEq, Repr

namespace Arrowhead

def all : List Arrowhead := [bare, arrow, openArrow, cross, circle]

def name : Arrowhead → String
  | bare => "None"
  | arrow => "Arrow"
  | openArrow => "Open"
  | cross => "Cross"
  | circle => "Circle"

end Arrowhead

inductive PortSide where
  | left
  | right
  | top
  | bottom
  deriving DecidableEq, Repr

namespace PortSide

def all : List PortSide := [left, right, top, bottom]

def name : PortSide → String
  | left => "Left"
  | right => "Right"
  | top => "Top"
  | bottom => "Bottom"

end PortSide

/-- A node. It has a position, its top left corner, and a rank, its layer, only when it is
placed. -/
structure Node where
  id : String
  label : String
  shape : NodeShape
  position : Option Point
  rank : Option Nat
  size : Size
  fill : Color
  border : Color
  borderWidth : Float32
  textColor : Color
  subgraph : Option String

namespace Node

def defaultSize : Size := ⟨120.0, 48.0⟩

def new (id label : String) (shape : NodeShape) (subgraph : Option String) : Node where
  id := id
  label := label
  shape := shape
  position := none
  rank := none
  size := defaultSize
  fill := .rgb 0xEC 0xEC 0xFF
  border := .rgb 0x93 0x70 0xDB
  borderWidth := 1.0
  textColor := .rgb 0x33 0x33 0x33
  subgraph := subgraph

def bounds (n : Node) : Option Rect := n.position.map fun p => .ofCorner p n.size

def isPlaced (n : Node) : Bool := n.position.isSome

theorem isSome_bounds (n : Node) : n.bounds.isSome = n.isPlaced := Option.isSome_map

end Node

/-- An edge. Its ports are the sides it leaves and enters by, and the offsets say how far from the
middle of a side. -/
structure Edge where
  source : String
  target : String
  label : Option String
  color : Color
  strokeWidth : Float32
  style : EdgeStyle
  arrowhead : Arrowhead
  exitPort : Option PortSide
  entryPort : Option PortSide
  exitOffset : Point
  entryOffset : Point
  deriving DecidableEq

namespace Edge

def new (source target : String) (label : Option String) (style : EdgeStyle)
    (arrowhead : Arrowhead) : Edge where
  source := source
  target := target
  label := label
  color := .rgb 0x33 0x33 0x33
  strokeWidth := 1.4
  style := style
  arrowhead := arrowhead
  exitPort := none
  entryPort := none
  exitOffset := .zero
  entryOffset := .zero

def clearPorts (e : Edge) : Edge :=
  { e with exitPort := none, entryPort := none, exitOffset := .zero, entryOffset := .zero }

end Edge

structure Graph where
  direction : Direction := .topDown
  nodes : Table String Node := .empty
  edges : List Edge := []

namespace Graph

/-- The graph with a node for an identifier. A node that is there is left as it is: the first
reference decides text, shape and subgraph. -/
def ensureNode (g : Graph) (id : String) (label : Option String) (shape : Option NodeShape)
    (subgraph : Option String) : Graph :=
  { g with
    nodes := g.nodes.insertNew id (.new id (label.getD id) (shape.getD .rectangle) subgraph) }

def node? (g : Graph) (id : String) : Option Node := g.nodes.find? id

def isEmpty (g : Graph) : Bool := g.nodes.entries.isEmpty && g.edges.isEmpty

def placedNodes (g : Graph) : List Node := g.nodes.values.filter Node.isPlaced

def subgraphLabels (g : Graph) : List String :=
  g.nodes.values.foldl (fun labels n =>
    match n.subgraph with
    | some label => if labels.contains label then labels else labels ++ [label]
    | none => labels) []

def endpoints? (g : Graph) (e : Edge) : Option (Nat × Nat) := do
  let source ← g.nodes.place? e.source
  let target ← g.nodes.place? e.target
  pure (source, target)

end Graph
end Flowchart
