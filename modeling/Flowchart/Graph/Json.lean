import Flowchart.Graph.Basic
import Flowchart.Json.Basic

namespace Flowchart

open Json (ofSingle ofNat ofText? ofOption)

def Point.toJson (p : Point) : Json := .object [("x", ofSingle p.x), ("y", ofSingle p.y)]

def Point.toPair (p : Point) : Json := .array [ofSingle p.x, ofSingle p.y]

def Size.toJson (s : Size) : Json :=
  .object [("width", ofSingle s.width), ("height", ofSingle s.height)]

def Rect.toJson (r : Rect) : Json :=
  .object [("x", ofSingle r.x), ("y", ofSingle r.y), ("width", ofSingle r.width),
    ("height", ofSingle r.height)]

def Segment.toJson (s : Segment) : Json :=
  .object [("start", s.start.toJson), ("end", s.finish.toJson)]

def Color.toJson (c : Color) : Json := .string c.toText

def PortSide.toJson (s : PortSide) : Json := .string s.name

def Node.toJson (n : Node) : Json :=
  .object [("id", .string n.id), ("label", .string n.label), ("shape", .string n.shape.name),
    ("position", ofOption Point.toJson n.position), ("rank", ofOption ofNat n.rank),
    ("size", n.size.toJson), ("fill", n.fill.toJson), ("border", n.border.toJson),
    ("border_width", ofSingle n.borderWidth), ("text_color", n.textColor.toJson),
    ("subgraph", ofText? n.subgraph)]

def Edge.portMembers (e : Edge) : List (String × Json) :=
  [("exit_port", ofOption PortSide.toJson e.exitPort),
    ("entry_port", ofOption PortSide.toJson e.entryPort),
    ("exit_offset", e.exitOffset.toJson), ("entry_offset", e.entryOffset.toJson)]

def Edge.toJson (e : Edge) : Json :=
  .object ([("from", .string e.source), ("to", .string e.target), ("label", ofText? e.label),
    ("color", e.color.toJson), ("stroke_width", ofSingle e.strokeWidth),
    ("style", .string e.style.name), ("arrowhead", .string e.arrowhead.name)] ++ e.portMembers)

def Graph.toJson (g : Graph) : Json :=
  .object [("direction", .string g.direction.name),
    ("nodes", .array (g.nodes.values.map Node.toJson)), ("edges", .array (g.edges.map Edge.toJson))]

def Graph.layoutJson (g : Graph) : Json :=
  .object [("direction", .string g.direction.name),
    ("nodes", .array (g.nodes.values.map fun n =>
      .object [("id", .string n.id), ("rank", ofOption ofNat n.rank),
        ("position", ofOption Point.toJson n.position), ("size", n.size.toJson)])),
    ("edges", .array (g.edges.map fun e =>
      .object ([("from", .string e.source), ("to", .string e.target)] ++ e.portMembers)))]

end Flowchart
