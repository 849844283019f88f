import Flowchart.Graph.Json
import Flowchart.Scene.Resolve

namespace Flowchart

open Json (ofSingle ofNat ofTexts ofOption)

def tagged (kind : String) (members : List (String × Json)) : Json :=
  .object (("kind", .string kind) :: members)

def Outline.toJson : Outline → Json
  | .rect bounds => tagged "rect" [("bounds", bounds.toJson)]
  | .roundedRect bounds radius =>
    tagged "rounded_rect" [("bounds", bounds.toJson), ("radius", ofSingle radius)]
  | .polygon points => tagged "polygon" [("points", .array (points.map Point.toJson))]
  | .ellipse center rx ry =>
    tagged "ellipse" [("center", center.toJson), ("rx", ofSingle rx), ("ry", ofSingle ry)]
  | .stadium bounds radius =>
    tagged "stadium" [("bounds", bounds.toJson), ("radius", ofSingle radius)]
  | .doubleRect outer inner =>
    tagged "double_rect" [("outer", outer.toJson), ("inner", inner.toJson)]

def ArrowGlyph.toJson : ArrowGlyph → Json
  | .chevron tip left right filled =>
    tagged "chevron" [("tip", tip.toJson), ("left", left.toJson), ("right", right.toJson),
      ("filled", .bool filled)]
  | .circle center radius =>
    tagged "circle" [("center", center.toJson), ("radius", ofSingle radius)]
  | .cross first second => tagged "cross" [("strokes", .array [first.toJson, second.toJson])]

def EdgeLabel.toJson (l : EdgeLabel) : Json :=
  .object [("text", .string l.text), ("lines", ofTexts l.lines), ("anchor", l.anchor.toJson),
    ("width", ofSingle l.width), ("height", ofSingle l.height), ("font_size", ofSingle l.fontSize)]

def NodeGeometry.toJson (n : NodeGeometry) : Json :=
  .object [("id", .string n.id), ("bounds", n.bounds.toJson), ("outline", n.outline.toJson),
    ("label", .string n.label), ("label_lines", ofTexts n.labelLines),
    ("label_anchor", n.labelAnchor.toJson), ("font_size", ofSingle n.fontSize),
    ("fill", n.fill.toJson), ("border", n.border.toJson), ("border_width", ofSingle n.borderWidth),
    ("text_color", n.textColor.toJson)]

def EdgeGeometry.toJson (e : EdgeGeometry) : Json :=
  .object [("index", ofNat e.index), ("from", .string e.source), ("to", .string e.target),
    ("points", .array (e.route.points.map Point.toJson)), ("label_segment", e.labelSegment.toJson),
    ("label", ofOption EdgeLabel.toJson e.label), ("arrow", ofOption ArrowGlyph.toJson e.arrow),
    ("color", e.color.toJson), ("stroke_width", ofSingle e.strokeWidth),
    ("style", .string e.style.name)]

def SubgraphFrame.toJson (f : SubgraphFrame) : Json :=
  .object [("label", .string f.label), ("bounds", f.bounds.toJson),
    ("label_anchor", f.labelAnchor.toJson), ("dashed", .bool f.dashed),
    ("members", ofTexts f.members)]

def Scene.toJson (s : Scene) : Json :=
  .object [("width", ofSingle s.width), ("height", ofSingle s.height),
    ("nodes", .array (s.nodes.map NodeGeometry.toJson)),
    ("edges", .array (s.edges.map EdgeGeometry.toJson)),
    ("frames", .array (s.frames.map SubgraphFrame.toJson))]

end Flowchart
