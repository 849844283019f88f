import Flowchart.Decimal.Text
import Flowchart.Scene.Basic
import Flowchart.Svg.Markup
import Flowchart.Theme

namespace Flowchart.Svg

open Single

def coordinate (x : Float32) : String := Decimal.fixedText 2 (.ofSingle x)

def coordinates (named : List (String × Float32)) : List (String × String) :=
  named.map fun (name, x) => (name, coordinate x)

def pair (between : String) (p : Point) : String := coordinate p.x ++ between ++ coordinate p.y

def paint (name : String) (c : Color) : List (String × String) :=
  if c.isOpaque then [(name, c.toHex)]
  else
    [(name, c.toHex),
      (name ++ "-opacity", Decimal.fixedText 3 (.ofSingle c.opacity))]

def leastCanvas : Float32 := 200.0

def labelRoom : Size := ⟨4.0, 2.0⟩

def rectangle (r : Rect) (more : List (String × String)) : Markup :=
  .leaf "rect"
    (coordinates [("x", r.x), ("y", r.y), ("width", r.width), ("height", r.height)] ++ more)

def line (s : Segment) (more : List (String × String)) : Markup :=
  .leaf "line"
    (coordinates [("x1", s.start.x), ("y1", s.start.y), ("x2", s.finish.x), ("y2", s.finish.y)] ++
      more)

def pathText (points : List Point) : String :=
  match points with
  | [] => ""
  | p :: rest => "M " ++ pair " " p ++ String.join (rest.map fun q => " L " ++ pair " " q)

def dashes : EdgeStyle → List (String × String)
  | .dashed => [("stroke-dasharray", "6 4")]
  | .dotted => [("stroke-dasharray", "2 3")]
  | _ => []

/-- The width at which a line is drawn: bold and thick ones have a least width. -/
def drawnWidth (style : EdgeStyle) (width : Float32) : Float32 :=
  match style with
  | .bold => larger width 2.0
  | .thick => larger width 3.5
  | _ => width

def textLines (anchor : Point) (lines : List String) (fontSize : Float32) (family fill : String) :
    Markup :=
  let lineHeight := fontSize * 1.2
  let first := -(ofCount (lines.length - 1)) * lineHeight / 2.0
  .element "text"
    (coordinates [("x", anchor.x), ("y", anchor.y)] ++
      [("text-anchor", "middle"), ("dominant-baseline", "central"), ("font-family", escape family),
        ("font-size", coordinate fontSize), ("fill", escape fill)])
    (lines.mapIdx fun i text =>
      .element "tspan"
        (coordinates [("x", anchor.x), ("dy", if i = 0 then first else lineHeight)])
        [.text (escape text)])

def frame (t : Theme) (f : SubgraphFrame) : List Markup :=
  let box := rectangle f.bounds
    ([("fill", escape t.clusterBackground), ("stroke", escape t.clusterBorder),
      ("stroke-width", "1")] ++
      if f.dashed then [("stroke-dasharray", "6 4")] else [])
  if f.label.isEmpty then [box]
  else
    [box,
      .element "text"
        (coordinates [("x", f.labelAnchor.x), ("y", f.labelAnchor.y)] ++
          [("font-family", escape t.fontFamily), ("font-size", coordinate (t.fontSize * 0.75)),
            ("fill", escape t.primaryTextColor), ("dominant-baseline", "hanging")])
        [.text (escape f.label)]]

def arrow (glyph : ArrowGlyph) (color : Color) (width : Float32) : List Markup :=
  let stroke := paint "stroke" color ++ [("stroke-width", coordinate width)]
  match glyph with
  | .chevron tip left right filled =>
    [.leaf "path"
      (("d", pathText [left, tip, right] ++ if filled then " Z" else "") ::
        (if filled then paint "fill" color else [("fill", "none")]) ++ stroke)]
  | .circle center radius =>
    [.leaf "circle"
      (coordinates [("cx", center.x), ("cy", center.y), ("r", radius)] ++
        ("fill", "none") :: stroke)]
  | .cross first second => [line first stroke, line second stroke]

def edgeLabel (t : Theme) (l : EdgeLabel) : List Markup :=
  let box : Rect :=
    ⟨l.anchor.x - l.width / 2.0 - labelRoom.width, l.anchor.y - l.height / 2.0 - labelRoom.height,
      l.width + 2.0 * labelRoom.width, l.height + 2.0 * labelRoom.height⟩
  [rectangle box [("fill", escape t.edgeLabelBackground)],
    textLines l.anchor l.lines l.fontSize t.fontFamily t.primaryTextColor]

def edge (t : Theme) (e : EdgeGeometry) : List Markup :=
  let width := drawnWidth e.style e.strokeWidth
  let stroke :=
    paint "stroke" e.color ++ ("stroke-width", coordinate width) :: dashes e.style
  [.leaf "path" ([("d", pathText e.route.points), ("fill", "none")] ++ stroke)] ++
    (if e.isExtended then [line e.labelSegment stroke] else []) ++
    (e.arrow.map fun glyph => arrow glyph e.color width).getD [] ++
    (e.label.map (edgeLabel t)).getD []

def outline (style : List (String × String)) : Outline → List Markup
  | .rect bounds => [rectangle bounds style]
  | .roundedRect bounds radius | .stadium bounds radius =>
    [rectangle bounds (coordinates [("rx", radius), ("ry", radius)] ++ style)]
  | .polygon points =>
    [.leaf "polygon" (("points", " ".intercalate (points.map (pair ","))) :: style)]
  | .ellipse center rx ry =>
    [.leaf "ellipse"
      (coordinates [("cx", center.x), ("cy", center.y), ("rx", rx), ("ry", ry)] ++ style)]
  | .doubleRect outer inner => [rectangle outer style, rectangle inner style]

def node (t : Theme) (n : NodeGeometry) : List Markup :=
  outline
      (paint "fill" n.fill ++ paint "stroke" n.border ++
        [("stroke-width", coordinate n.borderWidth)])
      n.outline ++
    [textLines n.labelAnchor n.labelLines n.fontSize t.fontFamily n.textColor.toHex]

def document (s : Scene) (t : Theme) : Markup :=
  let width := coordinate (larger s.width leastCanvas)
  let height := coordinate (larger s.height leastCanvas)
  .element "svg"
    [("xmlns", "http://www.w3.org/2000/svg"), ("width", width), ("height", height),
      ("viewBox", "0 0 " ++ width ++ " " ++ height)]
    (.leaf "rect" [("width", "100%"), ("height", "100%"), ("fill", escape t.background)] ::
      (s.frames.flatMap (frame t) ++ s.edges.flatMap (edge t) ++ s.nodes.flatMap (node t)))

def render (s : Scene) (t : Theme) : String := (document s t).write

end Flowchart.Svg
