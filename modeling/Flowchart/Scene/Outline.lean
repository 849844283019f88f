import Flowchart.Config.Basic
import Flowchart.Label
import Flowchart.Scene.Basic

namespace Flowchart

open Single

/-- Cosine and sine of the corners of a hexagon, at steps of sixty degrees from the right, as they
come out in single precision from angles that are themselves singles. -/
def hexagonDirections : List Point := [
  ⟨1.0, 0.0⟩,
  ⟨0.49999997, 0.86602545⟩,
  ⟨-0.50000006, 0.8660254⟩,
  ⟨-1.0, -8.742278e-8⟩,
  ⟨-0.4999999, -0.86602545⟩,
  ⟨0.4999999, -0.86602545⟩]

def hexagonPoints (bounds : Rect) : List Point :=
  let center := bounds.center
  let rx := bounds.width / 2.0
  let ry := bounds.height / 2.0
  hexagonDirections.map fun d => ⟨center.x + rx * d.x, center.y + ry * d.y⟩

def diamondPoints (bounds : Rect) : List Point :=
  let center := bounds.center
  [⟨center.x, bounds.y⟩, ⟨bounds.right, center.y⟩, ⟨center.x, bounds.bottom⟩, ⟨bounds.x, center.y⟩]

def NodeShape.outline (shape : NodeShape) (bounds : Rect) (c : LayoutConfig) : Outline :=
  match shape with
  | rectangle => .rect bounds
  | roundRect =>
    .roundedRect bounds
      (smaller (smaller c.flowchart.cornerRadius (bounds.width / 2.0)) (bounds.height / 2.0))
  | diamond => .polygon (diamondPoints bounds)
  | circle => .ellipse bounds.center (bounds.width / 2.0) (bounds.height / 2.0)
  | stadium => .stadium bounds (smaller bounds.width bounds.height / 2.0)
  | doubleRect => .doubleRect bounds (bounds.inset c.flowchart.doubleRectInset)
  | hexagon => .polygon (hexagonPoints bounds)

def Node.draw (n : Node) (bounds : Rect) (outline : Outline) (c : LayoutConfig) : NodeGeometry where
  id := n.id
  bounds := bounds
  outline := outline
  label := n.label
  labelLines := Label.lines n.label
  labelAnchor := bounds.center
  fontSize :=
    Label.fitFontSize n.label (bounds.width - c.flowchart.nodeTextPadding) c.flowchart.nodeFontMin
      c.flowchart.nodeFontMax
  fill := n.fill
  border := n.border
  borderWidth := n.borderWidth
  textColor := n.textColor

def Node.resolve (n : Node) (c : LayoutConfig) : Except GeometryError NodeGeometry :=
  match n.bounds with
  | none => .error (.nodeNotPlaced n.id)
  | some bounds =>
    if !bounds.isFinite || bounds.width ≤ 0.0 || bounds.height ≤ 0.0 then
      .error (.degenerateBounds n.id bounds.width bounds.height)
    else .ok (n.draw bounds (n.shape.outline bounds c) c)

/-- A placed node as a plain rectangle without negative sides, when its rectangle is finite. -/
def Node.resolvePlain? (n : Node) (c : LayoutConfig) : Option NodeGeometry :=
  match n.bounds with
  | none => none
  | some bounds =>
    if bounds.isFinite then
      let plain : Rect := ⟨bounds.x, bounds.y, larger bounds.width 0.0, larger bounds.height 0.0⟩
      some (n.draw plain (.rect plain) c)
    else none

/-- A node as it is drawn: in its shape, else as a plain rectangle, else not at all. -/
def Node.drawn? (n : Node) (c : LayoutConfig) : Option NodeGeometry :=
  match n.resolve c with
  | .ok drawn => some drawn
  | .error _ => n.resolvePlain? c

end Flowchart
