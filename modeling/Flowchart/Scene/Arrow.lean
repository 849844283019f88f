import Flowchart.Scene.Basic

namespace Flowchart

/-- The cosine of half a right angle, as it comes out in single precision; its sine is the same. -/
def diagonal : Float32 := 0.70710677

def turnDiagonal (v : Point) (backwards : Bool) : Point :=
  let cos := diagonal
  let sin := if backwards then -diagonal else diagonal
  ⟨v.x * cos - v.y * sin, v.x * sin + v.y * cos⟩

/-- The head of an edge that comes from one point to its tip. A segment too short to have a
direction has the one given. -/
def Arrowhead.glyph (kind : Arrowhead) (origin tip : Point) (size : Float32) (otherwise : Point) :
    Option ArrowGlyph :=
  let dx := tip.x - origin.x
  let dy := tip.y - origin.y
  let length := (dx * dx + dy * dy).sqrt
  let along : Point := if 1e-6 < length then ⟨dx / length, dy / length⟩ else otherwise
  let half := size / 2.0
  let chevron (filled : Bool) : ArrowGlyph :=
    let base : Point := ⟨tip.x - along.x * size, tip.y - along.y * size⟩
    let across : Point := ⟨-along.y, along.x⟩
    .chevron tip ⟨base.x + across.x * half, base.y + across.y * half⟩
      ⟨base.x - across.x * half, base.y - across.y * half⟩ filled
  let center : Point := ⟨tip.x - along.x * half, tip.y - along.y * half⟩
  match kind with
  | .bare => none
  | .arrow => some (chevron true)
  | .openArrow => some (chevron false)
  | .circle => some (.circle center half)
  | .cross =>
    let stroke (v : Point) : Segment :=
      ⟨⟨center.x - v.x * half, center.y - v.y * half⟩,
        ⟨center.x + v.x * half, center.y + v.y * half⟩⟩
    some (.cross (stroke (turnDiagonal along false)) (stroke (turnDiagonal along true)))

end Flowchart
