import Flowchart.Color.Reading
import Flowchart.Decimal.Reading
import Flowchart.Graph.Basic
import Flowchart.Text.Pieces

namespace Flowchart.Source

/-- Properties by name, the names in small letters, in order of declaration. -/
abbrev Properties := Table String String

def readProperty? (part : List Char) : Option (String × String) :=
  match Text.cutAt? (· == ':') part with
  | none => none
  | some (name, value) =>
    let name := Text.trim name
    let value := Text.trim value
    if name.isEmpty ∨ value.isEmpty then none
    else some (String.ofList (Text.lower name), String.ofList value)

/-- The properties between commas; what is no property is left out, and the last value of a name
counts. -/
def readProperties (s : List Char) : Properties :=
  ((Text.pieces (· == ',') s).filterMap readProperty?).foldl (fun t (name, value) =>
    t.insert name value) .empty

/-- A finite length that is not negative, perhaps with `px` after it. -/
def readLength? (value : String) : Option Float32 :=
  let digits := Text.trim (Text.withoutPixels (Text.trim value.toList))
  (Decimal.readSingle? digits).filter fun width => width.isFinite && 0.0 ≤ width

def styleNode (n : Node) : String × String → Node
  | ("fill", value) => { n with fill := Color.readOrBlack value }
  | ("stroke", value) => { n with border := Color.readOrBlack value }
  | ("stroke-width", value) => { n with borderWidth := (readLength? value).getD n.borderWidth }
  | ("color", value) => { n with textColor := Color.readOrBlack value }
  | _ => n

def styleNodeAll (n : Node) (ps : Properties) : Node := ps.entries.foldl styleNode n

/-- The line style that a width gives to a solid line; other lines keep their style. -/
def EdgeStyle.atWidth (style : EdgeStyle) (width : Float32) : EdgeStyle :=
  if style = .solid then
    if 4.0 ≤ width then .thick else if 2.0 ≤ width then .bold else .solid
  else style

def isDashed (value : String) : Bool :=
  let pattern := Text.trim value.toList
  !pattern.isEmpty && pattern != ['0'] && pattern != ['n', 'o', 'n', 'e']

def styleEdge (e : Edge) : String × String → Edge
  | ("stroke", value) => { e with color := Color.readOrBlack value }
  | ("stroke-width", value) =>
    match readLength? value with
    | some width => { e with strokeWidth := width, style := EdgeStyle.atWidth e.style width }
    | none => e
  | ("stroke-dasharray", value) => if isDashed value then { e with style := .dashed } else e
  | _ => e

def styleEdgeAll (e : Edge) (ps : Properties) : Edge := ps.entries.foldl styleEdge e

end Flowchart.Source
