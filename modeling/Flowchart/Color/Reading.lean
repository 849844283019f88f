import Flowchart.Color.Names
import Flowchart.Text.Hex

namespace Flowchart.Color

inductive ReadError where
  | badHex (text : String)
  | unknownName (text : String)
  | empty
  deriving DecidableEq, Repr

def ReadError.message : ReadError → String
  | .badHex text => "invalid hex color literal `" ++ text ++ "`"
  | .unknownName text => "unknown color name `" ++ text ++ "`"
  | .empty => "empty color value"

def channel (high low : Nat) : UInt8 := UInt8.ofNat (16 * high + low)

/-- The colour of hexadecimal digits: one digit a channel, which counts twice, or two; of eight
digits the first two are the opacity. -/
def ofHex? (digits : List Char) : Option Color := do
  let values ← digits.mapM Text.hexValue?
  match values with
  | [r, g, b] => some (.rgb (channel r r) (channel g g) (channel b b))
  | [r, r', g, g', b, b'] => some (.rgb (channel r r') (channel g g') (channel b b'))
  | [a, a', r, r', g, g', b, b'] =>
    some ⟨channel r r', channel g g', channel b b', channel a a'⟩
  | _ => none

def read (text : List Char) : Except ReadError Color :=
  match Text.trim text with
  | [] => .error .empty
  | '#' :: digits =>
    match ofHex? digits with
    | some c => .ok c
    | none => .error (.badHex (String.ofList ('#' :: digits)))
  | name =>
    match named? (String.ofList (Text.lower name)) with
    | some c => .ok c
    | none => .error (.unknownName (String.ofList name))

def readOrBlack (text : String) : Color :=
  match read text.toList with
  | .ok c => c
  | .error _ => black

end Flowchart.Color
