import Flowchart.Decimal.Binary
import Flowchart.Text.Blank

namespace Flowchart.Decimal

def digitsValue (before : Nat) (digits : List Char) : Nat :=
  digits.foldl (fun n c => 10 * n + (c.toNat - '0'.toNat)) before

def takeSign : List Char → Bool × List Char
  | '-' :: r => (true, r)
  | '+' :: r => (false, r)
  | s => (false, s)

def takeDigits (s : List Char) : List Char × List Char :=
  (s.takeWhile Char.isDigit, s.dropWhile Char.isDigit)

def readExponent? : List Char → Option Int
  | [] => some 0
  | c :: r =>
    if c = 'e' ∨ c = 'E' then
      let (negative, digits) := takeSign r
      if digits.isEmpty ∨ !digits.all Char.isDigit then none
      else
        let n : Int := digitsValue 0 digits
        some (if negative then -n else n)
    else none

/-- A decimal without a sign, as its digits and the power of ten they are multiplied by: digits with
at most one point among them and at least one digit, then an optional exponent. -/
def readDecimal? (s : List Char) : Option (Nat × Int) := do
  let (whole, r) := takeDigits s
  let (fraction, r) := match r with
    | '.' :: r => takeDigits r
    | _ => ([], r)
  if whole.isEmpty ∧ fraction.isEmpty then none
  let exponent ← readExponent? r
  pure (digitsValue (digitsValue 0 whole) fraction, exponent - fraction.length)

def singleOfDecimal (m : Nat) (e : Int) : Float32 :=
  if 0 ≤ e then Float32.ofScientific m false e.toNat else Float32.ofScientific m true (-e).toNat

def doubleOfDecimal (m : Nat) (e : Int) : Float :=
  if 0 ≤ e then Float.ofScientific m false e.toNat else Float.ofScientific m true (-e).toNat

/-- The single that a text names: an optional sign, then a decimal or, in any case of letters,
`inf`, `infinity` or `nan`. -/
def readSingle? (s : List Char) : Option Float32 :=
  let (negative, r) := takeSign s
  let name := Text.lower r
  if name = ['i', 'n', 'f'] ∨ name = ['i', 'n', 'f', 'i', 'n', 'i', 't', 'y'] then
    some (infiniteSingle negative)
  else if name = ['n', 'a', 'n'] then some nanSingle
  else (readDecimal? r).map fun (m, e) => signed negative (singleOfDecimal m e)

def readCount? (s : List Char) : Option Nat :=
  let digits := match s with
    | '+' :: r => r
    | r => r
  if digits.isEmpty ∨ !digits.all Char.isDigit then none else some (digitsValue 0 digits)

end Flowchart.Decimal
