import Flowchart.Decimal.Shortest

namespace Flowchart.Decimal

def withSign (negative : Bool) (text : String) : String := if negative then "-" ++ text else text

def zeros (n : Nat) : String := String.ofList (List.replicate n '0')

def digitText (n : Nat) : String := String.ofList (Nat.toDigits 10 n)

def pointAfter (digits : List Char) (count : Int) : String × String :=
  if count ≤ 0 then ("0", zeros (-count).toNat ++ String.ofList digits)
  else
    let n := count.toNat
    (String.ofList (digits.take n) ++ zeros (n - digits.length), String.ofList (digits.drop n))

/--
The range of first-digit exponents for which a JSON number is written without an exponent. Singles
and doubles differ in it.
-/
structure PlainRange where
  least : Int
  greatest : Int

/-- Singles are written plainly from a millionth up to ten million millions. -/
def PlainRange.single : PlainRange := ⟨-6, 12⟩

/-- Doubles are written plainly from a hundred-thousandth up to 10 to the 16. -/
def PlainRange.double : PlainRange := ⟨-5, 15⟩

/--
The JSON form of a number: the shortest digits; in the plain range with a point and at least one
digit on either side of it, elsewhere with a signed exponent and a point only between digits. What
is not a finite number is `null`.
-/
def jsonText (range : PlainRange) : Binary → String
  | .nan | .infinite _ => "null"
  | .finite negative 0 _ _ => withSign negative "0.0"
  | .finite negative significand exponent narrowBelow =>
    let d := shortest significand exponent narrowBelow
    let digits := Nat.toDigits 10 d.digits
    let first := d.exponent + digits.length - 1
    withSign negative <|
      if range.least ≤ first ∧ first ≤ range.greatest then
        let (whole, fraction) := pointAfter digits (first + 1)
        whole ++ "." ++ (if fraction.isEmpty then "0" else fraction)
      else
        let mantissa := match digits with
          | [] => ""
          | [c] => c.toString
          | c :: r => c.toString ++ "." ++ String.ofList r
        mantissa ++ "e" ++ (if first < 0 then "-" else "+") ++ digitText first.natAbs

/-- The form of a number in a message: the shortest digits, never an exponent, a point only before
digits. -/
def plainText : Binary → String
  | .nan => "NaN"
  | .infinite negative => withSign negative "inf"
  | .finite negative 0 _ _ => withSign negative "0"
  | .finite negative significand exponent narrowBelow =>
    let d := shortest significand exponent narrowBelow
    let digits := Nat.toDigits 10 d.digits
    let (whole, fraction) := pointAfter digits (d.exponent + digits.length)
    withSign negative (if fraction.isEmpty then whole else whole ++ "." ++ fraction)

/-- The whole number nearest to `num / den`; a half goes to the even neighbour. -/
def roundHalfEven (num den : Nat) : Nat :=
  let below := num / den
  let rest := num % den
  if 2 * rest < den then below
  else if den < 2 * rest then below + 1
  else if below % 2 = 0 then below else below + 1

def fixedText (places : Nat) : Binary → String
  | .nan => "NaN"
  | .infinite negative => withSign negative "inf"
  | .finite negative significand exponent _ =>
    let (up, down) := powerParts 2 exponent
    let scaled := roundHalfEven (significand * up * .pow 10 places) down
    let fraction := Nat.toDigits 10 (scaled % .pow 10 places)
    withSign negative <|
      digitText (scaled / .pow 10 places) ++ "." ++
        zeros (places - fraction.length) ++ String.ofList fraction

end Flowchart.Decimal
