import Flowchart.Json.Raw

namespace Flowchart.Json

/-- The digits of a whole number taken into 64 bits as long as they fit: the value, and how many
digits were left out. -/
def takeWhole (value : Nat) : List Char → Nat × Nat
  | [] => (value, 0)
  | c :: r =>
    let next := 10 * value + (c.toNat - '0'.toNat)
    if next < 0x10000000000000000 then takeWhole next r else (value, r.length + 1)

def takeFraction (value : Nat) : List Char → Nat × Nat
  | [] => (value, 0)
  | c :: r =>
    let next := 10 * value + (c.toNat - '0'.toNat)
    if next < 0x10000000000000000 then
      let (total, taken) := takeFraction next r
      (total, taken + 1)
    else (value, 0)

def tenTo (n : Nat) : Float := Float.ofScientific 1 false n

/-- A double divided by a power of ten, in steps of at most 308 digits. -/
def shrink (x : Float) (places : Nat) : Float :=
  if places ≤ 308 then x / tenTo places
  else if x == 0.0 then x
  else shrink (x / tenTo 308) (places - 308)
termination_by places
decreasing_by omega

/-- A significand scaled by a power of ten with one rounding for each of the two, `none` when the
result is out of range. -/
def scaled? (significand : Nat) (exponent : Int) : Option Float :=
  let x := Float.ofNat significand
  if exponent < 0 then some (shrink x (-exponent).toNat)
  else if exponent ≤ 308 then
    let y := x * tenTo exponent.toNat
    if y.isInf then none else some y
  else if significand = 0 then some x
  else none

def greatestExponent : Nat := 2147483647

/--
The value of a number, `none` when it is out of range. Without a fraction or an exponent it is whole
if it fits in 64 bits with its sign; a negative zero is never whole. All else is a double.
-/
def RawNumber.value? (n : RawNumber) : Option Number :=
  let (head, left) := takeWhole 0 n.whole
  let (significand, taken) := takeFraction head n.fraction
  let start : Int := left - taken
  let sign (x : Float) : Number := .double (if n.negative then -x else x)
  match n.exponent with
  | none =>
    if n.fraction.isEmpty ∧ left = 0 ∧ (n.negative → 0 < head ∧ head ≤ 0x8000000000000000) then
      some (.integer (if n.negative then -head else head))
    else (scaled? significand start).map sign
  | some (down, digits) =>
    let e := digits.foldl (fun n c => 10 * n + (c.toNat - '0'.toNat)) 0
    if greatestExponent < e then
      if significand ≠ 0 ∧ !down then none else some (sign 0.0)
    else (scaled? significand (if down then start - e else start + e)).map sign

/-- The characters of a written string, `none` when an escaped unit is half of a pair and the other
half does not follow. `paired` gives the character of a high and a low unit. -/
def plainText? (paired : Nat → Nat → Char) : List RawChar → Option (List Char)
  | [] => some []
  | .char c :: r => (plainText? paired r).map (c :: ·)
  | .unit n :: r =>
    if 0xDC00 ≤ n ∧ n < 0xE000 then none
    else if 0xD800 ≤ n ∧ n < 0xDC00 then
      match r with
      | .unit m :: r =>
        if 0xDC00 ≤ m ∧ m < 0xE000 then (plainText? paired r).map (paired n m :: ·) else none
      | _ => none
    else (plainText? paired r).map (Char.ofNat n :: ·)

def pairedChar (high low : Nat) : Char :=
  Char.ofNat (0x10000 + (high - 0xD800) * 0x400 + (low - 0xDC00))

def textOf? (text : List RawChar) : Option String := (plainText? pairedChar text).map String.ofList

inductive Shape where
  | any
  | record (fields : List (String × Shape))

def Shape.place (i : Nat) : Shape → Shape
  | .any => .any
  | .record fields => (fields[i]?.map (·.2)).getD .any

mutual

def Raw.value? (shape : Shape) (depth : Nat) : Raw → Option Json
  | .null => some .null
  | .bool b => some (.bool b)
  | .number n => n.value?.map .number
  | .string text => (textOf? text).map .string
  | .array items =>
    match depth with
    | 0 => none
    | depth + 1 => (itemValues? shape depth 0 items).map .array
  | .object members =>
    match depth with
    | 0 => none
    | depth + 1 => (memberValues? shape depth [] members).map ofMembers

def itemValues? (shape : Shape) (depth i : Nat) : List Raw → Option (List Json)
  | [] => some []
  | v :: rest => do
    let v ← v.value? (shape.place i) depth
    let rest ← itemValues? shape depth (i + 1) rest
    pure (v :: rest)

def memberValues? (shape : Shape) (depth : Nat) (seen : List String) :
    List (List RawChar × Raw) → Option (List (String × Json))
  | [] => some []
  | (name, v) :: rest => do
    let name ← textOf? name
    match shape with
    | .any =>
      let v ← v.value? .any depth
      let rest ← memberValues? shape depth seen rest
      pure ((name, v) :: rest)
    | .record fields =>
      match fields.lookup name with
      | none => memberValues? shape depth seen rest
      | some inner =>
        if seen.contains name then none
        else
          let v ← v.value? inner depth
          let rest ← memberValues? shape depth (name :: seen) rest
          pure ((name, v) :: rest)

end

def deepest : Nat := 127

def readShaped? (shape : Shape) (s : List Char) : Option Json :=
  (Raw.read? s).bind (Raw.value? shape deepest)

def read? (s : List Char) : Option Json := readShaped? .any s

end Flowchart.Json
