import Flowchart.Decimal.Binary

/-! A decimal reads back as `x` when it lies between the midpoints that part `x` from its two
neighbours; the midpoints themselves count when the significand of `x` is even. If any multiple of a
power of ten reads back, then so does one of the two around the value. -/
namespace Flowchart.Decimal

structure Digits where
  digits : Nat
  exponent : Int
  deriving DecidableEq, Repr

def digitCount (n : Nat) : Nat := (Nat.toDigits 10 n).length

/-- The exponent of the first digit of the value `num / den`, for a positive value. -/
def leadExponent (num den : Nat) : Int :=
  if den ≤ num then (digitCount (num / den) : Int) - 1
  else -(digitCount ((den + num - 1) / num - 1) : Int)

def powerParts (base : Nat) (e : Int) : Nat × Nat := (.pow base e.toNat, .pow base (-e).toNat)

/--
The multiple of `10 ^ grid` that stands for `significand * 2 ^ exponent`: of the two multiples
around the value the one that reads back, the nearer if both do, an even one if both are as near.
-/
def onGrid? (significand : Nat) (exponent : Int) (narrowBelow : Bool) (grid : Int) : Option Nat :=
  let (up2, down2) := powerParts 2 exponent
  let (up10, down10) := powerParts 10 grid
  -- The value in units of the grid is `num / den`; the interval is given in quarters of the
  -- last binary digit.
  let unit := up2 * down10
  let num := significand * unit
  let den := down2 * up10
  let low := 4 * num - (if narrowBelow then unit else 2 * unit)
  let high := 4 * num + 2 * unit
  let closed := significand % 2 = 0
  let readsBack (n : Nat) : Bool :=
    let point := 4 * n * den
    if closed then low ≤ point && point ≤ high else low < point && point < high
  let below := num / den
  let rest := num % den
  match readsBack below, readsBack (below + 1) with
  | true, true =>
    if 2 * rest < den then some below
    else if den < 2 * rest then some (below + 1)
    else if below % 2 = 0 then some below else some (below + 1)
  | true, false => some below
  | false, true => some (below + 1)
  | false, false => none

def searchGrids (significand : Nat) (exponent : Int) (narrowBelow : Bool) :
    (steps : Nat) → (grid : Int) → Digits
  | 0, grid => ⟨0, grid⟩
  | steps + 1, grid =>
    match onGrid? significand exponent narrowBelow grid with
    | some n => ⟨n, grid⟩
    | none => searchGrids significand exponent narrowBelow steps (grid - 1)

def Digits.stripZeros : Nat → Digits → Digits
  | 0, d => d
  | n + 1, d =>
    if d.digits ≠ 0 ∧ d.digits % 10 = 0 then stripZeros n ⟨d.digits / 10, d.exponent + 1⟩
    else d

/-- The shortest decimal for a positive value; twenty digits are always enough. -/
def shortest (significand : Nat) (exponent : Int) (narrowBelow : Bool) : Digits :=
  let (up, down) := powerParts 2 exponent
  let lead := leadExponent (significand * up) down
  let found := searchGrids significand exponent narrowBelow 20 lead
  found.stripZeros 20

end Flowchart.Decimal
