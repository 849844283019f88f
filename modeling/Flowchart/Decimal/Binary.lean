namespace Flowchart.Decimal

/--
A floating-point number taken apart. A finite one is `significand * 2 ^ exponent`; `narrowBelow`
says that the next number towards zero is only half as far away as the next one outwards, as it is
just below a power of two.
-/
inductive Binary where
  | nan
  | infinite (negative : Bool)
  | finite (negative : Bool) (significand : Nat) (exponent : Int) (narrowBelow : Bool)

/--
Take apart the bits of a format with `fractionBits` stored bits of fraction and `exponentBits` bits
of exponent, where `bias` is the exponent of the unit of the smallest numbers, negated.
-/
def Binary.ofFields (fractionBits exponentBits bias bits : Nat) : Binary :=
  let fraction := bits % .pow 2 fractionBits
  let scale := bits / .pow 2 fractionBits % .pow 2 exponentBits
  let negative := bits / .pow 2 (fractionBits + exponentBits) % 2 = 1
  if scale = .pow 2 exponentBits - 1 then
    if fraction = 0 then .infinite negative else .nan
  else if scale = 0 then .finite negative fraction (-(bias : Int)) false
  else .finite negative (fraction + .pow 2 fractionBits) ((scale : Int) - 1 - bias)
    (fraction = 0 && 1 < scale)

def Binary.ofSingle (x : Float32) : Binary := .ofFields 23 8 149 x.toBits.toNat

def Binary.ofDouble (x : Float) : Binary := .ofFields 52 11 1074 x.toBits.toNat

def nanSingle : Float32 := Float32.ofBits 0x7FC00000

def infiniteSingle (negative : Bool) : Float32 :=
  Float32.ofBits (if negative then 0xFF800000 else 0x7F800000)

def signed (negative : Bool) (x : Float32) : Float32 := if negative then -x else x

/--
The single nearest to a value, half-way cases to the even neighbour; a value out of range becomes
infinite. A negative power of two is a power of five over a power of ten, so the value is a decimal.
-/
def Binary.toSingle : Binary → Float32
  | .nan => nanSingle
  | .infinite negative => infiniteSingle negative
  | .finite negative significand exponent _ =>
    signed negative <|
      if 0 ≤ exponent then Float32.ofScientific (significand * .pow 2 exponent.toNat) false 0
      else
        let places := (-exponent).toNat
        Float32.ofScientific (significand * .pow 5 places) true places

def singleOfDouble (x : Float) : Float32 := (Binary.ofDouble x).toSingle

def singleOfInt (n : Int) : Float32 :=
  signed (decide (n < 0)) (Float32.ofScientific n.natAbs false 0)

end Flowchart.Decimal
