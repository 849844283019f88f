/-! Coordinates are singles, and a drawing is only the same if its sums and products are made in the
same order; so the formulas of this library are not to be rearranged. -/
namespace Flowchart.Single

/-- The larger of two singles. What is no number loses, and of two equal ones the second is
taken. -/
def larger (x y : Float32) : Float32 := if x.isNaN || x ≤ y then y else x

def smaller (x y : Float32) : Float32 := if x.isNaN || y ≤ x then y else x

def ofCount (n : Nat) : Float32 := Float32.ofNat n

def epsilon : Float32 := Float32.ofBits 0x34000000

end Flowchart.Single
