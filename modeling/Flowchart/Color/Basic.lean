import Flowchart.Text.Blank

namespace Flowchart

/-- A colour in four channels; 255 in the last one is opaque. -/
structure Color where
  r : UInt8
  g : UInt8
  b : UInt8
  a : UInt8
  deriving DecidableEq, Repr

namespace Color

def rgb (r g b : UInt8) : Color := ⟨r, g, b, 255⟩

def black : Color := rgb 0 0 0

def isOpaque (c : Color) : Bool := c.a == 255

def opacity (c : Color) : Float32 := c.a.toFloat32 / 255.0

def hexDigit (n : Nat) : Char := Nat.digitChar n

def channelText (n : UInt8) : List Char := [hexDigit (n.toNat / 16), hexDigit (n.toNat % 16)]

def toHex (c : Color) : String :=
  String.ofList ('#' :: channelText c.r ++ channelText c.g ++ channelText c.b)

/-- The six digits of an opaque colour; otherwise eight, the two of the opacity first. -/
def toText (c : Color) : String :=
  if c.isOpaque then c.toHex
  else
    String.ofList
      ('#' :: channelText c.a ++ channelText c.r ++ channelText c.g ++ channelText c.b)

end Color
end Flowchart
