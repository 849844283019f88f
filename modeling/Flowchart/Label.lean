import Flowchart.Single
import Flowchart.Text.Pieces

namespace Flowchart.Label

def breakMarkers : List (List Char) := ["<br/>".toList, "<br>".toList, ['\\', 'n']]

def normalize (text : List Char) : List Char :=
  breakMarkers.foldl (fun s marker => Text.replaceAll marker ['\n'] s) text

def splitLines (text : List Char) : List (List Char) :=
  (Text.pieces (· == '\n') (normalize text)).map Text.trim

def lines (text : String) : List String := (splitLines text.toList).map String.ofList

def narrowMarks : List Char :=
  ['\\', '.', ',', ':', ';', '|', '!', '(', ')', '[', ']', '\x7b', '\x7d']

/-- The mean width of a character in parts of the font size. Everything beyond ASCII counts as
wide. -/
def charWidth (c : Char) : Float32 :=
  if c = ' ' then 0.306
  else if narrowMarks.contains c then 0.321
  else if c = 'I' ∨ c = 'i' ∨ c = 'j' ∨ c = 'l' then 0.25
  else if c = 'f' ∨ c = 't' ∨ c = 'r' then 0.34
  else if c = 'M' ∨ c = 'W' ∨ c = 'm' ∨ c = 'w' then 0.86
  else if c.isUpper then 0.66
  else if c.isLower then 0.56
  else if c.isDigit then 0.6
  else if c = '@' ∨ c = '#' ∨ c = '%' ∨ c = '&' then 0.946
  else if c.toNat < 0x80 then 0.568
  else 1.0

/-- The width of a line: the widths of its characters added from left to right. The sum of none is
the negative zero, to which a number may be added without a trace. -/
def lineWidth (line : String) (fontSize : Float32) : Float32 :=
  line.toList.foldl (fun sum c => sum + charWidth c) (-0.0) * fontSize

structure Block where
  lines : List String
  width : Float32
  height : Float32

def measure (text : String) (fontSize lineHeight : Float32) : Block :=
  let lines := lines text
  { lines := lines
    width := (lines.map (lineWidth · fontSize)).foldl Single.larger 0.0
    height := Single.ofCount lines.length * fontSize * lineHeight }

/-- The number moved between two limits. Only limits in this order have a meaning, and both must be
numbers; the lower one is the least font size, which is nine whatever settings say. -/
def clamp (x low high : Float32) : Float32 :=
  let x := if x < low then low else x
  if high < x then high else x

def averageWidth : Float32 := 0.56

def longest (lines : List String) : Nat := (lines.map String.length).foldl max 0

/-- The largest font size between two limits at which the longest line fits into a width by the mean
width of characters; the least one when there is no room, and the greatest when there is no text. -/
def fitFontSize (text : String) (available least greatest : Float32) : Float32 :=
  let count := longest (lines text)
  if count = 0 then greatest
  else if !available.isFinite || available ≤ 0.0 then least
  else
    clamp (available / (Single.ofCount count * averageWidth)) least (Single.larger greatest least)

end Flowchart.Label
