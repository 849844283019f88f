import Flowchart.Text.Pieces

/-! A fence is at least three backticks or at least three tildes. A block is closed by a line with
three of its marker and nothing else, however many markers opened it. -/
namespace Flowchart.Markdown

def fence (marker : Char) : List Char := [marker, marker, marker]

def diagramNames : List (List Char) := ["mermaid".toList, "flowchart".toList]

def opensWith (line : List Char) (marker : Char) : Bool :=
  let t := Text.trim line
  let info := Text.trim (t.dropWhile (· == marker))
  (fence marker).isPrefixOf t && diagramNames.any (·.isPrefixOf info)

def opening? (line : List Char) : Option Char := ['`', '~'].find? (opensWith line)

def closes (marker : Char) (line : List Char) : Bool :=
  match (fence marker).isPrefixOf? (Text.trim line) with
  | some rest => rest.all Text.isBlank
  | none => false

/-- A block that is not closed yet: its marker, and its lines with the last one first. -/
structure Block where
  marker : Char
  body : List (List Char)

def Block.text (b : Block) : List Char := Text.join ['\n'] b.body.reverse

def blocksFrom : Option Block → List (List Char) → List (List Char)
  | _, [] => []
  | none, line :: rest => blocksFrom ((opening? line).map (⟨·, []⟩)) rest
  | some b, line :: rest =>
    if closes b.marker line then b.text :: blocksFrom none rest
    else blocksFrom (some { b with body := line :: b.body }) rest

def blocks (document : List Char) : List (List Char) := blocksFrom none (Text.lines document)

end Flowchart.Markdown
