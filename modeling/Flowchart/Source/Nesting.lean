import Flowchart.Text.Pieces

/-! A character is shown when it stands outside quotes, labels and brackets and is itself no mark of
these; only shown characters can part statements, nodes or groups. A shown character leaves the
nesting as it is, which is neutral there, so a line may be cut at a shown character and both parts
be read afresh. Brackets are counted without a bound. -/
namespace Flowchart.Source

def isOpener (c : Char) : Bool := c == '[' || c == '(' || c == '\x7b'

/-- A closing bracket; any kind closes any other. -/
def isCloser (c : Char) : Bool := c == ']' || c == ')' || c == '\x7d'

/-- The nesting before a character. A label between pipes is never inside brackets. -/
structure Nesting where
  quoted : Bool := false
  piped : Bool := false
  depth : Nat := 0
  deriving DecidableEq, Repr

namespace Nesting

def neutral : Nesting := {}

/-- The nesting after a character. Pipes are text inside brackets, brackets are text between pipes,
and a bracket that closes nothing is passed over. -/
def next (n : Nesting) (c : Char) : Nesting :=
  if n.quoted then { n with quoted := c != '"' }
  else if c = '"' then { n with quoted := true }
  else if c = '|' ∧ n.depth = 0 then { n with piped := !n.piped }
  else if n.piped then n
  else if isOpener c then { n with depth := n.depth + 1 }
  else if isCloser c then { n with depth := n.depth - 1 }
  else n

def shows (n : Nesting) (c : Char) : Bool :=
  !n.quoted && !n.piped && n.depth == 0 && c != '"' && c != '|' && !isOpener c && !isCloser c

/-- A shown character changes nothing. -/
theorem next_of_shows {n : Nesting} {c : Char} (h : n.shows c = true) : n.next c = n := by
  simp only [shows, Bool.and_eq_true, Bool.not_eq_true', bne_iff_ne, beq_iff_eq] at h
  obtain ⟨⟨⟨⟨⟨⟨hq, hp⟩, _⟩, hc⟩, hb⟩, ho⟩, hl⟩ := h
  simp [next, hq, hp, hc, hb, ho, hl]

end Nesting

structure Cell where
  char : Char
  shown : Bool
  deriving DecidableEq, Repr

def cellsFrom (n : Nesting) : List Char → List Cell
  | [] => []
  | c :: r => ⟨c, n.shows c⟩ :: cellsFrom (n.next c) r

def cells (line : List Char) : List Cell := cellsFrom .neutral line

def startsShown (marker : List Char) (line : List Cell) : Bool :=
  (marker.map (⟨·, true⟩)).isPrefixOf line

/-- The statements of a line, trimmed and not empty: what stands between semicolons outside
everything. `current` is the statement so far, last character first. -/
def statementsFrom (n : Nesting) (current : List Char) : List Char → List (List Char)
  | [] => close current []
  | c :: r =>
    if c = ';' ∧ n.shows c then close current (statementsFrom n [] r)
    else statementsFrom (n.next c) (c :: current) r
where
  /-- A statement put in front of the others unless it is blank. -/
  close (current : List Char) (others : List (List Char)) : List (List Char) :=
    let statement := Text.trim current.reverse
    if statement.isEmpty then others else statement :: others

def statements (line : List Char) : List (List Char) := statementsFrom .neutral [] line

def groupPartsFrom (n : Nesting) : List Char → List (List Char)
  | [] => [[]]
  | c :: r =>
    if c = '&' ∧ n.shows c then [] :: groupPartsFrom n r
    else Text.attach c (groupPartsFrom (n.next c) r)

def groupParts (token : List Char) : List (List Char) := groupPartsFrom .neutral token

end Flowchart.Source
