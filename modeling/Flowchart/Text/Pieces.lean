import Flowchart.Text.Blank

namespace Flowchart.Text

def attach (c : Char) : List (List Char) → List (List Char)
  | [] => [[c]]
  | t :: ts => (c :: t) :: ts

@[simp] theorem flatten_attach (c : Char) (found : List (List Char)) :
    (attach c found).flatten = c :: found.flatten := by
  cases found <;> rfl

def pieces (p : Char → Bool) (s : List Char) : List (List Char) :=
  s.foldr (fun c found => if p c then [] :: found else attach c found) [[]]

@[simp] theorem pieces_nil (p : Char → Bool) : pieces p [] = [[]] := rfl

@[simp] theorem pieces_cons (p : Char → Bool) (c : Char) (r : List Char) :
    pieces p (c :: r) = if p c then [] :: pieces p r else attach c (pieces p r) := rfl

theorem pieces_ne_nil (p : Char → Bool) (s : List Char) : pieces p s ≠ [] := by
  cases s with
  | nil => simp
  | cons c r =>
    rw [pieces_cons]
    split
    · simp
    · cases pieces p r <;> simp [attach]

def items (separator : Char) (s : List Char) : List (List Char) :=
  ((pieces (· == separator) s).map trim).filter (!·.isEmpty)

def words (s : List Char) : List (List Char) := (pieces isBlank s).filter (!·.isEmpty)

def cutAt? (p : Char → Bool) : List Char → Option (List Char × List Char)
  | [] => none
  | c :: r => if p c then some ([], r) else (cutAt? p r).map fun (a, b) => (c :: a, b)

def dropPixels : List Char → List Char
  | 'x' :: 'p' :: r => dropPixels r
  | r => r

def withoutPixels (s : List Char) : List Char := (dropPixels s.reverse).reverse

/-- The first word and the rest after one blank: the whole text and nothing when no blank occurs. -/
def headAndRest (s : List Char) : List Char × List Char := (cutAt? isBlank s).getD (s, [])

/--
The pieces between the occurrences of a marker, found from left to right without overlap.
The counter says how many characters of a marker are still to be passed over.
-/
def piecesAt (marker : List Char) : Nat → List Char → List (List Char)
  | _, [] => [[]]
  | skip + 1, _ :: r => piecesAt marker skip r
  | 0, c :: r =>
    if marker.isPrefixOf (c :: r) then [] :: piecesAt marker (marker.length - 1) r
    else attach c (piecesAt marker 0 r)

def splitAt (marker s : List Char) : List (List Char) := piecesAt marker 0 s

def cutAtText? (marker : List Char) : List Char → Option (List Char × List Char)
  | [] => none
  | c :: r =>
    match marker.isPrefixOf? (c :: r) with
    | some rest => some ([], rest)
    | none => (cutAtText? marker r).map fun (a, b) => (c :: a, b)

/-- Replacement from left to right; the counter is as in `piecesAt`. -/
def replaceFrom (marker replacement : List Char) : Nat → List Char → List Char
  | _, [] => []
  | skip + 1, _ :: r => replaceFrom marker replacement skip r
  | 0, c :: r =>
    if marker.isPrefixOf (c :: r) then
      replacement ++ replaceFrom marker replacement (marker.length - 1) r
    else c :: replaceFrom marker replacement 0 r

def replaceAll (marker replacement s : List Char) : List Char := replaceFrom marker replacement 0 s

theorem replaceFrom_append (m replacement p t : List Char) :
    replaceFrom m replacement p.length (p ++ t) = replaceFrom m replacement 0 t := by
  induction p with
  | nil => rfl
  | cons c p ih => exact ih

theorem replaceAll_append {m : List Char} (hm : m ≠ []) (replacement t : List Char) :
    replaceAll m replacement (m ++ t) = replacement ++ replaceAll m replacement t := by
  obtain ⟨c, p, rfl⟩ := List.exists_cons_of_ne_nil hm
  have hprefix : (c :: p).isPrefixOf (c :: (p ++ t)) = true :=
    List.isPrefixOf_iff_prefix.2 ⟨t, rfl⟩
  rw [List.cons_append, replaceAll, replaceFrom, if_pos hprefix, List.length_cons,
    Nat.add_sub_cancel, replaceFrom_append, replaceAll]

theorem replaceAll_cons {m : List Char} {c : Char} {r : List Char} (h : ¬ m <+: c :: r)
    (replacement : List Char) :
    replaceAll m replacement (c :: r) = c :: replaceAll m replacement r := by
  have hprefix : ¬ m.isPrefixOf (c :: r) = true := mt List.isPrefixOf_iff_prefix.1 h
  rw [replaceAll, replaceFrom, if_neg hprefix, replaceAll]

def dropReturn (s : List Char) : List Char :=
  if s.getLast? = some '\r' then s.dropLast else s

/-- The pieces at line feeds as lines: only a line that a line feed ends loses its carriage return,
and what follows the last line feed is a line unless it is empty. -/
def closeLines : List (List Char) → List (List Char)
  | [] => []
  | [t] => if t.isEmpty then [] else [t]
  | t :: ts => dropReturn t :: closeLines ts

def lines (s : List Char) : List (List Char) := closeLines (pieces (· == '\n') s)

def join (separator : List Char) (parts : List (List Char)) : List Char :=
  (parts.intersperse separator).flatten

/-- The text inside a pair of double quotes around the trimmed text, else the trimmed text. What is
inside the quotes is kept as it stands. -/
def unquote (s : List Char) : List Char :=
  let t := trim s
  match t with
  | '"' :: r => if r.getLast? = some '"' then r.dropLast else t
  | _ => t

end Flowchart.Text
