import Flowchart.Proofs.Text.Snug

namespace Flowchart.Text

/-- A text, and its lines without what ends them. -/
inductive HasLines : List Char → List (List Char) → Prop
  | nil : HasLines [] []
  | last {line : List Char} (oneLine : '\n' ∉ line) (ne_nil : line ≠ []) : HasLines line [line]
  | feed {line rest : List Char} {found : List (List Char)} (oneLine : '\n' ∉ line)
      (noReturn : line.getLast? ≠ some '\r') (more : HasLines rest found) :
      HasLines (line ++ '\n' :: rest) (line :: found)
  | returnFeed {line rest : List Char} {found : List (List Char)} (oneLine : '\n' ∉ line)
      (more : HasLines rest found) : HasLines (line ++ '\r' :: '\n' :: rest) (line :: found)

theorem lines_of_not_mem {line : List Char} (h : '\n' ∉ line) (hne : line ≠ []) :
    lines line = [line] := by
  rw [lines, pieces_of_not_mem h, closeLines, if_neg (by simpa using hne)]

/-- A line feed ends the line in front of it. -/
theorem lines_append_cons {line : List Char} (h : '\n' ∉ line) (rest : List Char) :
    lines (line ++ '\n' :: rest) = dropReturn line :: lines rest := by
  have hpieces : pieces (· == '\n') (line ++ '\n' :: rest) = line :: pieces (· == '\n') rest := by
    rw [pieces_append_cons rfl, pieces_of_not_mem h, List.singleton_append]
  obtain ⟨next, more, hrest⟩ := List.exists_cons_of_ne_nil (pieces_ne_nil (· == '\n') rest)
  rw [lines, lines, hpieces, hrest, closeLines]
  exact List.cons_ne_nil next more

theorem HasLines.lines_eq {s : List Char} {found : List (List Char)} (h : HasLines s found) :
    lines s = found := by
  induction h with
  | nil => rfl
  | last oneLine ne_nil => exact lines_of_not_mem oneLine ne_nil
  | feed oneLine noReturn _ ih => rw [lines_append_cons oneLine, ih, dropReturn, if_neg noReturn]
  | @returnFeed line rest found oneLine _ ih =>
    have honeLine : '\n' ∉ line ++ ['\r'] := by simp [oneLine]
    have hsplit : line ++ '\r' :: '\n' :: rest = line ++ ['\r'] ++ '\n' :: rest := by simp
    rw [hsplit, lines_append_cons honeLine, ih, dropReturn, if_pos List.getLast?_concat,
      List.dropLast_concat]

theorem hasLines_lines (s : List Char) : HasLines s (lines s) := by
  -- a step takes a whole line off, so the induction is on the length
  induction hn : s.length using Nat.strong_induction_on generalizing s with
  | h n ih =>
    by_cases hbreak : '\n' ∈ s
    · obtain ⟨line, rest, rfl, oneLine⟩ := List.eq_append_cons_of_mem hbreak
      have hlt : rest.length < n := by
        rw [← hn, List.length_append, List.length_cons]
        omega
      have more := ih rest.length hlt rest rfl
      rw [lines_append_cons oneLine, dropReturn]
      split
      · next hreturn =>
        obtain ⟨short, rfl⟩ := List.getLast?_eq_some_iff.1 hreturn
        have hshort : '\n' ∉ short := fun h => oneLine (List.mem_append_left _ h)
        rw [List.dropLast_concat, List.append_assoc]
        exact .returnFeed hshort more
      · next hreturn => exact .feed oneLine hreturn more
    · cases s with
      | nil => exact .nil
      | cons c s =>
        rw [lines_of_not_mem hbreak (List.cons_ne_nil c s)]
        exact .last hbreak (List.cons_ne_nil c s)

theorem hasLines_iff {s : List Char} {found : List (List Char)} :
    HasLines s found ↔ lines s = found := by
  constructor
  · exact HasLines.lines_eq
  · rintro rfl
    exact hasLines_lines s

end Flowchart.Text
