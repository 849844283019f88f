import Flowchart.Proofs.Text.Marker
import Mathlib.Data.List.Induction
import Mathlib.Data.List.Infix

namespace Flowchart.Text

def rows (s : List Char) : List (List Char) := pieces (· == '\n') s

def ofRows (found : List (List Char)) : List Char := join ['\n'] found

theorem rows_append (s t : List Char) : rows (s ++ '\n' :: t) = rows s ++ rows t :=
  pieces_append_cons rfl s t

theorem rows_cons {c : Char} (hc : c ≠ '\n') (s : List Char) : rows (c :: s) = attach c (rows s) := by
  rw [rows, pieces_cons, if_neg (by simpa using hc), rows]

theorem rows_ofRows {found : List (List Char)} (hne : found ≠ []) (h : ∀ row ∈ found, '\n' ∉ row) :
    rows (ofRows found) = found := pieces_join hne h

theorem newline_not_mem_of_mem_rows {s row : List Char} (h : row ∈ rows s) : '\n' ∉ row := by
  rw [rows, pieces_eq_splitAtAny] at h
  have hfree : ¬ ['\n'] <:+: row :=
    not_infix_of_mem_piecesAtAny (by simp) List.mem_cons_self h
  rwa [List.singleton_infix_iff] at hfree

theorem trim_dropReturn (s : List Char) : trim (dropReturn s) = trim s := by
  unfold dropReturn
  split
  · next hlast =>
    obtain ⟨r, rfl⟩ := List.getLast?_eq_some_iff.1 hlast
    rw [List.dropLast_concat]
    exact (trim_append_blanks (List.forall_mem_singleton.2 rfl) r).symm
  · rfl

/-- What looks at trimmed lines and passes over blank ones reads rows as it reads lines. -/
theorem foldl_lines {σ : Type} (read : σ → List Char → σ)
    (htrim : ∀ p a b, trim a = trim b → read p a = read p b) (hblank : ∀ p, read p [] = p)
    (s : List Char) (p : σ) : (lines s).foldl read p = (rows s).foldl read p := by
  have hclose (found : List (List Char)) (p : σ) :
      (closeLines found).foldl read p = found.foldl read p := by
    induction found generalizing p with
    | nil => rfl
    | cons row rest ih =>
      cases rest with
      | nil =>
        -- a last row that is empty makes no line
        rw [closeLines]
        split
        · next hempty =>
          rw [List.isEmpty_iff.1 hempty]
          exact (hblank p).symm
        · rfl
      | cons next rest =>
        rw [closeLines, List.foldl_cons, List.foldl_cons, htrim p _ _ (trim_dropReturn row), ih]
        exact List.cons_ne_nil next rest
  exact hclose (rows s) p

/-- The text with a line feed alone in place of every carriage return and line feed. -/
def withoutReturns (s : List Char) : List Char := replaceAll ['\r', '\n'] ['\n'] s

theorem withoutReturns_return (s : List Char) :
    withoutReturns ('\r' :: '\n' :: s) = '\n' :: withoutReturns s := rfl

theorem withoutReturns_cons {c : Char} {s : List Char}
    (h : ∀ r, c = '\r' → s = '\n' :: r → False) :
    withoutReturns (c :: s) = c :: withoutReturns s := by
  have hmarker : ¬ ['\r', '\n'] <+: c :: s := by
    rintro ⟨r, hr⟩
    obtain ⟨rfl, hs⟩ := List.cons.inj hr
    exact h r rfl hs.symm
  rw [withoutReturns, replaceAll_cons hmarker, withoutReturns]

theorem trimEnd_cons_congr {a b : List Char} (h : trimEnd a = trimEnd b) (c : Char) :
    trimEnd (c :: a) = trimEnd (c :: b) := by
  have hdrop : a.reverse.dropWhile isBlank = b.reverse.dropWhile isBlank := List.reverse_inj.1 h
  rw [trimEnd, trimEnd, List.reverse_cons, List.reverse_cons, List.dropWhile_append,
    List.dropWhile_append, hdrop]

theorem map_trimEnd_attach_congr {found others : List (List Char)}
    (h : found.map trimEnd = others.map trimEnd) (c : Char) :
    (attach c found).map trimEnd = (attach c others).map trimEnd := by
  cases found with
  | nil =>
    obtain rfl : others = [] := List.map_eq_nil_iff.1 h.symm
    rfl
  | cons a found =>
    cases others with
    | nil => exact absurd h (List.cons_ne_nil _ _)
    | cons b others =>
      obtain ⟨hfirst, hrest⟩ := List.cons.inj h
      exact congrArg₂ List.cons (trimEnd_cons_congr hfirst c) hrest

/-- Rows that line feeds alone end are the same but for blanks at their ends. -/
theorem map_trimEnd_rows_withoutReturns (s : List Char) :
    (rows (withoutReturns s)).map trimEnd = (rows s).map trimEnd := by
  have hcons {c : Char} {s : List Char} (h : ∀ r, c = '\r' → s = '\n' :: r → False)
      (ih : (rows (withoutReturns s)).map trimEnd = (rows s).map trimEnd) :
      (rows (withoutReturns (c :: s))).map trimEnd = (rows (c :: s)).map trimEnd := by
    rw [withoutReturns_cons h]
    by_cases hc : c = '\n'
    · subst hc
      exact congrArg (trimEnd [] :: ·) ih
    · rw [rows_cons hc, rows_cons hc]
      exact map_trimEnd_attach_congr ih c
  -- two characters at a time, since a carriage return waits for the next one
  induction s using List.twoStepInduction with
  | nil => rfl
  | singleton c => exact hcons (by simp) rfl
  | cons_cons c d s ih hsecond =>
    by_cases hreturn : c = '\r' ∧ d = '\n'
    · obtain ⟨rfl, rfl⟩ := hreturn
      have hblank : trimEnd ['\r'] = trimEnd [] := rfl
      have hrows : rows ('\r' :: '\n' :: s) = ['\r'] :: rows s := rfl
      rw [withoutReturns_return, hrows, List.map_cons, hblank, ← ih]
      rfl
    · exact hcons (fun r hc hs => hreturn ⟨hc, (List.cons.inj hs).1⟩) (hsecond d)

theorem trim_trimEnd (s : List Char) : trim (trimEnd s) = trim s := by
  obtain ⟨b, hb, hs⟩ := exists_trimEnd s
  calc trim (trimEnd s)
    _ = trim (trimEnd s ++ b) := (trim_append_blanks hb _).symm
    _ = trim s := by rw [← hs]

theorem map_trim_rows_withoutReturns (s : List Char) :
    (rows (withoutReturns s)).map trim = (rows s).map trim := by
  have htrim (found : List (List Char)) : found.map trim = (found.map trimEnd).map trim := by
    rw [List.map_map]
    exact List.map_congr_left fun row _ => (trim_trimEnd row).symm
  rw [htrim, map_trimEnd_rows_withoutReturns, ← htrim]

end Flowchart.Text
