import Flowchart.Proofs.Source.Scan
import Mathlib.Data.List.Infix

/-! The mask of a line has its shown characters as they are, and blanks for all others, as many as
the character has bytes. A shown character is met outside everything only, so the mask of a part
that begins or ends at one, taken by itself, is that part of the mask of the line. -/
namespace Flowchart.Source

def Cell.masked (c : Cell) : List Char :=
  if c.shown then [c.char] else List.replicate c.char.utf8Size ' '

def masked (line : List Cell) : List Char := line.flatMap Cell.masked

def shownCells (s : List Char) : List Cell := s.map (⟨·, true⟩)

theorem masked_cons (c : Cell) (line : List Cell) :
    masked (c :: line) = c.masked ++ masked line := rfl

theorem masked_append (line more : List Cell) : masked (line ++ more) = masked line ++ masked more :=
  List.flatMap_append

@[simp] theorem masked_shownCells (s : List Char) : masked (shownCells s) = s := by
  induction s with
  | nil => rfl
  | cons c s ih => exact congrArg (c :: ·) ih

@[simp] theorem char_shownCells (s : List Char) : (shownCells s).map Cell.char = s := by
  simp [shownCells, Function.comp_def]

section Markers

variable {marker : List Char} (hmarker : ' ' ∉ marker)
include hmarker

/-- What has no blanks begins the mask exactly where its characters are shown. -/
theorem startsShown_iff (line : List Cell) :
    startsShown marker line = true ↔ marker <+: masked line := by
  refine List.isPrefixOf_iff_prefix.trans ?_
  change shownCells marker <+: line ↔ marker <+: masked line
  induction marker generalizing line with
  | nil => exact iff_of_true List.nil_prefix List.nil_prefix
  | cons m rest ih =>
    obtain ⟨hm, hrest⟩ := not_or.1 (mt List.mem_cons.2 hmarker)
    have hshownCells : shownCells (m :: rest) = ⟨m, true⟩ :: shownCells rest := rfl
    rw [hshownCells]
    cases line with
    | nil => simp [masked]
    | cons c line =>
      obtain ⟨char, shown⟩ := c
      rw [masked_cons, List.cons_prefix_cons, ih hrest line]
      cases shown with
      | true => simp [Cell.masked]
      | false =>
        -- at least one blank stands for a character that is not shown
        obtain ⟨n, hn⟩ := Nat.exists_eq_succ_of_ne_zero char.utf8Size_pos.ne'
        simp [Cell.masked, hn, List.replicate_succ, Ne.symm hm]

theorem infix_blanks_append_iff (hne : marker ≠ []) (n : Nat) (s : List Char) :
    marker <:+: List.replicate n ' ' ++ s ↔ marker <:+: s := by
  induction n with
  | zero => exact Iff.rfl
  | succ n ih =>
    have hfirst : ¬ marker <+: ' ' :: (List.replicate n ' ' ++ s) := by
      intro h
      obtain ⟨m, rest, rfl⟩ := List.exists_cons_of_ne_nil hne
      exact hmarker ((List.cons_prefix_cons.1 h).1 ▸ List.mem_cons_self)
    rw [List.replicate_succ, List.cons_append, List.infix_cons_iff, ih, or_iff_right hfirst]

/-- A marker occurs in the mask exactly where it begins the mask of an ending of the line. -/
theorem infix_masked_iff (hne : marker ≠ []) (line : List Cell) :
    marker <:+: masked line ↔ ∃ b, b <:+ line ∧ marker <+: masked b := by
  induction line with
  | nil =>
    have hnil : masked [] = [] := rfl
    rw [hnil, List.infix_nil]
    refine iff_of_false hne ?_
    rintro ⟨b, hb, hprefix⟩
    rw [List.suffix_nil.1 hb, hnil, List.prefix_nil] at hprefix
    exact hne hprefix
  | cons c line ih =>
    have hstep : marker <:+: masked (c :: line) ↔
        marker <+: masked (c :: line) ∨ marker <:+: masked line := by
      rw [masked_cons]
      unfold Cell.masked
      split
      · exact List.infix_cons_iff
      · rw [infix_blanks_append_iff hmarker hne]
        refine (or_iff_right_of_imp fun h => ?_).symm
        exact (infix_blanks_append_iff hmarker hne _ _).1 h.isInfix
    rw [hstep, ih]
    constructor
    · rintro (h | ⟨b, hb, h⟩)
      · exact ⟨c :: line, List.suffix_refl _, h⟩
      · exact ⟨b, hb.trans (List.suffix_cons c line), h⟩
    · rintro ⟨b, hb, h⟩
      rcases List.suffix_cons_iff.1 hb with rfl | hb
      · exact .inl h
      · exact .inr ⟨b, hb, h⟩

end Markers

/-- Outside everything is the only place where characters are shown. -/
theorem Nesting.eq_neutral_of_shows {n : Nesting} {c : Char} (h : n.shows c = true) :
    n = .neutral := by
  obtain ⟨quoted, piped, depth⟩ := n
  simp only [shows, Bool.and_eq_true, Bool.not_eq_true', beq_iff_eq] at h
  obtain ⟨⟨⟨⟨⟨⟨rfl, rfl⟩, rfl⟩, _⟩, _⟩, _⟩, _⟩ := h
  rfl

theorem cellsFrom_append_foldl (n : Nesting) (s t : List Char) :
    cellsFrom n (s ++ t) = cellsFrom n s ++ cellsFrom (s.foldl Nesting.next n) t := by
  induction s generalizing n with
  | nil => rfl
  | cons c s ih => exact congrArg (Cell.mk c (n.shows c) :: ·) (ih (n.next c))

/-- Where the cells of a line fall into two parts, so does the line. -/
theorem cellsFrom_eq_append {n : Nesting} {line : List Char} {before after : List Cell}
    (h : cellsFrom n line = before ++ after) :
    before = cellsFrom n (before.map Cell.char) ∧
      after = cellsFrom ((before.map Cell.char).foldl Nesting.next n) (after.map Cell.char) := by
  have hline : line = before.map Cell.char ++ after.map Cell.char := by
    rw [← List.map_append, ← h, char_cellsFrom]
  rw [hline, cellsFrom_append_foldl] at h
  have hlength : (cellsFrom n (before.map Cell.char)).length = before.length := by
    rw [← List.length_map Cell.char, char_cellsFrom, List.length_map]
  obtain ⟨hbefore, hafter⟩ := List.append_inj h hlength
  exact ⟨hbefore.symm, hafter.symm⟩

/-- A line may be cut in front of a shown character, and both parts be masked afresh. -/
theorem cells_eq_append {line : List Char} {before after : List Cell}
    (h : cells line = before ++ after) (hafter : ∀ c ∈ after.head?, c.shown = true) :
    before = cells (before.map Cell.char) ∧ after = cells (after.map Cell.char) := by
  obtain ⟨hbefore, hrest⟩ := cellsFrom_eq_append h
  refine ⟨hbefore, ?_⟩
  cases after with
  | nil => rfl
  | cons c after =>
    have hshows := hafter c rfl
    rw [List.map_cons, cellsFrom] at hrest
    obtain ⟨hc, -⟩ := List.cons.inj hrest
    rw [hc] at hshows
    rw [Nesting.eq_neutral_of_shows hshows] at hrest
    exact hrest

/-- Behind shown characters the rest is masked afresh, too. -/
theorem cells_eq_shownCells_append {line s : List Char} {after : List Cell}
    (h : cells line = shownCells s ++ after) : after = cells (after.map Cell.char) := by
  obtain ⟨hshown, hafter⟩ := cellsFrom_eq_append h
  rw [char_shownCells] at hshown hafter
  have hneutral : s.foldl Nesting.next .neutral = .neutral := by
    clear h hafter
    induction s with
    | nil => rfl
    | cons c s ih =>
      obtain ⟨hc, hrest⟩ := List.cons.inj hshown
      have hshows : Nesting.neutral.shows c = true := (congrArg Cell.shown hc).symm
      rw [Nesting.next_of_shows hshows] at hrest
      rw [List.foldl_cons, Nesting.next_of_shows hshows]
      exact ih hrest
  rw [hneutral] at hafter
  exact hafter

end Flowchart.Source
