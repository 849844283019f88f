import Flowchart.Proofs.Source.Cut
import Flowchart.Proofs.Text.Marker

namespace Flowchart.Source

open scoped List

def Shown (s : List Char) : Prop := ∀ c ∈ s, Nesting.neutral.shows c = true

theorem Shown.mono {s t : List Char} (h : Shown t) (hst : s <:+: t) : Shown s :=
  fun c hc => h c (hst.subset hc)

theorem Shown.append {s t : List Char} (hs : Shown s) (ht : Shown t) : Shown (s ++ t) :=
  List.forall_mem_append.2 ⟨hs, ht⟩

theorem cells_append_of_shown {s : List Char} (h : Shown s) (t : List Char) :
    cells (s ++ t) = shownCells s ++ cells t := by
  induction s with
  | nil => rfl
  | cons c s ih =>
    obtain ⟨hc, hs⟩ := List.forall_mem_cons.1 h
    have ih : cellsFrom .neutral (s ++ t) = _ := ih hs
    rw [List.cons_append, cells, cellsFrom, Nesting.next_of_shows hc, hc, ih]
    rfl

theorem cells_of_shown {s : List Char} (h : Shown s) : cells s = shownCells s := by
  simpa [cells, cellsFrom] using cells_append_of_shown h []

theorem still_of_shown {p : Char → Bool} {s : List Char} (hs : Shown s) (hp : ∀ c ∈ s, p c = true) :
    (shownScanner p).Still .neutral s :=
  Scanner.still_of_forall fun c hc =>
    ⟨by simp [shownScanner, hp c hc], Nesting.next_of_shows (hs c hc)⟩

theorem masked_of_shown {s : List Char} (h : Shown s) : masked (cells s) = s := by
  rw [cells_of_shown h, masked_shownCells]

/-- In front of a blank a text is passed when no marker occurs in it. -/
theorem passed_of_shown {s : List Char} (hs : ∀ k ∈ connectors, ¬ k.marker <:+: s) (t : List Char) :
    Passed (shownCells s) (cells (' ' :: t)) := by
  rintro b - ⟨a, hb⟩ k hk hmarker
  obtain ⟨a', s', rfl, -, rfl⟩ := List.map_eq_append_iff.1 hb.symm
  have hmask : masked (s'.map (⟨·, true⟩) ++ cells (' ' :: t)) = s' ++ ' ' :: masked (cells t) := by
    rw [masked_append]
    exact congrArg (· ++ _) (masked_shownCells s')
  rw [hmask] at hmarker
  have hstart := Text.isPrefix_of_append_cons (blank_not_mem_marker hk) hmarker
  exact hs k hk (hstart.isInfix.trans (List.suffix_append a' s').isInfix)

theorem mem_close {current u : List Char} {others : List (List Char)}
    (hu : u ∈ statementsFrom.close current others) : u = Text.trim current.reverse ∨ u ∈ others := by
  unfold statementsFrom.close at hu
  dsimp only at hu
  split at hu
  · exact .inr hu
  · exact List.mem_cons.1 hu

theorem mem_statementsFrom {current s u : List Char} (hs : Shown s) (hcurrent : ';' ∉ current)
    (hu : u ∈ statementsFrom .neutral current s) : u <:+: current.reverse ++ s ∧ ';' ∉ u := by
  have htrim : Text.trim current.reverse <:+: current.reverse ∧ ';' ∉ Text.trim current.reverse :=
    ⟨Text.trim_isInfix _, fun h => hcurrent (List.mem_reverse.1 (Text.mem_of_mem_trim h))⟩
  induction s generalizing current with
  | nil =>
    rcases mem_close hu with rfl | hu
    · rwa [List.append_nil]
    · exact absurd hu List.not_mem_nil
  | cons c s ih =>
    obtain ⟨hc, hs⟩ := List.forall_mem_cons.1 hs
    rw [statementsFrom] at hu
    split at hu
    · rcases mem_close hu with rfl | hu
      · exact ⟨htrim.1.trans (List.prefix_append _ _).isInfix, htrim.2⟩
      · have hnone : Text.trim [] <:+: [] := List.nil_infix
        obtain ⟨hpart, hfree⟩ := ih hs List.not_mem_nil hu ⟨hnone, List.not_mem_nil⟩
        exact ⟨hpart.trans ⟨current.reverse ++ [c], [], by simp⟩, hfree⟩
    · next hsemicolon =>
      rw [Nesting.next_of_shows hc] at hu
      have hne : c ≠ ';' := fun h => hsemicolon ⟨h, hc⟩
      have hmore : ';' ∉ c :: current := by simp [hcurrent, hne.symm]
      have h := ih hs hmore hu
        ⟨Text.trim_isInfix _, fun h => hmore (List.mem_reverse.1 (Text.mem_of_mem_trim h))⟩
      rwa [List.reverse_cons, List.append_assoc] at h

theorem mem_statements_of_shown {line u : List Char} (hline : Shown line) (hu : u ∈ statements line) :
    u <:+: line ∧ ';' ∉ u :=
  mem_statementsFrom hline List.not_mem_nil hu

theorem groupPartsFrom_of_shown {s : List Char} (hs : Shown s) :
    ∃ first rest, groupPartsFrom .neutral s = first :: rest ∧ first <+: s ∧
      ∀ part ∈ first :: rest, part <:+: s ∧ '&' ∉ part := by
  induction s with
  | nil => exact ⟨[], [], rfl, List.prefix_rfl, by simp⟩
  | cons c s ih =>
    obtain ⟨hc, hs⟩ := List.forall_mem_cons.1 hs
    obtain ⟨first, rest, hparts, hfirst, hall⟩ := ih hs
    have hsuffix : s <:+: c :: s := (List.suffix_cons c s).isInfix
    rw [groupPartsFrom]
    split
    · refine ⟨[], _, rfl, List.nil_prefix, List.forall_mem_cons.2 ⟨by simp, ?_⟩⟩
      rw [hparts]
      exact fun part hpart => ⟨(hall part hpart).1.trans hsuffix, (hall part hpart).2⟩
    · next hand =>
      rw [Nesting.next_of_shows hc, hparts]
      have hstart : c :: first <+: c :: s := List.cons_prefix_cons.2 ⟨rfl, hfirst⟩
      have hne : c ≠ '&' := fun h => hand ⟨h, hc⟩
      obtain ⟨⟨-, hfree⟩, hrest⟩ := List.forall_mem_cons.1 hall
      refine ⟨c :: first, rest, rfl, hstart, List.forall_mem_cons.2 ⟨⟨hstart.isInfix, ?_⟩, ?_⟩⟩
      · simp [hfree, hne.symm]
      · exact fun part hpart => ⟨(hrest part hpart).1.trans hsuffix, (hrest part hpart).2⟩

theorem takeLabel_of_shown {token : List Char} (h : Shown token) :
    takeLabel token = (none, token) := by
  have hnone (n : PipeNesting) : cutAtPipe? n token = none := by
    induction token generalizing n with
    | nil => rfl
    | cons c token ih =>
      obtain ⟨hc, htoken⟩ := List.forall_mem_cons.1 h
      have hpipe : n.isPipe c = false := by
        have hne : c ≠ '|' := by
          rintro rfl
          exact absurd hc (by decide)
        simp [PipeNesting.isPipe, hne]
      rw [cutAtPipe?, hpipe, if_neg Bool.false_ne_true, ih htoken]
      rfl
  rw [takeLabel, hnone]

/-- The tokens of a line are pieces of it. -/
theorem Cut.isInfix {line : List Cell} {token : List Char} {links : List (Connector × List Char)}
    (h : Cut line token links) : ∀ t ∈ token :: links.map Prod.snd, t <:+: line.map Cell.char := by
  induction h with
  | last _ => exact List.forall_mem_singleton.2 List.infix_rfl
  | link _ _ _ ih =>
    rw [List.map_append]
    refine List.forall_mem_cons.2 ⟨(List.prefix_append _ _).isInfix, fun t ht => ?_⟩
    rw [List.map_append, ← List.append_assoc]
    exact (ih t ht).trans (List.suffix_append _ _).isInfix

/-- A part of a group of a chain is a piece of the line, without ampersands and markers. -/
theorem part_of_shown {line token : List Char} (hline : Shown line)
    {links : List (Connector × List Char)} (hsplit : splitConnectors? line = some (token, links))
    {t : List Char} (ht : t ∈ token :: links.map Prod.snd) {part : List Char}
    (hpart : part ∈ groupParts (takeLabel t).2) :
    part <:+: line ∧ '&' ∉ part ∧ ∀ k ∈ connectors, ¬ k.marker <:+: part := by
  obtain ⟨-, hcut⟩ := splitConnectors?_eq_some_iff.1 hsplit
  have hchars : (cells line).map Cell.char = line := char_cellsFrom .neutral line
  have htoken : t <:+: line := hchars ▸ hcut.isInfix t ht
  have hshown : Shown t := hline.mono htoken
  have hunmarked := hcut.unmarked (by rw [hchars]) t ht
  rw [takeLabel_of_shown hshown] at hpart
  obtain ⟨first, rest, hparts, -, hall⟩ := groupPartsFrom_of_shown hshown
  have hparts : groupParts t = first :: rest := hparts
  rw [hparts] at hpart
  obtain ⟨hpiece, hfree⟩ := hall part hpart
  refine ⟨hpiece.trans htoken, hfree, fun k hk hmarker => hunmarked k hk ?_⟩
  rw [masked_of_shown hshown]
  exact hmarker.trans hpiece

end Flowchart.Source
