import Flowchart.Proofs.Source.Mask

/-! There is exactly one way to cut a line at the first marker in its mask, the longest that stands
there, and so on with the rest; it is the one that the program takes. -/
namespace Flowchart.Source

open scoped List

def Unmarked (line : List Cell) : Prop := ∀ k ∈ connectors, ¬ k.marker <:+: masked line

/-- No marker stands in the mask at a character of `before` when `after` follows. -/
def Passed (before after : List Cell) : Prop :=
  ∀ b, b ≠ [] → b <:+ before → ∀ k ∈ connectors, ¬ k.marker <+: masked (b ++ after)

structure Longest (k : Connector) (line : List Cell) : Prop where
  mem : k ∈ connectors
  stands : k.marker <+: masked line
  longest : ∀ l ∈ connectors, l.marker <+: masked line → l.marker.length ≤ k.marker.length

/-- A line, the text before its first connector, and every connector with the text after it. -/
inductive Cut : List Cell → List Char → List (Connector × List Char) → Prop
  | last {line : List Cell} (unmarked : Unmarked line) : Cut line (line.map Cell.char) []
  | link {before after : List Cell} {k : Connector} {token : List Char}
      {links : List (Connector × List Char)}
      (leftmost : Passed before (shownCells k.marker ++ after))
      (longest : Longest k (shownCells k.marker ++ after))
      (rest : Cut after token links) :
      Cut (before ++ (shownCells k.marker ++ after)) (before.map Cell.char) ((k, token) :: links)

theorem blank_not_mem_marker {k : Connector} (hk : k ∈ connectors) : ' ' ∉ k.marker :=
  (by decide : ∀ k ∈ connectors, ' ' ∉ k.marker) k hk

theorem marker_ne_nil {k : Connector} (hk : k ∈ connectors) : k.marker ≠ [] :=
  (by decide : ∀ k ∈ connectors, k.marker ≠ []) k hk

/-- A marker that another one begins with comes after it. -/
theorem pairwise_connectors : connectors.Pairwise fun k l => ¬ k.marker <+: l.marker := by decide

theorem eq_of_marker_eq {k l : Connector} (hk : k ∈ connectors) (hl : l ∈ connectors)
    (h : k.marker = l.marker) : k = l :=
  (by decide : ∀ k ∈ connectors, ∀ l ∈ connectors, k.marker = l.marker → k = l) k hk l hl h

theorem connectorAt?_eq_none_iff (line : List Cell) :
    connectorAt? line = none ↔ ∀ k ∈ connectors, ¬ k.marker <+: masked line := by
  rw [connectorAt?, List.find?_eq_none]
  refine forall₂_congr fun k hk => not_congr ?_
  exact startsShown_iff (blank_not_mem_marker hk) line

theorem Longest.of_connectorAt? {k : Connector} {line : List Cell}
    (h : connectorAt? line = some k) : Longest k line := by
  obtain ⟨hk, earlier, later, htable, hearlier⟩ := List.find?_eq_some_iff_append.1 h
  have hmem : k ∈ connectors := List.mem_of_find?_eq_some h
  have hstands := (startsShown_iff (blank_not_mem_marker hmem) line).1 hk
  refine ⟨hmem, hstands, fun l hl hlstands => ?_⟩
  have hlstarts := (startsShown_iff (blank_not_mem_marker hl) line).2 hlstands
  have horder := pairwise_connectors
  rw [htable, List.mem_append, List.mem_cons] at hl
  rw [htable, List.pairwise_append, List.pairwise_cons] at horder
  obtain hl | rfl | hl := hl
  · exact absurd (hearlier l hl) (by simp [hlstarts])
  · exact le_rfl
  -- of two starts of one text one begins with the other, and this one is not the longer
  · have hnot := horder.2.1.1 l hl
    exact ((List.prefix_or_prefix_of_prefix hstands hlstands).resolve_left hnot).length_le

theorem Longest.unique {k l : Connector} {line : List Cell} (hk : Longest k line)
    (hl : Longest l line) : k = l := by
  have hlength := Nat.le_antisymm (hl.longest k hk.mem hk.stands) (hk.longest l hl.mem hl.stands)
  have hstart := List.prefix_of_prefix_length_le hk.stands hl.stands hlength.le
  exact eq_of_marker_eq hk.mem hl.mem (hstart.eq_of_length hlength)

theorem Longest.connectorAt? {k : Connector} {line : List Cell} (h : Longest k line) :
    connectorAt? line = some k := by
  cases hfound : Source.connectorAt? line with
  | none => exact absurd h.stands ((connectorAt?_eq_none_iff line).1 hfound k h.mem)
  | some l => rw [(Longest.of_connectorAt? hfound).unique h]

theorem exists_of_connectorAt? {k : Connector} {line : List Cell}
    (h : connectorAt? line = some k) : ∃ after, line = shownCells k.marker ++ after := by
  obtain ⟨hstarts, -⟩ := List.find?_eq_some_iff_append.1 h
  obtain ⟨after, hafter⟩ := List.isPrefixOf_iff_prefix.1 hstarts
  exact ⟨after, hafter.symm⟩

theorem cutConnectors_length (passed line : List Cell) :
    cutConnectors passed.length (passed ++ line) = cutConnectors 0 line := by
  induction passed with
  | nil => rfl
  | cons c passed ih => exact ih

theorem cutConnectors_of_longest {k : Connector} {after : List Cell}
    (h : Longest k (shownCells k.marker ++ after)) :
    cutConnectors 0 (shownCells k.marker ++ after) =
      ([], (k, (cutConnectors 0 after).1) :: (cutConnectors 0 after).2) := by
  have hfound := h.connectorAt?
  obtain ⟨m, rest, hmarker⟩ := List.exists_cons_of_ne_nil (marker_ne_nil h.mem)
  have hcells : shownCells k.marker ++ after = ⟨m, true⟩ :: (shownCells rest ++ after) := by
    rw [hmarker]
    rfl
  have hlength : k.marker.length - 1 = (shownCells rest).length := by
    rw [hmarker, shownCells, List.length_map, List.length_cons, Nat.add_sub_cancel]
  rw [hcells] at hfound ⊢
  rw [cutConnectors, hfound]
  dsimp only
  rw [hlength, cutConnectors_length]

theorem cutConnectors_of_passed {before after : List Cell} (h : Passed before after) :
    cutConnectors 0 (before ++ after) =
      (before.map Cell.char ++ (cutConnectors 0 after).1, (cutConnectors 0 after).2) := by
  induction before with
  | nil => rfl
  | cons c before ih =>
    have hnone : connectorAt? (c :: (before ++ after)) = none :=
      (connectorAt?_eq_none_iff _).2 (h (c :: before) (List.cons_ne_nil c before) List.suffix_rfl)
    have ih := ih fun b hne hb => h b hne (hb.trans (List.suffix_cons c before))
    rw [List.cons_append, cutConnectors, hnone]
    simp only [ih, List.map_cons, List.cons_append]

theorem unmarked_iff_passed (line : List Cell) : Unmarked line ↔ Passed line [] := by
  constructor
  · intro h b _ hb k hk hprefix
    rw [List.append_nil] at hprefix
    exact h k hk ((infix_masked_iff (blank_not_mem_marker hk) (marker_ne_nil hk) line).2
      ⟨b, hb, hprefix⟩)
  · intro h k hk hinfix
    obtain ⟨b, hb, hprefix⟩ :=
      (infix_masked_iff (blank_not_mem_marker hk) (marker_ne_nil hk) line).1 hinfix
    have hne : b ≠ [] := by
      rintro rfl
      exact marker_ne_nil hk (List.prefix_nil.1 hprefix)
    exact h b hne hb k hk (by rwa [List.append_nil])

theorem Passed.unmarked {before after : List Cell} (h : Passed before after) :
    Unmarked before := by
  refine (unmarked_iff_passed before).2 fun b hne hb k hk hprefix => h b hne hb k hk ?_
  rw [List.append_nil] at hprefix
  rw [masked_append]
  exact hprefix.trans (List.prefix_append _ _)

theorem Passed.cons {c : Cell} {before after : List Cell}
    (hc : connectorAt? (c :: (before ++ after)) = none) (h : Passed before after) :
    Passed (c :: before) after := by
  intro b hne hb
  rcases List.suffix_cons_iff.1 hb with rfl | hb
  · exact (connectorAt?_eq_none_iff _).1 hc
  · exact h b hne hb

theorem Cut.cons {c : Cell} {line : List Cell} {token : List Char}
    {links : List (Connector × List Char)} (hc : connectorAt? (c :: line) = none)
    (h : Cut line token links) : Cut (c :: line) (c.char :: token) links := by
  cases h with
  | last unmarked =>
    have hpassed := (unmarked_iff_passed line).1 unmarked
    exact .last ((unmarked_iff_passed _).2 (hpassed.cons (by rwa [List.append_nil])))
  | link leftmost longest rest => exact .link (leftmost.cons hc) longest rest

/-- The program makes a cut. -/
theorem cut_cutConnectors (line : List Cell) :
    Cut line (cutConnectors 0 line).1 (cutConnectors 0 line).2 := by
  -- a step passes one character or a whole marker, so the induction is on the length
  induction hn : line.length using Nat.strong_induction_on generalizing line with
  | h n ih =>
    cases line with
    | nil =>
      refine .last fun k hk hinfix => marker_ne_nil hk ?_
      exact List.infix_nil.1 hinfix
    | cons c line =>
      cases hc : connectorAt? (c :: line) with
      | none =>
        rw [cutConnectors, hc]
        exact (ih line.length (by simp [← hn]) line rfl).cons hc
      | some k =>
        have hlongest := Longest.of_connectorAt? hc
        obtain ⟨after, hafter⟩ := exists_of_connectorAt? hc
        rw [hafter] at hlongest hn ⊢
        rw [cutConnectors_of_longest hlongest]
        have hlt : after.length < n := by
          have hpos := List.length_pos_iff.2 (marker_ne_nil hlongest.mem)
          rw [List.length_append, shownCells, List.length_map] at hn
          omega
        have hpassed : Passed [] (shownCells k.marker ++ after) :=
          fun b hne hb => absurd (List.suffix_nil.1 hb) hne
        exact .link hpassed hlongest (ih after.length hlt after rfl)

/-- There is no other one. -/
theorem Cut.cutConnectors {line : List Cell} {token : List Char}
    {links : List (Connector × List Char)} (h : Cut line token links) :
    cutConnectors 0 line = (token, links) := by
  induction h with
  | @last line unmarked =>
    have hpassed := cutConnectors_of_passed ((unmarked_iff_passed line).1 unmarked)
    rw [List.append_nil] at hpassed
    rw [hpassed, Source.cutConnectors, List.append_nil]
  | link leftmost longest _ ih =>
    rw [cutConnectors_of_passed leftmost, cutConnectors_of_longest longest, ih, List.append_nil]

theorem Cut.unmarked_of_nil {line : List Cell} {token : List Char} (h : Cut line token []) :
    Unmarked line := by
  cases h with
  | last unmarked => exact unmarked

theorem splitConnectors?_eq_some_iff {line token : List Char}
    {links : List (Connector × List Char)} :
    splitConnectors? line = some (token, links) ↔ links ≠ [] ∧ Cut (cells line) token links := by
  have hcut : Cut (cells line) token links ↔ Source.cutConnectors 0 (cells line) = (token, links) :=
    ⟨Cut.cutConnectors, fun h => by simpa only [h] using cut_cutConnectors (cells line)⟩
  rw [hcut, splitConnectors?]
  split
  · next found hfound =>
    simp only [hfound, Prod.mk.injEq, reduceCtorEq, false_iff]
    rintro ⟨hne, -, rfl⟩
    exact hne rfl
  · next found hfound =>
    rw [Option.some.injEq]
    refine ⟨fun h => ⟨?_, h⟩, And.right⟩
    rintro rfl
    exact hfound token h

theorem splitConnectors?_eq_none_iff {line : List Char} :
    splitConnectors? line = none ↔ Unmarked (cells line) := by
  constructor
  · intro h
    have hcut := cut_cutConnectors (cells line)
    cases hlinks : (Source.cutConnectors 0 (cells line)).2 with
    | nil =>
      rw [hlinks] at hcut
      exact hcut.unmarked_of_nil
    | cons link links =>
      have hsome := splitConnectors?_eq_some_iff.2
        ⟨(by simp [hlinks] : (Source.cutConnectors 0 (cells line)).2 ≠ []), hcut⟩
      exact absurd hsome (by simp [h])
  · intro h
    rw [splitConnectors?, (Cut.last h).cutConnectors]

theorem Cut.spells {line : List Cell} {token : List Char} {links : List (Connector × List Char)}
    (h : Cut line token links) :
    token ++ links.flatMap (fun link => link.1.marker ++ link.2) = line.map Cell.char := by
  induction h with
  | last _ => exact List.append_nil _
  | link _ _ _ ih => simp [← ih]

/-- A token that is masked by itself has the mask that it has in the line. -/
theorem Cut.unmarked {line : List Cell} {token : List Char} {links : List (Connector × List Char)}
    (h : Cut line token links) (hline : line = cells (line.map Cell.char)) :
    ∀ t ∈ token :: links.map Prod.snd, Unmarked (cells t) := by
  induction h with
  | last unmarked =>
    intro t ht
    rw [List.map_nil, List.mem_singleton] at ht
    rwa [ht, ← hline]
  | @link before after k token links leftmost longest _ ih =>
    have hshown : ∀ c ∈ (shownCells k.marker ++ after).head?, c.shown = true := by
      obtain ⟨m, rest, hmarker⟩ := List.exists_cons_of_ne_nil (marker_ne_nil longest.mem)
      rw [hmarker]
      rintro c ⟨⟩
      rfl
    -- the marker is shown, so neither what is in front of it nor what is behind it is masked otherwise
    obtain ⟨hbefore, hrest⟩ := cells_eq_append hline.symm hshown
    have hafter := cells_eq_shownCells_append hrest.symm
    intro t ht
    rcases List.mem_cons.1 ht with rfl | ht
    · rw [← hbefore]
      exact leftmost.unmarked
    · exact ih hafter t ht

/-- A line has connectors exactly when a marker occurs in its mask. Cutting it there loses nothing
and leaves nothing to cut, and every cut is at the first place where a marker stands and takes the
longest of those that stand there. -/
theorem splitConnectors?_lossless (line : List Char) :
    (splitConnectors? line = none ↔ ∀ k ∈ connectors, ¬ k.marker <:+: masked (cells line)) ∧
    ∀ token links, splitConnectors? line = some (token, links) →
      (token :: links.map Prod.snd).length = (links.map Prod.fst).length + 1 ∧
      token ++ links.flatMap (fun link => link.1.marker ++ link.2) = line ∧
      (∀ t ∈ token :: links.map Prod.snd, splitConnectors? t = none) ∧
      Cut (cells line) token links := by
  refine ⟨splitConnectors?_eq_none_iff, fun token links h => ?_⟩
  obtain ⟨-, hcut⟩ := splitConnectors?_eq_some_iff.1 h
  have hchars : (cells line).map Cell.char = line := char_cellsFrom .neutral line
  refine ⟨by simp, hcut.spells.trans hchars, fun t ht => ?_, hcut⟩
  exact splitConnectors?_eq_none_iff.2 (hcut.unmarked (by rw [hchars]) t ht)

theorem accentedLine_cut :
    let line := "é-->>B[x --> y]|--x|---ü".toList
    let links : List (Connector × List Char) := [
      (⟨"-->>".toList, .solid, .openArrow⟩, "B[x --> y]|--x|".toList),
      (⟨"---".toList, .solid, .bare⟩, "ü".toList)]
    splitConnectors? line = some ("é".toList, links) ∧
      "é".toList ++ links.flatMap (fun link => link.1.marker ++ link.2) = line ∧
      (∀ t ∈ "é".toList :: links.map Prod.snd, splitConnectors? t = none) ∧
      Cut (cells line) "é".toList links := by
  intro line links
  have hsplit : splitConnectors? line = some ("é".toList, links) := by decide
  exact ⟨hsplit, ((splitConnectors?_lossless line).2 _ _ hsplit).2⟩

end Flowchart.Source
