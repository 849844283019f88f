import Flowchart.Proofs.Source.Payload
import Flowchart.Proofs.Source.Row
import Mathlib.Algebra.Group.Nat.Even
import Mathlib.Data.List.Count

namespace Flowchart.Source

open Text (isBlank rows ofRows trim)

def commented (line comment : List Char) : List Char := line ++ (" %% ".toList ++ comment)

/-- A quote opens or closes; two percent signs outside quotes end the line. -/
theorem dropComment_cons (quoted : Bool) (c : Char) (s : List Char) :
    dropComment quoted (c :: s) =
      if quoted = false ∧ c = '%' ∧ s.head? = some '%' then []
      else c :: dropComment (quoted ^^ (c == '"')) s := by
  rw [dropComment]
  cases quoted with
  | true => simp [bne]
  | false =>
    by_cases hc : c = '"'
    · subst hc
      simp
    · simp [hc, beq_false_of_ne hc]

theorem even_count_cons (quoted : Bool) (c : Char) (s : List Char) :
    Even ((c :: s).count '"' + quoted.toNat) ↔
      Even (s.count '"' + (quoted ^^ (c == '"')).toNat) := by
  by_cases hc : c = '"'
  · subst hc
    cases quoted <;> simp [Nat.even_add_one]
  · simp [hc, beq_false_of_ne hc]

/-- What has neither quotes nor percent signs stays when a comment is dropped. -/
theorem dropComment_append {s : List Char} (hs : ∀ c ∈ s, c ≠ '"' ∧ c ≠ '%') (t : List Char) :
    dropComment false (s ++ t) = s ++ dropComment false t := by
  induction s with
  | nil => rfl
  | cons c s ih =>
    obtain ⟨hquote, hsign⟩ := hs c List.mem_cons_self
    have hrest := ih fun e he => hs e (List.mem_cons_of_mem c he)
    rw [List.cons_append, dropComment_cons, if_neg (fun h => hsign h.2.1), beq_false_of_ne hquote,
      Bool.xor_false, hrest, List.cons_append]

theorem head?_append_blanks {b : List Char} (hb : ∀ c ∈ b, isBlank c = true) (hne : b ≠ [])
    (s r : List Char) {c : Char} (hc : isBlank c = false) :
    (s ++ (b ++ r)).head? = some c ↔ s.head? = some c := by
  cases s with
  | nil =>
    obtain ⟨e, b, rfl⟩ := List.exists_cons_of_ne_nil hne
    simpa using Text.ne_of_isBlank (hb e List.mem_cons_self) hc
  | cons e s => exact Iff.rfl

/-- A comment that stands outside quotes and after a blank is dropped: what is left differs from what
is left without it by blanks only. -/
theorem dropComment_append_comment {b : List Char} (hb : ∀ c ∈ b, isBlank c = true) (hne : b ≠ [])
    (r : List Char) (quoted : Bool) (s : List Char) (hquotes : Even (s.count '"' + quoted.toNat)) :
    ∃ b', (∀ c ∈ b', isBlank c = true) ∧
      dropComment quoted (s ++ (b ++ '%' :: '%' :: r)) = dropComment quoted s ++ b' := by
  -- the quotes that are still to come close the one that is open, if any
  induction s generalizing quoted with
  | nil =>
    cases quoted with
    | false =>
      have hplain : ∀ c ∈ b, c ≠ '"' ∧ c ≠ '%' := fun c hc =>
        ⟨Text.ne_of_isBlank (hb c hc) (by decide), Text.ne_of_isBlank (hb c hc) (by decide)⟩
      refine ⟨b, hb, ?_⟩
      rw [List.nil_append, dropComment_append hplain]
      exact List.append_nil b
    | true => exact absurd hquotes (by decide)
  | cons c s ih =>
    obtain ⟨b', hb', hdrop⟩ := ih _ ((even_count_cons quoted c s).1 hquotes)
    have hsign : (s ++ (b ++ '%' :: '%' :: r)).head? = some '%' ↔ s.head? = some '%' :=
      head?_append_blanks hb hne s _ (by decide)
    simp only [List.cons_append, dropComment_cons, hsign, hdrop]
    split
    -- the line has a comment of its own before this one
    · exact ⟨[], by simp, rfl⟩
    · exact ⟨b', hb', rfl⟩

/-- What trimming leaves of a line with a comment. The blanks in front of the comment go only when
nothing else is there. -/
theorem trim_commented (line comment : List Char) :
    ∃ b r, (∀ c ∈ b, isBlank c = true) ∧ (trim line = [] ↔ b = []) ∧ (∀ c ∈ r, c ∈ ' ' :: comment) ∧
      trim (commented line comment) = trim line ++ (b ++ '%' :: '%' :: r) := by
  obtain ⟨a, b, hline, ha, hb⟩ := Text.exists_trim line
  have hcut : commented line comment =
      a ++ (trim line ++ (b ++ [' '] ++ '%' :: '%' :: ' ' :: comment)) := by
    rw [commented]
    nth_rewrite 1 [hline]
    simp
  have hblank : ∀ c ∈ b ++ [' '], isBlank c = true :=
    List.forall_mem_append.2 ⟨hb, List.forall_mem_singleton.2 rfl⟩
  have hkept : ∀ c ∈ Text.trimEnd (' ' :: comment), c ∈ ' ' :: comment := fun c hc =>
    List.mem_reverse.1 ((List.dropWhile_sublist isBlank).subset (List.mem_reverse.1 hc))
  have hend (s : List Char) : Text.trimEnd (s ++ '%' :: '%' :: ' ' :: comment) =
      s ++ '%' :: '%' :: Text.trimEnd (' ' :: comment) := by
    rw [Text.trimEnd_append_cons rfl, Text.trimEnd_cons rfl]
  by_cases hnil : trim line = []
  · have hall : ∀ c ∈ a ++ (b ++ [' ']), isBlank c = true := List.forall_mem_append.2 ⟨ha, hblank⟩
    refine ⟨[], _, by simp, by simp [hnil], hkept, ?_⟩
    rw [hcut, hnil, List.nil_append, ← List.append_assoc, trim,
      Text.trimStart_append hall ⟨'%', _, rfl, rfl⟩]
    exact hend []
  · refine ⟨b ++ [' '], _, hblank, by simp [hnil], hkept, ?_⟩
    rw [hcut, trim, Text.trimStart_append ha ((Text.leads_trim hnil).append _),
      ← List.append_assoc, hend, List.append_assoc]

theorem count_quote_trim (s : List Char) : (trim s).count '"' = s.count '"' := by
  obtain ⟨a, b, hs, ha, hb⟩ := Text.exists_trim s
  have hnone {t : List Char} (ht : ∀ c ∈ t, isBlank c = true) : t.count '"' = 0 :=
    List.count_eq_zero.2 fun h => absurd (ht '"' h) (by decide)
  nth_rewrite 2 [hs]
  rw [List.count_append, List.count_append, hnone ha, hnone hb, Nat.zero_add, Nat.add_zero]

/-- A character without another case is in a text if it is in the lower case of the text. -/
theorem not_mem_of_lower_eq {w name : List Char} {c : Char} (h : Text.lower w = name)
    (hcase : c.toLower = c) (hname : c ∉ name) : c ∉ w := by
  intro hc
  rw [← h] at hname
  exact hname (List.mem_map.2 ⟨c, hc, hcase⟩)

/-- A line that closes a note has two words, and no percent sign is in them. -/
theorem percent_not_mem_of_isNoteEnd {line : List Char} (h : isNoteEnd line = true) :
    '%' ∉ line := by
  intro hmem
  obtain ⟨w, hw, hsign⟩ := Text.mem_words (by decide) hmem
  unfold isNoteEnd at h
  split at h
  · next first second hwords =>
    rw [hwords] at hw
    simp only [Bool.and_eq_true, Text.sameFolded, beq_iff_eq] at h
    rcases List.mem_pair.1 hw with rfl | rfl
    · exact not_mem_of_lower_eq h.1 rfl (by decide) hsign
    · exact not_mem_of_lower_eq h.2 rfl (by decide) hsign
  · exact absurd h Bool.false_ne_true

variable {d : Defaults} {line comment : List Char}

theorem initPayload?_commented (hplain : initPayload? (trim line) = none)
    (hbrace : '\x7d' ∉ comment) : initPayload? (trim (commented line comment)) = none := by
  obtain ⟨b, r, hb, hnil, hr, htrim⟩ := trim_commented line comment
  rw [htrim]
  refine initPayload?_append_eq_none hplain ?_ ?_
  · intro hmem
    simp only [List.mem_append, List.mem_cons] at hmem
    rcases hmem with hmem | hmem | hmem | hmem
    · exact absurd (hb '\x7d' hmem) (by decide)
    · exact absurd hmem (by decide)
    · exact absurd hmem (by decide)
    · rcases List.mem_cons.1 (hr '\x7d' hmem) with hmem | hmem
      · exact absurd hmem (by decide)
      · exact hbrace hmem
  · cases b with
    | nil => exact .inl (hnil.2 rfl)
    | cons c b =>
      have hc : c ≠ '%' := Text.ne_of_isBlank (hb c List.mem_cons_self) (by decide)
      exact .inr fun hhead => hc (Option.some.inj hhead)

theorem isNoteEnd_commented : isNoteEnd (trim (commented line comment)) = false := by
  obtain ⟨b, r, _, _, _, htrim⟩ := trim_commented line comment
  exact Bool.eq_false_iff.2 fun h => percent_not_mem_of_isNoteEnd h (by simp [htrim])

/-- Two percent signs begin the line with a comment if they begin the line, or if there is no line. -/
theorem isComment_commented :
    isComment (trim (commented line comment)) = true ↔
      trim line = [] ∨ isComment (trim line) = true := by
  obtain ⟨b, r, hb, hnil, _, htrim⟩ := trim_commented line comment
  rw [htrim]
  match trim line, b, hnil with
  | [], b, hnil =>
    obtain rfl := hnil.1 rfl
    simp [isComment]
  | c :: s, [], hnil => exact absurd (hnil.2 rfl) (List.cons_ne_nil c s)
  | [c], e :: b, _ =>
    have he : '%' ≠ e := (Text.ne_of_isBlank (hb e List.mem_cons_self) (by decide)).symm
    simp [isComment, he]
  | c :: e :: s, b, _ => simp [isComment]

theorem withoutComment_commented (hquotes : Even (line.count '"')) (hline : trim line ≠ []) :
    withoutComment (trim (commented line comment)) = withoutComment (trim line) := by
  obtain ⟨b, r, hb, hnil, _, htrim⟩ := trim_commented line comment
  have heven : Even ((trim line).count '"' + false.toNat) := by
    rw [count_quote_trim]
    exact hquotes
  obtain ⟨b', hb', hdrop⟩ :=
    dropComment_append_comment hb (fun h => hline (hnil.2 h)) r false (trim line) heven
  rw [htrim, withoutComment, hdrop, Text.trim_append_blanks hb', withoutComment]

/-- A line with closed quotes that holds no directive is read as it is without the comment behind it,
but for the line that closes a note: that one is passed over. -/
theorem Progress.read_commented (p : Progress) (hquotes : Even (line.count '"'))
    (hplain : p.inNote = false → initPayload? (trim line) = none) (hbrace : '\x7d' ∉ comment) :
    p.read d (commented line comment) =
      if p.inNote ∧ isNoteEnd (trim line) then p else p.read d line := by
  cases hnote : p.inNote with
  | true =>
    have hsame : { p with inNote := true } = p := by rw [← hnote]
    rw [Progress.read_of_inNote d hnote, Progress.read_of_inNote d hnote, isNoteEnd_commented,
      Bool.not_false, hsame]
    split
    · rfl
    · next hend => rw [Bool.eq_false_iff.2 fun h => hend ⟨rfl, h⟩, Bool.not_false, hsame]
  | false =>
    have houtside : ¬(false = true ∧ isNoteEnd (trim line) = true) := by simp
    rw [Progress.read_of_plain d hnote (initPayload?_commented (hplain hnote) hbrace),
      Progress.read_of_plain d hnote (hplain hnote), if_neg houtside]
    by_cases hline : trim line = []
    -- the comment is all there is on the line
    · rw [if_pos (isComment_commented.2 (.inl hline)), hline]
      rfl
    · have hcomment : isComment (trim (commented line comment)) = isComment (trim line) := by
        rw [Bool.eq_iff_iff, isComment_commented, or_iff_right hline]
      rw [hcomment, Progress.readStatements, withoutComment_commented hquotes hline,
        Progress.readStatements]

/-- A comment behind one line of a source, in front of the line break. The line has closed quotes and
holds no directive outside notes. Then the comment changes nothing, unless the line closes a note: the
source with the comment is read as if that line were blank. -/
theorem readWith_commented (t : Theme) {source : String} {before after : List (List Char)}
    {line ending : List Char} (comment : List Char)
    (hsource : rows source.toList = before ++ (line ++ ending) :: after)
    (hending : ending = [] ∨ ending = ['\r']) (hquotes : Even (line.count '"'))
    (hplain : (progressAfter (.ofTheme t) before).inNote = false → initPayload? (trim line) = none)
    (hbreak : '\n' ∉ comment) (hbrace : '\x7d' ∉ comment) :
    readWith t (String.ofList (ofRows (before ++ (commented line comment ++ ending) :: after))) =
      if (progressAfter (.ofTheme t) before).inNote ∧ isNoteEnd (trim line) then
        readWith t (String.ofList (ofRows (before ++ [] :: after)))
      else readWith t source := by
  have hblank : ∀ c ∈ ending, isBlank c = true := by
    rcases hending with rfl | rfl
    · exact List.forall_mem_nil _
    · exact List.forall_mem_singleton.2 rfl
  have hrow : ∀ row ∈ before ++ (line ++ ending) :: after, '\n' ∉ row := by
    rw [← hsource]
    exact fun row => Text.newline_not_mem_of_mem_rows
  obtain ⟨hbefore, hrest⟩ := List.forall_mem_append.1 hrow
  obtain ⟨hline, hafter⟩ := List.forall_mem_cons.1 hrest
  have hcommented : '\n' ∉ commented line comment ++ ending := by
    simp only [commented, List.mem_append, not_or] at hline ⊢
    exact ⟨⟨hline.1, by decide, hbreak⟩, hline.2⟩
  have hothers {row : List Char} (h : '\n' ∉ row) : ∀ r ∈ before ++ row :: after, '\n' ∉ r :=
    List.forall_mem_append.2 ⟨hbefore, List.forall_mem_cons.2 ⟨h, hafter⟩⟩
  -- the three readings part at this row only
  rw [readWith_ofRows t (hothers hcommented), readWith_ofRows t (hothers List.not_mem_nil),
    readWith_eq_progressAfter, hsource, progressAfter_append, progressAfter_append,
    progressAfter_append, List.foldl_cons, List.foldl_cons, List.foldl_cons,
    Progress.read_congr _ _ (Text.trim_append_blanks hblank (commented line comment)),
    Progress.read_congr _ _ (Text.trim_append_blanks hblank line),
    Progress.read_blank _ _ Text.trim_nil, Progress.read_commented _ hquotes hplain hbrace]
  split <;> rfl

theorem commentedNoteStart_read :
    read "note left of A %% c\nend note\nflowchart LR" =
      read "note left of A\nend note\nflowchart LR" := by
  have hsource : rows "note left of A\nend note\nflowchart LR".toList =
      [] ++ ("note left of A".toList ++ []) :: ["end note".toList, "flowchart LR".toList] := by
    decide +kernel
  have hread := readWith_commented .standard ['c'] hsource (.inl rfl) (by decide +kernel)
    (fun _ => by decide +kernel) (by decide) (by decide)
  have hclosed : ¬((progressAfter (.ofTheme .standard) []).inNote = true ∧
      isNoteEnd (trim "note left of A".toList) = true) := by decide
  rw [if_neg hclosed] at hread
  exact hread

/-- With a comment behind its last line a note goes on to the end of the source. -/
theorem commentedNoteEnd_swallows_rest :
    rows "note left of A\nend note\nflowchart LR".toList =
        ["note left of A".toList, "end note".toList, "flowchart LR".toList] ∧
      rows "note left of A\nend note %% c\nflowchart LR".toList =
        ["note left of A".toList, commented "end note".toList ['c'], "flowchart LR".toList] ∧
      Even ("end note".toList.count '"') ∧ initPayload? "end note".toList = none ∧
      (read "note left of A\nend note\nflowchart LR").graph.direction = .leftRight ∧
      (read "note left of A\nend note %% c\nflowchart LR").graph.direction = .topDown := by
  decide +kernel

end Flowchart.Source
