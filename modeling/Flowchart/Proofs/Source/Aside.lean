import Flowchart.Proofs.Source.Comment

namespace Flowchart.Source

open Text (isBlank rows ofRows trim)

def Positioned (line : List Char) : Prop :=
  ∃ word side rest, Text.words line = word :: side :: rest ∧ Text.lower word = "note".toList ∧
    Text.lower side ∈ ["left".toList, "right".toList, "over".toList]

structure OpensNote (line : List Char) : Prop where
  positioned : Positioned line
  colon : ':' ∉ line

structure WholeNote (line : List Char) : Prop where
  word : ∃ word rest, Text.words line = word :: rest ∧ Text.lower word = "note".toList
  note : Positioned line ∨ hasConnector (withoutComment (trim line)) = false
  colon : ':' ∈ withoutComment (trim line)

/-- Lines that make one blank line, one comment, or one note. -/
inductive Aside : List (List Char) → Prop where
  | blank {line : List Char} (h : ∀ c ∈ line, isBlank c = true) : Aside [line]
  | comment {line : List Char} (h : isComment (trim line) = true)
      (hplain : initPayload? (trim line) = none) : Aside [line]
  | wholeNote {line : List Char} (h : WholeNote line) : Aside [line]
  | note {opening closing : List Char} {body : List (List Char)} (hopening : OpensNote opening)
      (hbody : ∀ line ∈ body, isNoteEnd line = false) (hclosing : isNoteEnd closing = true) :
      Aside (opening :: (body ++ [closing]))

theorem head?_dropComment {s : List Char} {c : Char} (h : (dropComment false s).head? = some c) :
    s.head? = some c := by
  cases s with
  | nil => exact h
  | cons e s =>
    rw [dropComment_cons] at h
    split at h
    · exact absurd h (by simp)
    · exact h

/-- A word without quotes and percent signs is still the first one when a comment is dropped. -/
theorem words_dropComment {s w : List Char} {others : List (List Char)}
    (h : Text.words s = w :: others) (hw : ∀ c ∈ w, c ≠ '"' ∧ c ≠ '%') :
    ∃ r, Text.words r = others ∧
      Text.words (dropComment false s) = w :: Text.words (dropComment false r) := by
  obtain ⟨a, r, rfl, ha, hne, hvisible, hhead, hothers⟩ := Text.words_eq_cons_iff.1 h
  have hplain : ∀ c ∈ a ++ w, c ≠ '"' ∧ c ≠ '%' := List.forall_mem_append.2
    ⟨fun c hc => ⟨Text.ne_of_isBlank (ha c hc) (by decide), Text.ne_of_isBlank (ha c hc) (by decide)⟩,
      hw⟩
  refine ⟨r, hothers, ?_⟩
  rw [dropComment_append hplain]
  exact Text.words_append_word ha hne hvisible fun c hc => hhead c (head?_dropComment hc)

theorem plain_of_lower_eq {w name : List Char} (h : Text.lower w = name) (hquote : '"' ∉ name)
    (hsign : '%' ∉ name) : ∀ c ∈ w, c ≠ '"' ∧ c ≠ '%' := by
  refine fun c hc => ⟨?_, ?_⟩
  · rintro rfl
    exact not_mem_of_lower_eq h rfl hquote hc
  · rintro rfl
    exact not_mem_of_lower_eq h rfl hsign hc

theorem mem_of_mem_dropComment {quoted : Bool} {s : List Char} {c : Char}
    (h : c ∈ dropComment quoted s) : c ∈ s := by
  induction s generalizing quoted with
  | nil => exact h
  | cons e s ih =>
    rw [dropComment_cons] at h
    split at h
    · exact absurd h List.not_mem_nil
    · rcases List.mem_cons.1 h with rfl | h
      · exact List.mem_cons_self
      · exact List.mem_cons_of_mem e (ih h)

section Notes

variable {line : List Char}

/-- The word that begins a note is there without the comment, too. -/
theorem words_withoutComment {word : List Char} {rest : List (List Char)}
    (h : Text.words line = word :: rest) (hword : Text.lower word = "note".toList) :
    ∃ r, Text.words r = rest ∧
      Text.words (withoutComment (trim line)) = word :: Text.words (dropComment false r) := by
  rw [← Text.words_trim] at h
  obtain ⟨r, hr, hfirst⟩ := words_dropComment h (plain_of_lower_eq hword (by decide) (by decide))
  exact ⟨r, hr, by rw [withoutComment, Text.words_trim, hfirst]⟩

theorem sameFolded_note {word : List Char} (h : Text.lower word = "note".toList) :
    Text.sameFolded word "note".toList = true := by
  rw [Text.sameFolded, h]
  rfl

theorem Positioned.isNoteStart (h : Positioned line) :
    isNoteStart (withoutComment (trim line)) = true := by
  obtain ⟨word, side, rest, hwords, hword, hside⟩ := h
  simp only [List.mem_cons, List.not_mem_nil, or_false] at hside
  have hplain : ∀ c ∈ side, c ≠ '"' ∧ c ≠ '%' := by
    rcases hside with hside | hside | hside
    all_goals exact plain_of_lower_eq hside (by decide) (by decide)
  obtain ⟨r, hr, hfirst⟩ := words_withoutComment hwords hword
  obtain ⟨r', _, hsecond⟩ := words_dropComment hr hplain
  rw [Source.isNoteStart, hfirst, hsecond]
  dsimp only
  rw [sameFolded_note hword, Bool.true_and]
  rcases hside with hside | hside | hside <;> simp [hside]

theorem OpensNote.isWholeNote (h : OpensNote line) :
    isWholeNote (withoutComment (trim line)) = false := by
  rw [Source.isWholeNote, List.contains_eq_mem, decide_eq_false_iff_not]
  intro hcolon
  exact h.colon (Text.mem_of_mem_trim (mem_of_mem_dropComment (Text.mem_of_mem_trim hcolon)))

theorem WholeNote.isNoteStart (h : WholeNote line) :
    isNoteStart (withoutComment (trim line)) = true := by
  rcases h.note with hside | hconnector
  · exact hside.isNoteStart
  · obtain ⟨word, rest, hwords, hword⟩ := h.word
    obtain ⟨r, _, hfirst⟩ := words_withoutComment hwords hword
    rw [Source.isNoteStart, hfirst]
    dsimp only
    rw [sameFolded_note hword, Bool.true_and]
    simp [h.colon, hconnector]

theorem WholeNote.isWholeNote (h : WholeNote line) :
    isWholeNote (withoutComment (trim line)) = true := by
  rw [Source.isWholeNote, List.contains_eq_mem, decide_eq_true_iff]
  exact h.colon

end Notes

variable {d : Defaults}

/-- Two percent signs begin what holds a directive. -/
theorem isComment_of_initPayload? {line : List Char} (h : (initPayload? line).isSome = true) :
    isComment line = true := by
  obtain ⟨_, _, ⟨b₁, b₂, b₃, b₄, body, _, rfl⟩, rfl⟩ := isSome_initPayload?_iff.1 h
  simp [isComment]

theorem withoutComment_of_isComment {line : List Char} (h : isComment line = true) :
    withoutComment line = [] := by
  obtain ⟨r, rfl⟩ := List.isPrefixOf_iff_prefix.1 h
  rfl

/-- Outside notes, what starts a note is neither a comment nor a directive. -/
theorem Progress.read_of_isNoteStart {p : Progress} (h : p.inNote = false) {line : List Char}
    (hstart : isNoteStart (withoutComment (trim line)) = true) :
    p.read d line = { p with inNote := !isWholeNote (withoutComment (trim line)) } := by
  have hsome : (withoutComment (trim line)).isEmpty = false := by
    cases hline : withoutComment (trim line) with
    | nil =>
      rw [hline] at hstart
      exact absurd hstart (by decide)
    | cons c r => rfl
  have hcomment : isComment (trim line) = false := by
    rw [Bool.eq_false_iff]
    intro hcomment
    rw [withoutComment_of_isComment hcomment] at hsome
    exact absurd hsome (by decide)
  have hplain : initPayload? (trim line) = none := by
    rw [← Option.not_isSome_iff_eq_none]
    intro hinit
    rw [isComment_of_initPayload? hinit] at hcomment
    exact absurd hcomment (by decide)
  rw [Progress.read_of_plain d h hplain, hcomment, if_neg Bool.false_ne_true,
    Progress.readStatements, hsome, if_neg Bool.false_ne_true, if_pos hstart]

theorem isNoteEnd_trim (line : List Char) : isNoteEnd (trim line) = isNoteEnd line := by
  rw [isNoteEnd, Text.words_trim, isNoteEnd]

/-- A note goes on over lines that do not close it. -/
theorem Progress.foldl_read_of_inNote {p : Progress} (h : p.inNote = true)
    {body : List (List Char)} (hbody : ∀ line ∈ body, isNoteEnd line = false) :
    body.foldl (Progress.read d) p = p := by
  induction body with
  | nil => rfl
  | cons line rest ih =>
    have hopen : isNoteEnd line = false := hbody line List.mem_cons_self
    have hone : p.read d line = p := by
      rw [Progress.read_of_inNote d h, isNoteEnd_trim, hopen, Bool.not_false, ← h]
    rw [List.foldl_cons, hone]
    exact ih fun l hl => hbody l (List.mem_cons_of_mem line hl)

/-- Outside notes a reading is after lines that say nothing where it was before them. -/
theorem Aside.foldl_read {inserted : List (List Char)} (h : Aside inserted) {p : Progress}
    (hp : p.inNote = false) : inserted.foldl (Progress.read d) p = p := by
  have hsame : { p with inNote := false } = p := by rw [← hp]
  cases h with
  | blank hblank => exact p.read_blank d (Text.trim_blanks hblank)
  | comment hcomment hplain =>
    rw [List.foldl_cons, List.foldl_nil, Progress.read_of_plain d hp hplain, if_pos hcomment]
  | wholeNote hnote =>
    rw [List.foldl_cons, List.foldl_nil, Progress.read_of_isNoteStart hp hnote.isNoteStart,
      hnote.isWholeNote, Bool.not_true, hsame]
  | @note opening closing body hopening hbody hclosing =>
    have hopened : p.read d opening = { p with inNote := true } := by
      rw [Progress.read_of_isNoteStart hp hopening.positioned.isNoteStart,
        hopening.isWholeNote, Bool.not_false]
    rw [List.foldl_cons, hopened, List.foldl_append, Progress.foldl_read_of_inNote rfl hbody,
      List.foldl_cons, List.foldl_nil, Progress.read_of_inNote d rfl, isNoteEnd_trim, hclosing,
      Bool.not_true]
    exact hsame

/-- Three changes to a source leave its reading as it is: lines that say nothing put in where it is
not in a note, other blanks around its lines, and line feeds with or without carriage returns. -/
theorem readWith_asides (t : Theme) (source : String) :
    (∀ before inserted after, rows source.toList = before ++ after →
      (progressAfter (.ofTheme t) before).inNote = false → Aside inserted →
      (∀ row ∈ inserted, '\n' ∉ row) →
        readWith t (String.ofList (ofRows (before ++ inserted ++ after))) = readWith t source) ∧
    (∀ other : String, (rows other.toList).map trim = (rows source.toList).map trim →
      readWith t other = readWith t source) ∧
    (∀ other : String, Text.withoutReturns other.toList = Text.withoutReturns source.toList →
      readWith t other = readWith t source) := by
  refine ⟨?_, ?_, ?_⟩
  · intro before inserted after hsource houtside haside hrows
    have hkept : ∀ row ∈ before ++ after, '\n' ∉ row := by
      rw [← hsource]
      exact fun row => Text.newline_not_mem_of_mem_rows
    obtain ⟨hbefore, hafter⟩ := List.forall_mem_append.1 hkept
    have hall : ∀ row ∈ before ++ inserted ++ after, '\n' ∉ row :=
      List.forall_mem_append.2 ⟨List.forall_mem_append.2 ⟨hbefore, hrows⟩, hafter⟩
    rw [readWith_ofRows t hall, readWith_eq_progressAfter, hsource, progressAfter_append,
      progressAfter_append, haside.foldl_read houtside, progressAfter_append]
  · intro other hsame
    rw [readWith_eq_progressAfter, readWith_eq_progressAfter, progressAfter_congr _ hsame]
  · intro other hsame
    have hrows := Text.map_trim_rows_withoutReturns other.toList
    rw [hsame, Text.map_trim_rows_withoutReturns] at hrows
    rw [readWith_eq_progressAfter, readWith_eq_progressAfter, progressAfter_congr _ hrows.symm]

theorem noteOfStatements_unread :
    readWith .standard "A --> B\nNote  left of A\n  subgraph S\n  B --> Z\n END note\nC" =
        readWith .standard "A --> B\nC" ∧
      readWith .standard "  A --> B \n\tC" = readWith .standard "A --> B\nC" ∧
      readWith .standard "A --> B\r\nC" = readWith .standard "A --> B\nC" := by
  obtain ⟨hinsert, hblanks, hreturns⟩ := readWith_asides .standard "A --> B\nC"
  have hopening : OpensNote "Note  left of A".toList :=
    ⟨⟨"Note".toList, "left".toList, ["of".toList, "A".toList], by decide +kernel, by decide,
      by decide⟩, by decide⟩
  have hbody : ∀ line ∈ ["  subgraph S".toList, "  B --> Z".toList], isNoteEnd line = false := by
    decide +kernel
  have hclosing : isNoteEnd " END note".toList = true := by decide +kernel
  have hread := hinsert ["A --> B".toList] _ ["C".toList] (by decide +kernel) (by decide +kernel)
    (.note hopening hbody hclosing) (by decide +kernel)
  exact ⟨hread, hblanks _ (by decide +kernel), hreturns _ (by decide +kernel)⟩

end Flowchart.Source
