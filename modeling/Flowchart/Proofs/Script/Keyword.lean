import Flowchart.Proofs.Script.Reading
import Flowchart.Source.Document

namespace Flowchart.Script

open Source

def Parted (s : List Char) : Prop := ∀ c ∈ s.head?, isNameChar c = false

theorem parted_wrapper {w : Wrapper} (hw : w ∈ wrappers) (t : List Char) :
    Parted (w.opening ++ t) := by
  obtain ⟨c, r, hprint, hopener⟩ := exists_opener hw t
  intro a ha
  rw [hprint, List.head?_cons, Option.mem_some_iff] at ha
  rw [← ha, ← Bool.not_eq_true]
  exact fun hname => absurd hopener (by simp [isShapeOpener_of_isNameChar hname])

theorem parted_quoted {w : Wrapper} (hw : w ∈ wrappers) (s t : List Char) :
    Parted (quoted w s ++ t) := by
  have hform : quoted w s ++ t = w.opening ++ ('"' :: s ++ '"' :: w.closing ++ t) := by
    simp [quoted]
  exact hform ▸ parted_wrapper hw _

theorem parted_blank (s : List Char) : Parted (' ' :: s) := by
  intro c hc
  obtain rfl : ' ' = c := by simpa using hc
  rfl

/-- After a word either nothing is left of a text that begins with another name, or the name goes
on. -/
theorem afterWord?_of_ne {word name rest : List Char} (hword : ∀ c ∈ word, isNameChar c = true)
    (hname : ∀ c ∈ name, isNameChar c = true) (hrest : Parted rest) (hne : word ≠ name) :
    afterWord? word (name ++ rest) = none ∨
      ∃ c r, afterWord? word (name ++ rest) = some (c :: r) ∧ isNameChar c = true := by
  unfold afterWord?
  -- word and name are read side by side until they part or one of them ends
  induction word generalizing name with
  | nil =>
    obtain ⟨c, r, rfl⟩ := List.exists_cons_of_ne_nil (Ne.symm hne)
    exact .inr ⟨c, r ++ rest, rfl, hname c List.mem_cons_self⟩
  | cons a word ih =>
    cases name with
    | nil =>
      refine .inl ?_
      cases rest with
      | nil => rfl
      | cons b rest =>
        have hab : a ≠ b := by
          rintro rfl
          exact absurd (hword a List.mem_cons_self) (by simp [hrest a rfl])
        simp [List.isPrefixOf?, hab]
    | cons b name =>
      by_cases hab : a = b
      · subst hab
        have htail : word ≠ name := fun h => hne (congrArg (a :: ·) h)
        have ih := ih (fun c hc => hword c (List.mem_cons_of_mem a hc))
          (fun c hc => hname c (List.mem_cons_of_mem a hc)) htail
        simpa [List.isPrefixOf?] using ih
      · exact .inl (by simp [List.isPrefixOf?, hab])

section Names

variable (x : Name) {rest : List Char}

theorem afterWord?_keyword {word : List Char} (hword : word ∈ keywords) (hrest : Parted rest) :
    afterWord? word (x.chars ++ rest) = none ∨
      ∃ c r, afterWord? word (x.chars ++ rest) = some (c :: r) ∧ Text.isBlank c = false := by
  have hlegal : ∀ word ∈ keywords, word.all isNameChar = true := by decide
  have hne : word ≠ x.chars := fun h => x.free (h ▸ hword)
  have hwordLegal := List.all_eq_true.1 (hlegal word hword)
  rcases afterWord?_of_ne hwordLegal x.legal hrest hne with hnone | ⟨c, r, hsome, hc⟩
  · exact .inl hnone
  · exact .inr ⟨c, r, hsome, isBlank_of_isNameChar hc⟩

theorem afterKeyword?_name (keyword : String) (hword : keyword.toList ∈ keywords)
    (hrest : Parted rest) : afterKeyword? keyword (x.chars ++ rest) = none := by
  rcases afterWord?_keyword x hword hrest with hnone | ⟨c, r, hsome, hc⟩
  · rw [afterKeyword?, hnone]
  · simp [afterKeyword?, hsome, hc]

theorem readSubgraph?_name (hrest : Parted rest) : readSubgraph? (x.chars ++ rest) = none := by
  have hword : "subgraph".toList ∈ keywords := by decide
  rcases afterWord?_keyword x hword hrest with hnone | ⟨c, r, hsome, hc⟩
  · rw [readSubgraph?, hnone]
  · rw [readSubgraph?, hsome]
    simp [hc]

theorem readHeader?_name (hrest : Parted rest) : readHeader? (x.chars ++ rest) = none := by
  have hflowchart : "flowchart".toList ∈ keywords := by decide
  have hgraph : "graph".toList ∈ keywords := by decide
  have hword : (afterWord? "flowchart".toList (x.chars ++ rest) <|>
      afterWord? "graph".toList (x.chars ++ rest)) = none ∨
      ∃ c r, (afterWord? "flowchart".toList (x.chars ++ rest) <|>
        afterWord? "graph".toList (x.chars ++ rest)) = some (c :: r) ∧ Text.isBlank c = false := by
    rcases afterWord?_keyword x hflowchart hrest with hnone | ⟨c, r, hsome, hc⟩
    · rw [hnone]
      exact afterWord?_keyword x hgraph hrest
    · rw [hsome]
      exact .inr ⟨c, r, rfl, hc⟩
  rcases hword with hnone | ⟨c, r, hsome, hc⟩
  · rw [readHeader?, hnone]
    rfl
  · rw [readHeader?, hsome]
    simp [Text.trimEnd_cons hc r, hc]

/-- A text that begins with a name makes the statement of a chain or of a node. -/
theorem read_name (hrest : Parted rest) :
    Statement.read (x.chars ++ rest) =
      (readChain? (x.chars ++ rest)).elim
        ((readNode? (x.chars ++ rest)).elim .nothing .node) .chain := by
  have hend : x.chars ++ rest ≠ "end".toList := by
    intro h
    have hword : "end".toList ∈ keywords := by decide
    rcases afterWord?_keyword x hword hrest with hnone | ⟨c, r, hsome, _⟩
    · rw [h] at hnone
      exact absurd hnone (by decide)
    · rw [h] at hsome
      exact absurd hsome (by simp [afterWord?, List.isPrefixOf?])
  refine Statement.read_of_unkeyed ⟨readHeader?_name x hrest, hend, readSubgraph?_name x hrest, ?_⟩
  intro keyword hkeyword
  have hlisted : ∀ keyword ∈ ["classDef", "class", "style", "linkStyle"],
      keyword.toList ∈ keywords := by decide
  exact afterKeyword?_name x keyword (hlisted keyword hkeyword) hrest

theorem isNameChar_of_toLower {c : Char} (h : c.toLower ∈ "note".toList) : isNameChar c = true := by
  unfold Char.toLower at h
  split at h
  · next hupper =>
    have hchar : isNameChar c = (decide (c.val ≥ 'A'.val ∧ c.val ≤ 'Z'.val) || c.isLower ||
        c.isDigit || c == '_') := rfl
    rw [hchar, decide_eq_true hupper, Bool.true_or, Bool.true_or, Bool.true_or]
  · have hnote : "note".toList.all isNameChar = true := by decide
    exact List.all_eq_true.1 hnote c h

/-- A text that begins with a name is no note. -/
theorem isNoteStart_name (hrest : Parted rest) : isNoteStart (x.chars ++ rest) = false := by
  obtain ⟨others, hwords⟩ := Text.words_eq (x.snug.leads.append rest)
  have hname : ∀ c ∈ x.chars, (!Text.isBlank c) = true := fun c hc => by
    simp [isBlank_of_isNameChar (x.legal c hc)]
  rw [List.takeWhile_append_of_pos hname] at hwords
  have hfirst : Text.sameFolded (x.chars ++ rest.takeWhile (!Text.isBlank ·)) "note".toList =
      false := by
    rw [← Bool.not_eq_true]
    intro hsame
    have hlower : Text.lower (x.chars ++ rest.takeWhile (!Text.isBlank ·)) = "note".toList :=
      (eq_of_beq hsame).trans (by decide)
    have hlegal : ∀ c ∈ x.chars ++ rest.takeWhile (!Text.isBlank ·), isNameChar c = true := by
      intro c hc
      refine isNameChar_of_toLower ?_
      rw [← hlower]
      exact List.mem_map_of_mem hc
    -- the first word is the name alone: a character after it would be one of the name
    cases rest with
    | nil =>
      rw [List.takeWhile_nil, List.append_nil, x.noNote] at hsame
      exact absurd hsame Bool.false_ne_true
    | cons c rest =>
      cases hblank : Text.isBlank c with
      | true =>
        rw [List.takeWhile_cons_of_neg (by simp [hblank]), List.append_nil, x.noNote] at hsame
        exact absurd hsame Bool.false_ne_true
      | false =>
        rw [List.takeWhile_cons_of_pos (by simp [hblank])] at hlegal
        have hc := hlegal c (List.mem_append_right _ List.mem_cons_self)
        rw [hrest c rfl] at hc
        exact absurd hc Bool.false_ne_true
  rw [isNoteStart, hwords]
  dsimp only
  rw [hfirst, Bool.false_and]

end Names

/-- A line whose first word begins with another letter than `note` is no note. -/
theorem isNoteStart_of_head {c : Char} {s : List Char} (hblank : Text.isBlank c = false)
    (hc : c.toLower ≠ 'n') : isNoteStart (c :: s) = false := by
  obtain ⟨others, hwords⟩ := Text.words_eq ⟨c, s, rfl, hblank⟩
  rw [isNoteStart, hwords, List.takeWhile_cons_of_pos (by simp [hblank])]
  simp [Text.sameFolded, Text.lower, hc]

end Flowchart.Script
