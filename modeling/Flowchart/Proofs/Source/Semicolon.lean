import Flowchart.Proofs.Source.Aside
import Flowchart.Proofs.Source.Scan

/-! A statement that closes what it opens leaves the nesting neutral, so a semicolon behind it is
shown and the next statement is read as if it stood on a line of its own. The comment and the first
word are looked for in the whole line, and neither comes out of statements that have none. -/
namespace Flowchart.Source

open Text (isBlank trim ofRows rows words)

/-- A text for one statement, wherever it stands on its line. -/
structure Separable (s : List Char) : Prop where
  visible : ∃ c ∈ s, isBlank c = false
  oneLine : '\n' ∉ s
  /-- Quotes, pipes and brackets are closed, and no semicolon is outside of them. -/
  whole : (shownScanner (· != ';')).Still .neutral s
  /-- No two percent signs in a row are outside quotes. -/
  uncommented : (commentScanner.run? {} s).isSome = true
  noNote : ∀ w ∈ (words s).head?, Text.sameFolded w "note".toList = false

def onOneLine (found : List (List Char)) : List Char := Text.join [';', ' '] found

theorem onOneLine_singleton (s : List Char) : onOneLine [s] = s := by
  simp [onOneLine, Text.join]

theorem onOneLine_cons (s : List Char) {rest : List (List Char)} (hne : rest ≠ []) :
    onOneLine (s :: rest) = s ++ ';' :: ' ' :: onOneLine rest := by
  obtain ⟨t, rest, rfl⟩ := List.exists_cons_of_ne_nil hne
  rfl

section Statements

variable {n m : Nesting} {s : List Char}

/-- A shown semicolon ends a statement, and the rest of the line is read from the same nesting. -/
theorem statementsFrom_append_cons (h : (shownScanner (· != ';')).run? n s = some m)
    (hshown : m.shows ';' = true) (current t : List Char) :
    statementsFrom n current (s ++ ';' :: t) =
      statementsFrom.close (s.reverse ++ current) (statementsFrom m [] t) := by
  induction s generalizing n current with
  | nil =>
    obtain rfl := Option.some.inj h
    rw [List.nil_append, statementsFrom, if_pos ⟨rfl, hshown⟩]
    rfl
  | cons c s ih =>
    obtain ⟨hfine, hrest⟩ := Scanner.run?_cons_eq_some h
    have hc : ¬ (c = ';' ∧ n.shows c) := by
      rintro ⟨rfl, hc⟩
      simpa using of_shows hfine hc
    have ih : statementsFrom (n.next c) (c :: current) (s ++ ';' :: t) = _ :=
      ih hrest (c :: current)
    rw [List.cons_append, statementsFrom, if_neg hc, ih, List.reverse_cons, List.append_assoc]
    rfl

theorem next_of_isBlank {c : Char} (hc : isBlank c = true) (n : Nesting) : n.next c = n := by
  have hne {d : Char} (hd : isBlank d = false) : c ≠ d := Text.ne_of_isBlank hc hd
  obtain ⟨quoted, piped, depth⟩ := n
  cases quoted <;> cases piped <;>
    simp [Nesting.next, isOpener, isCloser, hne (d := '"') rfl, hne (d := '|') rfl,
      hne (d := '[') rfl, hne (d := '(') rfl, hne (d := '\x7b') rfl, hne (d := ']') rfl,
      hne (d := ')') rfl, hne (d := '\x7d') rfl]

theorem close_congr {a b : List Char} (h : trim a.reverse = trim b.reverse)
    (others : List (List Char)) : statementsFrom.close a others = statementsFrom.close b others := by
  rw [statementsFrom.close, h, statementsFrom.close]

/-- Blanks in front of a statement do not count. -/
theorem statementsFrom_blanks_before {b : List Char} (hb : ∀ c ∈ b, isBlank c = true)
    (current : List Char) :
    statementsFrom n (current ++ b.reverse) s = statementsFrom n current s := by
  have hclose (t : List Char) : trim (t ++ b.reverse).reverse = trim t.reverse := by
    rw [List.reverse_append, List.reverse_reverse, trim, Text.trimStart,
      List.dropWhile_append_of_pos hb]
    rfl
  induction s generalizing n current with
  | nil =>
    apply close_congr
    exact hclose current
  | cons c s ih =>
    rw [statementsFrom, statementsFrom]
    split
    · apply close_congr
      exact hclose current
    · exact ih (c :: current)

/-- Nor do blanks at the end of the line. -/
theorem statementsFrom_blanks_after {b : List Char} (hb : ∀ c ∈ b, isBlank c = true)
    (current : List Char) :
    statementsFrom n current (s ++ b) = statementsFrom n current s := by
  induction s generalizing n current with
  | nil =>
    -- blanks alone are put on the last statement, which is trimmed when it is closed
    have hblanks : statementsFrom n current b = statementsFrom.close (b.reverse ++ current) [] := by
      apply statementsFrom_of_run? current (m := n)
      apply Scanner.still_of_forall
      intro c hc
      have hsemicolon : c ≠ ';' := Text.ne_of_isBlank (hb c hc) rfl
      exact ⟨by simp [shownScanner, hsemicolon], next_of_isBlank (hb c hc) n⟩
    rw [List.nil_append, hblanks]
    apply close_congr
    rw [List.reverse_append, List.reverse_reverse]
    exact Text.trim_append_blanks hb current.reverse
  | cons c s ih =>
    rw [List.cons_append, statementsFrom, statementsFrom]
    split
    · rw [ih]
    · exact ih (c :: current)

theorem statements_blanks_append {b : List Char} (hb : ∀ c ∈ b, isBlank c = true) :
    statements (b ++ s) = statements s := by
  unfold statements
  induction b with
  | nil => rfl
  | cons c b ih =>
    have hrest := ih fun d hd => hb d (List.mem_cons_of_mem c hd)
    have hc : isBlank c = true := hb c List.mem_cons_self
    have hsemicolon : ¬ (c = ';' ∧ Nesting.neutral.shows c) :=
      fun h => Text.ne_of_isBlank hc rfl h.1
    have hfirst := statementsFrom_blanks_before (n := .neutral) (s := b ++ s)
      (List.forall_mem_singleton.2 hc) []
    rw [List.cons_append, statementsFrom, if_neg hsemicolon, next_of_isBlank hc, ← hrest]
    exact hfirst

theorem statements_trim (s : List Char) : statements (trim s) = statements s := by
  obtain ⟨a, b, hs, ha, hb⟩ := Text.exists_trim s
  calc statements (trim s)
    _ = statements (a ++ trim s) := (statements_blanks_append ha).symm
    _ = statements (a ++ trim s ++ b) := (statementsFrom_blanks_after hb []).symm
    _ = statements s := by rw [← hs]

end Statements

namespace Separable

variable {s : List Char} {found : List (List Char)}

theorem close_eq (h : Separable s) (others : List (List Char)) :
    statementsFrom.close (s.reverse ++ []) others = trim s :: others := by
  have hne : (trim s).isEmpty = false := by simpa using Text.trim_ne_nil h.visible
  rw [statementsFrom.close, List.append_nil, List.reverse_reverse, hne,
    if_neg Bool.false_ne_true]

/-- The statements of a line are those that were put on it. -/
theorem statements_onOneLine (h : ∀ s ∈ found, Separable s) :
    statements (onOneLine found) = found.map trim := by
  induction found with
  | nil => rfl
  | cons s rest ih =>
    have hs := h s List.mem_cons_self
    have hrest := ih fun t ht => h t (List.mem_cons_of_mem s ht)
    by_cases hne : rest = []
    · subst hne
      rw [onOneLine_singleton, statements, statementsFrom_of_run? [] hs.whole, hs.close_eq]
      rfl
    · rw [onOneLine_cons s hne, statements, statementsFrom_append_cons hs.whole rfl, hs.close_eq,
        List.map_cons, ← hrest]
      exact congrArg (trim s :: ·)
        (statements_blanks_append (b := [' ']) (List.forall_mem_singleton.2 rfl))

theorem statements_eq (h : Separable s) : statements s = [trim s] := by
  have hone := statements_onOneLine (List.forall_mem_singleton.2 h)
  rw [onOneLine_singleton] at hone
  exact hone

/-- Both scanners mind quotes in the same way. -/
theorem quoted_eq {n m : Nesting} {k l : CommentState} {p : Char → Bool}
    (hquoted : n.quoted = k.quoted) (hn : (shownScanner p).run? n s = some m)
    (hk : commentScanner.run? k s = some l) : m.quoted = l.quoted := by
  induction s generalizing n k with
  | nil =>
    obtain rfl := Option.some.inj hn
    obtain rfl := Option.some.inj hk
    exact hquoted
  | cons c s ih =>
    obtain ⟨-, hn⟩ := Scanner.run?_cons_eq_some hn
    obtain ⟨-, hk⟩ := Scanner.run?_cons_eq_some hk
    refine ih ?_ hn hk
    simp only [shownScanner, Nesting.next, commentScanner, hquoted]
    cases hk : k.quoted with
    | true => rfl
    | false =>
      rw [hk] at hquoted
      by_cases hc : c = '"'
      · simp [hc]
      · simp only [hc, Bool.false_eq_true, if_false, beq_false_of_ne hc]
        split_ifs
        all_goals first | exact hquoted | rfl

theorem exists_uncommented (h : Separable s) :
    ∃ percent, commentScanner.run? {} s = some ⟨false, percent⟩ := by
  obtain ⟨⟨quoted, percent⟩, hrun⟩ := Option.isSome_iff_exists.1 h.uncommented
  have hquoted : false = quoted := quoted_eq rfl h.whole hrun
  exact ⟨percent, hquoted ▸ hrun⟩

theorem uncommented_onOneLine (h : ∀ s ∈ found, Separable s) :
    (commentScanner.run? {} (onOneLine found)).isSome = true := by
  induction found with
  | nil => rfl
  | cons s rest ih =>
    have hs := h s List.mem_cons_self
    have hrest := ih fun t ht => h t (List.mem_cons_of_mem s ht)
    by_cases hne : rest = []
    · subst hne
      rw [onOneLine_singleton]
      exact hs.uncommented
    · obtain ⟨percent, hrun⟩ := hs.exists_uncommented
      obtain ⟨l, hl⟩ := Option.isSome_iff_exists.1 hrest
      -- a semicolon parts percent signs, too
      have hmark : commentScanner.run? ⟨false, percent⟩ [';', ' '] = some {} := by
        cases percent <;> rfl
      have hall := Scanner.run?_append hrun (Scanner.run?_append hmark hl)
      rw [onOneLine_cons s hne, Option.isSome_iff_exists]
      exact ⟨l, hall⟩

theorem sameFolded_concat_ne (w : List Char) :
    Text.sameFolded (w ++ [';']) "note".toList = false := by
  rw [← Bool.not_eq_true]
  intro hsame
  have hlower : Text.lower w ++ [';'] = ['n', 'o', 't'] ++ ['e'] := by
    simpa [Text.sameFolded, Text.lower] using hsame
  have hlast := (List.append_inj' hlower rfl).2
  exact absurd hlast (by decide)

theorem noNote_onOneLine (h : ∀ s ∈ found, Separable s) :
    ∀ w ∈ (words (onOneLine found)).head?, Text.sameFolded w "note".toList = false := by
  cases found with
  | nil =>
    intro w hw
    exact absurd hw (by simp [onOneLine, Text.join, words])
  | cons s rest =>
    have hs := h s List.mem_cons_self
    by_cases hne : rest = []
    · subst hne
      rw [onOneLine_singleton]
      exact hs.noNote
    obtain ⟨c, hc, hvisible⟩ := hs.visible
    obtain ⟨first, hfirst, _⟩ := Text.mem_words hvisible hc
    obtain ⟨w, others, hwords⟩ := List.exists_cons_of_ne_nil (List.ne_nil_of_mem hfirst)
    obtain ⟨a, r, rfl, ha, hw, hletters, hr, -⟩ := Text.words_eq_cons_iff.1 hwords
    have hnote : Text.sameFolded w "note".toList = false := hs.noNote w (by rw [hwords]; rfl)
    rw [onOneLine_cons _ hne]
    cases r with
    -- without a blank in the statement the semicolon belongs to its first word
    | nil =>
      have hjoin : a ++ w ++ [] ++ ';' :: ' ' :: onOneLine rest =
          a ++ (w ++ [';']) ++ ' ' :: onOneLine rest := by simp
      have hmore : ∀ d ∈ w ++ [';'], isBlank d = false :=
        List.forall_mem_append.2 ⟨hletters, List.forall_mem_singleton.2 rfl⟩
      have hblank : ∀ d, (' ' :: onOneLine rest).head? = some d → isBlank d = true := by
        intro d hd
        obtain rfl := Option.some.inj hd
        rfl
      rw [hjoin, Text.words_append_word ha (by simp) hmore hblank]
      intro v hv
      obtain rfl : w ++ [';'] = v := by simpa using hv
      exact sameFolded_concat_ne w
    | cons d r =>
      have hjoin : a ++ w ++ d :: r ++ ';' :: ' ' :: onOneLine rest =
          a ++ w ++ d :: (r ++ ';' :: ' ' :: onOneLine rest) := by simp
      have hblank : ∀ e, (d :: (r ++ ';' :: ' ' :: onOneLine rest)).head? = some e →
          isBlank e = true := hr
      rw [hjoin, Text.words_append_word ha hw hletters hblank]
      intro v hv
      obtain rfl : w = v := by simpa using hv
      exact hnote

end Separable

/-- The blanks in front of a line do not disturb the scanner, so it reads over what trimming
leaves. -/
theorem exists_run?_trim {line : List Char} (h : (commentScanner.run? {} line).isSome = true) :
    ∃ l, commentScanner.run? {} (trim line) = some l := by
  obtain ⟨a, b, hline, ha, -⟩ := Text.exists_trim line
  obtain ⟨k, hk⟩ := Option.isSome_iff_exists.1 h
  have hblanks : commentScanner.Still {} a := by
    apply Scanner.still_of_forall
    intro c hc
    have hquote : c ≠ '"' := Text.ne_of_isBlank (ha c hc) rfl
    have hsign : c ≠ '%' := Text.ne_of_isBlank (ha c hc) rfl
    simp [commentScanner, hquote, hsign]
  rw [hline, List.append_assoc] at hk
  obtain ⟨m, hm, hrest⟩ := Scanner.exists_run?_of_append hk
  obtain rfl : {} = m := Option.some.inj (hblanks.symm.trans hm)
  obtain ⟨l, hl, -⟩ := Scanner.exists_run?_of_append hrest
  exact ⟨l, hl⟩

/-- Outside notes, a line without comments whose first word is not `note` makes its statements. -/
theorem Progress.read_statements (d : Defaults) {p : Progress} (hp : p.inNote = false)
    {line : List Char} (huncommented : (commentScanner.run? {} line).isSome = true)
    (hnote : ∀ w ∈ (words line).head?, Text.sameFolded w "note".toList = false) :
    p.read d line = { p with
      state := (statements line).foldl (fun s piece => s.apply d (Statement.read piece)) p.state } := by
  obtain ⟨l, hrun⟩ := exists_run?_trim huncommented
  have hdrop : withoutComment (trim line) = trim line := by
    have hwhole : dropComment false (trim line) = trim line := dropComment_of_run? hrun
    rw [withoutComment, hwhole, Text.trim_trim]
  have hcomment : isComment (trim line) = false := by
    rw [← Bool.not_eq_true]
    intro hsigns
    obtain ⟨r, hr⟩ := List.isPrefixOf_iff_prefix.1 hsigns
    rw [← hr] at hrun
    exact absurd hrun (by simp [Scanner.run?, commentScanner])
  have hplain : initPayload? (trim line) = none := by
    rw [← Option.not_isSome_iff_eq_none]
    intro hinit
    rw [isComment_of_initPayload? hinit] at hcomment
    exact absurd hcomment (by decide)
  have hstart : isNoteStart (trim line) = false := by
    rw [isNoteStart, Text.words_trim]
    cases hwords : words line with
    | nil => rfl
    | cons w others =>
      have hw : Text.sameFolded w "note".toList = false := hnote w (by rw [hwords]; rfl)
      dsimp only
      rw [hw, Bool.false_and]
  rw [Progress.read_of_plain d hp hplain, hcomment, if_neg Bool.false_ne_true,
    Progress.readStatements, hdrop, hstart, statements_trim]
  split
  · next hempty =>
    have hnone : statements line = [] := by
      rw [← statements_trim, List.isEmpty_iff.1 hempty]
      rfl
    rw [hnone]
    rfl
  · rfl

/-- Lines with one statement each are read as their statements are read on one line. -/
theorem foldl_read_separable (d : Defaults) {p : Progress} (hp : p.inNote = false)
    {found : List (List Char)} (h : ∀ s ∈ found, Separable s) :
    found.foldl (Progress.read d) p = p.read d (onOneLine found) := by
  have hline := Progress.read_statements d hp (Separable.uncommented_onOneLine h)
    (Separable.noNote_onOneLine h)
  rw [hline, Separable.statements_onOneLine h, List.foldl_map]
  clear hline
  induction found generalizing p with
  | nil => rfl
  | cons s rest ih =>
    have hs := h s List.mem_cons_self
    have hread := Progress.read_statements d hp hs.uncommented hs.noNote
    rw [hs.statements_eq, List.foldl_cons, List.foldl_nil] at hread
    rw [List.foldl_cons, List.foldl_cons, hread]
    exact ih hp fun t ht => h t (List.mem_cons_of_mem s ht)

/-- Statements with a semicolon and a blank between neighbours say the same as statements on lines of
their own. -/
theorem readWith_onOneLine (t : Theme) {found : List (List Char)} (h : ∀ s ∈ found, Separable s) :
    readWith t (String.ofList (onOneLine found)) = readWith t (String.ofList (ofRows found)) := by
  have hbreak : '\n' ∉ onOneLine found := by
    intro hmem
    rcases Text.mem_join hmem with hmark | ⟨s, hs, hbreak⟩
    · exact absurd hmark (by decide)
    · exact (h s hs).oneLine hbreak
  have hone : onOneLine found = ofRows [onOneLine found] := (onOneLine_singleton _).symm
  rw [readWith_ofRows t fun s hs => (h s hs).oneLine, hone,
    readWith_ofRows t (List.forall_mem_singleton.2 hbreak)]
  exact congrArg Progress.document (foldl_read_separable (.ofTheme t) rfl h).symm

/-- Semicolons and percent signs in labels part nothing. -/
theorem labelledLinks_onOneLine :
    readWith .standard "A[\"x; y %% z\"] -->|p;q| B; style A fill:#f00 ; noted --- A" =
      readWith .standard "A[\"x; y %% z\"] -->|p;q| B\nstyle A fill:#f00 \nnoted --- A" := by
  have hchain : Separable "A[\"x; y %% z\"] -->|p;q| B".toList :=
    ⟨⟨'A', by decide, rfl⟩, by decide, by decide +kernel, by decide +kernel, by decide +kernel⟩
  have hstyle : Separable "style A fill:#f00 ".toList :=
    ⟨⟨'s', by decide, rfl⟩, by decide, by decide +kernel, by decide +kernel, by decide +kernel⟩
  have hlink : Separable "noted --- A".toList :=
    ⟨⟨'n', by decide, rfl⟩, by decide, by decide +kernel, by decide +kernel, by decide +kernel⟩
  have hread := readWith_onOneLine .standard (List.forall_mem_cons.2
    ⟨hchain, List.forall_mem_cons.2 ⟨hstyle, List.forall_mem_singleton.2 hlink⟩⟩)
  have hone : String.ofList (onOneLine ["A[\"x; y %% z\"] -->|p;q| B".toList,
      "style A fill:#f00 ".toList, "noted --- A".toList]) =
      "A[\"x; y %% z\"] -->|p;q| B; style A fill:#f00 ; noted --- A" := by
    decide +kernel
  have hlines : String.ofList (ofRows ["A[\"x; y %% z\"] -->|p;q| B".toList,
      "style A fill:#f00 ".toList, "noted --- A".toList]) =
      "A[\"x; y %% z\"] -->|p;q| B\nstyle A fill:#f00 \nnoted --- A" := by
    decide +kernel
  rw [hone, hlines] at hread
  exact hread

end Flowchart.Source
