import Flowchart.Text.Pieces
import Mathlib.Data.List.TakeWhile

namespace Flowchart.Text

def Leads (s : List Char) : Prop := ∃ c r, s = c :: r ∧ isBlank c = false

def Closes (s : List Char) : Prop := ∃ r c, s = r ++ [c] ∧ isBlank c = false

/-- The text has neither blanks in front nor at its end, and it is not empty. -/
structure Snug (s : List Char) : Prop where
  leads : Leads s
  closes : Closes s

theorem ne_of_isBlank {c d : Char} (hc : isBlank c = true) (hd : isBlank d = false) : c ≠ d := by
  rintro rfl
  rw [hc] at hd
  exact absurd hd (by decide)

theorem Leads.append {s : List Char} (h : Leads s) (t : List Char) : Leads (s ++ t) := by
  obtain ⟨c, r, rfl, hc⟩ := h
  exact ⟨c, r ++ t, rfl, hc⟩

theorem Closes.append {t : List Char} (h : Closes t) (s : List Char) : Closes (s ++ t) := by
  obtain ⟨r, c, rfl, hc⟩ := h
  exact ⟨s ++ r, c, (List.append_assoc s r [c]).symm, hc⟩

theorem Closes.cons {t : List Char} (h : Closes t) (c : Char) : Closes (c :: t) := h.append [c]

/-- What closes goes on to close when texts that close follow. -/
theorem Closes.append_flatMap {α : Type} {s : List Char} {parts : List α} {f : α → List Char}
    (hs : Closes s) (h : ∀ a ∈ parts, Closes (f a)) : Closes (s ++ parts.flatMap f) := by
  induction parts generalizing s with
  | nil => simpa using hs
  | cons a rest ih =>
    rw [List.flatMap_cons, ← List.append_assoc]
    exact ih ((h a List.mem_cons_self).append s) fun b hb => h b (List.mem_cons_of_mem a hb)

theorem Closes.getLast? {s : List Char} (h : Closes s) :
    ∃ c, s.getLast? = some c ∧ isBlank c = false := by
  obtain ⟨r, c, rfl, hc⟩ := h
  exact ⟨c, List.getLast?_concat, hc⟩

theorem snug_of_forall {s : List Char} (hne : s ≠ []) (h : ∀ c ∈ s, isBlank c = false) :
    Snug s := by
  constructor
  · obtain ⟨c, r, rfl⟩ := List.exists_cons_of_ne_nil hne
    exact ⟨c, r, rfl, h c List.mem_cons_self⟩
  · refine ⟨s.dropLast, s.getLast hne, (List.dropLast_concat_getLast hne).symm, ?_⟩
    exact h _ (List.getLast_mem hne)

theorem Snug.ne_nil {s : List Char} (h : Snug s) : s ≠ [] := by
  obtain ⟨c, r, rfl, _⟩ := h.leads
  exact List.cons_ne_nil c r

theorem trimStart_append {a s : List Char} (ha : ∀ c ∈ a, isBlank c = true) (hs : Leads s) :
    trimStart (a ++ s) = s := by
  obtain ⟨c, r, rfl, hc⟩ := hs
  rw [trimStart, List.dropWhile_append_of_pos ha]
  simp [hc]

theorem trimEnd_append_cons {c : Char} (hc : isBlank c = false) (s t : List Char) :
    trimEnd (s ++ c :: t) = s ++ c :: trimEnd t := by
  have hreverse : (s ++ c :: t).reverse = t.reverse ++ c :: s.reverse := by simp
  rw [trimEnd, hreverse, List.dropWhile_append]
  split
  · next hblank =>
    have hnil : trimEnd t = [] := by rw [trimEnd, List.isEmpty_iff.1 hblank, List.reverse_nil]
    rw [List.dropWhile_cons_of_neg (by simp [hc]), hnil]
    simp
  · simp [trimEnd]

theorem trimEnd_append_blanks {b : List Char} (hb : ∀ c ∈ b, isBlank c = true) (s : List Char) :
    trimEnd (s ++ b) = trimEnd s := by
  have hblank : ∀ c ∈ b.reverse, isBlank c = true := fun c h => hb c (List.mem_reverse.1 h)
  rw [trimEnd, List.reverse_append, List.dropWhile_append_of_pos hblank, trimEnd]

theorem trimEnd_append {s b : List Char} (hb : ∀ c ∈ b, isBlank c = true) (hs : Closes s) :
    trimEnd (s ++ b) = s := by
  obtain ⟨r, c, rfl, hc⟩ := hs
  rw [trimEnd_append_blanks hb, trimEnd_append_cons hc]
  rfl

/-- Trimming takes blanks around a snug text away. -/
theorem trim_pad {a s b : List Char} (ha : ∀ c ∈ a, isBlank c = true)
    (hb : ∀ c ∈ b, isBlank c = true) (hs : Snug s) : trim (a ++ s ++ b) = s := by
  rw [trim, List.append_assoc, trimStart_append ha (hs.leads.append b), trimEnd_append hb hs.closes]

/-- What follows a snug text loses only its own end. -/
theorem trim_append_snug {a s : List Char} (ha : ∀ c ∈ a, isBlank c = true) (hs : Snug s)
    (t : List Char) : trim (a ++ s ++ t) = s ++ trimEnd t := by
  rw [trim, List.append_assoc, trimStart_append ha (hs.leads.append t)]
  obtain ⟨r, c, rfl, hc⟩ := hs.closes
  rw [List.append_assoc, List.singleton_append, trimEnd_append_cons hc]
  simp

theorem Snug.trim {s : List Char} (hs : Snug s) : trim s = s := by
  have hpad := trim_pad (a := []) (b := []) (by simp) (by simp) hs
  simpa using hpad

theorem trimEnd_cons {c : Char} (hc : isBlank c = false) (s : List Char) :
    trimEnd (c :: s) = c :: trimEnd s := trimEnd_append_cons hc [] s

theorem trim_blanks {s : List Char} (hs : ∀ c ∈ s, isBlank c = true) : trim s = [] := by
  rw [trim, trimStart, List.dropWhile_eq_nil_iff.2 hs]
  rfl

theorem trim_append_blanks {b : List Char} (hb : ∀ c ∈ b, isBlank c = true) (s : List Char) :
    trim (s ++ b) = trim s := by
  rw [trim, trim, trimStart, trimStart, List.dropWhile_append]
  split
  · next hs => rw [List.dropWhile_eq_nil_iff.2 hb, List.isEmpty_iff.1 hs]
  · exact trimEnd_append_blanks hb _

theorem exists_trimStart (s : List Char) :
    ∃ b, (∀ c ∈ b, isBlank c = true) ∧ s = b ++ trimStart s :=
  ⟨s.takeWhile isBlank, fun _ hc => List.mem_takeWhile_imp hc,
    List.takeWhile_append_dropWhile.symm⟩

theorem exists_trimEnd (s : List Char) :
    ∃ b, (∀ c ∈ b, isBlank c = true) ∧ s = trimEnd s ++ b := by
  refine ⟨(s.reverse.takeWhile isBlank).reverse, ?_, ?_⟩
  · exact fun c hc => List.mem_takeWhile_imp (List.mem_reverse.1 hc)
  · rw [trimEnd, ← List.reverse_append, List.takeWhile_append_dropWhile, List.reverse_reverse]

/-- What trimming takes away is blank. -/
theorem exists_trim (s : List Char) :
    ∃ a b, s = a ++ trim s ++ b ∧ (∀ c ∈ a, isBlank c = true) ∧ ∀ c ∈ b, isBlank c = true := by
  obtain ⟨a, ha, hstart⟩ := exists_trimStart s
  obtain ⟨b, hb, hend⟩ := exists_trimEnd (trimStart s)
  refine ⟨a, b, ?_, ha, hb⟩
  rw [trim, List.append_assoc, ← hend]
  exact hstart

theorem leads_trimStart {s : List Char} (h : trimStart s ≠ []) : Leads (trimStart s) := by
  obtain ⟨c, r, hcons⟩ := List.exists_cons_of_ne_nil h
  have hhead := List.head?_dropWhile_not isBlank s
  rw [trimStart] at hcons ⊢
  rw [hcons] at hhead ⊢
  exact ⟨c, r, rfl, hhead⟩

theorem leads_trim {s : List Char} (h : trim s ≠ []) : Leads (trim s) := by
  have hstart : trimStart s ≠ [] := by
    intro hnil
    rw [trim, hnil] at h
    exact h rfl
  obtain ⟨c, r, hcons, hc⟩ := leads_trimStart hstart
  exact ⟨c, trimEnd r, by rw [trim, hcons, trimEnd_cons hc], hc⟩

theorem closes_trimEnd {s : List Char} (h : trimEnd s ≠ []) : Closes (trimEnd s) := by
  have hreverse : trimEnd s = (trimStart s.reverse).reverse := rfl
  have hstart : trimStart s.reverse ≠ [] := by
    intro hnil
    rw [hreverse, hnil] at h
    exact h rfl
  obtain ⟨c, r, hcons, hc⟩ := leads_trimStart hstart
  exact ⟨r.reverse, c, by rw [hreverse, hcons, List.reverse_cons], hc⟩

/-- What trimming leaves has no outer blanks, if it leaves anything. -/
theorem snug_trim {s : List Char} (h : trim s ≠ []) : Snug (trim s) := ⟨leads_trim h, closes_trimEnd h⟩

/-- Trimming again takes nothing more away. -/
theorem trim_trim (s : List Char) : trim (trim s) = trim s := by
  obtain ⟨a, b, hs, ha, hb⟩ := exists_trim s
  have hstart : trim (a ++ trim s) = trim (trim s) := by
    rw [trim, trimStart, List.dropWhile_append_of_pos ha]
    rfl
  calc trim (trim s)
    _ = trim (a ++ trim s ++ b) := by rw [trim_append_blanks hb, hstart]
    _ = trim s := by rw [← hs]

theorem trim_isInfix (s : List Char) : trim s <:+: s := by
  obtain ⟨a, b, hs, -, -⟩ := exists_trim s
  exact ⟨a, b, hs.symm⟩

theorem mem_of_mem_trim {s : List Char} {c : Char} (h : c ∈ trim s) : c ∈ s :=
  (trim_isInfix s).subset h

/-- Trimming loses no character that is not blank. -/
theorem count_trim {c : Char} (hc : isBlank c = false) (s : List Char) :
    (trim s).count c = s.count c := by
  have hnone {a : List Char} (ha : ∀ d ∈ a, isBlank d = true) : a.count c = 0 := by
    apply List.count_eq_zero_of_not_mem
    intro hmem
    exact ne_of_isBlank (ha c hmem) hc rfl
  obtain ⟨a, b, hs, ha, hb⟩ := exists_trim s
  calc (trim s).count c
    _ = (a ++ trim s ++ b).count c := by simp [List.count_append, hnone ha, hnone hb]
    _ = s.count c := by rw [← hs]

/-- A text that is not all blank leaves something when it is trimmed. -/
theorem trim_ne_nil {s : List Char} (h : ∃ c ∈ s, isBlank c = false) : trim s ≠ [] := by
  intro hnil
  obtain ⟨c, hc, hvisible⟩ := h
  obtain ⟨a, b, hs, ha, hb⟩ := exists_trim s
  rw [hs, hnil, List.append_nil] at hc
  have hblank : isBlank c = true := List.forall_mem_append.2 ⟨ha, hb⟩ c hc
  exact ne_of_isBlank hblank hvisible rfl

theorem pieces_append {p : Char → Bool} {s : List Char} (hs : ∀ c ∈ s, p c = false) (t : List Char) :
    ∃ piece rest, pieces p t = piece :: rest ∧ pieces p (s ++ t) = (s ++ piece) :: rest := by
  induction s with
  | nil =>
    obtain ⟨piece, rest, h⟩ := List.exists_cons_of_ne_nil (pieces_ne_nil p t)
    exact ⟨piece, rest, h, h⟩
  | cons c s ih =>
    obtain ⟨piece, rest, ht, hst⟩ := ih fun d hd => hs d (List.mem_cons_of_mem c hd)
    refine ⟨piece, rest, ht, ?_⟩
    rw [List.cons_append, pieces_cons, hs c List.mem_cons_self, hst]
    rfl

theorem pieces_of_forall {p : Char → Bool} {s : List Char} (hs : ∀ c ∈ s, p c = false) :
    pieces p s = [s] := by
  obtain ⟨piece, rest, hnil, h⟩ := pieces_append hs []
  obtain ⟨rfl, rfl⟩ := List.cons.inj hnil
  simpa using h

theorem attach_append {found : List (List Char)} (h : found ≠ []) (c : Char)
    (others : List (List Char)) : attach c (found ++ others) = attach c found ++ others := by
  obtain ⟨piece, rest, rfl⟩ := List.exists_cons_of_ne_nil h
  rfl

theorem pieces_append_cons {p : Char → Bool} {c : Char} (hc : p c = true) (s t : List Char) :
    pieces p (s ++ c :: t) = pieces p s ++ pieces p t := by
  induction s with
  | nil => rw [List.nil_append, pieces_cons, if_pos hc, pieces_nil, List.singleton_append]
  | cons d s ih =>
    rw [List.cons_append, pieces_cons, pieces_cons, ih]
    split
    · rfl
    · exact attach_append (pieces_ne_nil p s) d _

/-- A character that is not cut at is in one of the pieces. -/
theorem mem_pieces {p : Char → Bool} {c : Char} (hc : p c = false) {s : List Char} (h : c ∈ s) :
    ∃ piece ∈ pieces p s, c ∈ piece := by
  induction s with
  | nil => exact absurd h List.not_mem_nil
  | cons d s ih =>
    obtain ⟨first, rest, hcons⟩ := List.exists_cons_of_ne_nil (pieces_ne_nil p s)
    rw [pieces_cons, hcons]
    rcases List.mem_cons.1 h with rfl | hs
    · rw [if_neg (by simp [hc])]
      exact ⟨c :: first, List.mem_cons_self, List.mem_cons_self⟩
    · obtain ⟨piece, hmem, hpiece⟩ := ih hs
      rw [hcons] at hmem
      split
      · exact ⟨piece, List.mem_cons_of_mem _ hmem, hpiece⟩
      -- the character in front goes to the first piece
      · rcases List.mem_cons.1 hmem with rfl | hmem
        · exact ⟨d :: piece, List.mem_cons_self, List.mem_cons_of_mem d hpiece⟩
        · exact ⟨piece, List.mem_cons_of_mem _ hmem, hpiece⟩

theorem pieces_eq_takeWhile (p : Char → Bool) (s : List Char) :
    ∃ rest, pieces p s = s.takeWhile (!p ·) :: rest := by
  induction s with
  | nil => exact ⟨[], rfl⟩
  | cons c s ih =>
    obtain ⟨rest, hs⟩ := ih
    rw [pieces_cons]
    by_cases hc : p c = true
    · exact ⟨pieces p s, by simp [hc]⟩
    · exact ⟨rest, by simp [hc, hs, attach]⟩

/-- The first word of a text that does not begin with a blank stands before its first blank. -/
theorem words_eq {s : List Char} (h : Leads s) :
    ∃ rest, words s = s.takeWhile (!isBlank ·) :: rest := by
  obtain ⟨rest, hs⟩ := pieces_eq_takeWhile isBlank s
  obtain ⟨c, r, rfl, hc⟩ := h
  refine ⟨rest.filter (!·.isEmpty), ?_⟩
  rw [words, hs]
  simp [hc]

theorem words_append_cons {c : Char} (hc : isBlank c = true) (s t : List Char) :
    words (s ++ c :: t) = words s ++ words t := by
  rw [words, pieces_append_cons hc, List.filter_append, words, words]

theorem words_blanks_append {a : List Char} (ha : ∀ c ∈ a, isBlank c = true) (s : List Char) :
    words (a ++ s) = words s := by
  induction a with
  | nil => rfl
  | cons c a ih =>
    have hnil : words [] = [] := rfl
    rw [List.cons_append, ← List.nil_append (c :: (a ++ s)),
      words_append_cons (ha c List.mem_cons_self), hnil, List.nil_append]
    exact ih fun d hd => ha d (List.mem_cons_of_mem c hd)

/-- Blanks at the end end the last word. -/
theorem words_append_blanks {b : List Char} (hb : ∀ c ∈ b, isBlank c = true) (s : List Char) :
    words (s ++ b) = words s := by
  cases b with
  | nil => rw [List.append_nil]
  | cons c b =>
    have hrest := words_blanks_append (fun d hd => hb d (List.mem_cons_of_mem c hd)) []
    rw [List.append_nil] at hrest
    rw [words_append_cons (hb c List.mem_cons_self), hrest]
    exact List.append_nil _

theorem words_trim (s : List Char) : words (trim s) = words s := by
  obtain ⟨a, b, hs, ha, hb⟩ := exists_trim s
  calc words (trim s)
    _ = words (a ++ trim s ++ b) := by rw [words_append_blanks hb, words_blanks_append ha]
    _ = words s := by rw [← hs]

theorem mem_words {s : List Char} {c : Char} (hc : isBlank c = false) (h : c ∈ s) :
    ∃ w ∈ words s, c ∈ w := by
  obtain ⟨piece, hpiece, hmem⟩ := mem_pieces hc h
  have hne : piece ≠ [] := List.ne_nil_of_mem hmem
  exact ⟨piece, List.mem_filter.2 ⟨hpiece, by simpa using hne⟩, hmem⟩

/-- Blanks and a word in front of a text that begins with a blank, or is empty. -/
theorem words_append_word {a w r : List Char} (ha : ∀ c ∈ a, isBlank c = true) (hne : w ≠ [])
    (hw : ∀ c ∈ w, isBlank c = false) (hr : ∀ c, r.head? = some c → isBlank c = true) :
    words (a ++ w ++ r) = w :: words r := by
  have hword : words w = [w] := by
    rw [words, pieces_of_forall hw]
    simp [hne]
  rw [List.append_assoc, words_blanks_append ha]
  cases r with
  | nil =>
    rw [List.append_nil, hword]
    rfl
  | cons c r =>
    have hrest : words (c :: r) = words r :=
      words_blanks_append (a := [c]) (by simpa using hr c rfl) r
    rw [words_append_cons (hr c rfl), hword, hrest, List.singleton_append]

theorem words_eq_cons_iff {s w : List Char} {others : List (List Char)} :
    words s = w :: others ↔ ∃ a r, s = a ++ w ++ r ∧ (∀ c ∈ a, isBlank c = true) ∧ w ≠ [] ∧
      (∀ c ∈ w, isBlank c = false) ∧ (∀ c, r.head? = some c → isBlank c = true) ∧
      words r = others := by
  constructor
  · intro h
    obtain ⟨a, hblank, hcut⟩ := exists_trimStart s
    have hstart : trimStart s ≠ [] := by
      intro hnil
      rw [hcut, words_blanks_append hblank, hnil] at h
      exact absurd h (by simp [words])
    -- what trimming leaves begins with the first word
    obtain ⟨c, r, hcons, hc⟩ := leads_trimStart hstart
    rw [hcons] at hcut
    have hword : ∀ d ∈ (c :: r).takeWhile (!isBlank ·), isBlank d = false := fun d hd => by
      simpa using List.mem_takeWhile_imp hd
    have hrest : ∀ d, ((c :: r).dropWhile (!isBlank ·)).head? = some d → isBlank d = true := by
      intro d hd
      have hhead := List.head?_dropWhile_not (!isBlank ·) (c :: r)
      rw [hd] at hhead
      simpa using hhead
    have hne : (c :: r).takeWhile (!isBlank ·) ≠ [] := by simp [hc]
    rw [← List.takeWhile_append_dropWhile (p := (!isBlank ·)) (l := c :: r), ← List.append_assoc]
      at hcut
    rw [hcut, words_append_word hblank hne hword hrest] at h
    obtain ⟨rfl, rfl⟩ := List.cons.inj h
    exact ⟨_, _, hcut, hblank, hne, hword, hrest, rfl⟩
  · rintro ⟨a, r, rfl, ha, hne, hw, hr, rfl⟩
    exact words_append_word ha hne hw hr

theorem dropReturn_of_closes {s : List Char} (h : Closes s) : dropReturn s = s := by
  obtain ⟨c, hlast, hc⟩ := h.getLast?
  have hne : c ≠ '\r' := by
    rintro rfl
    exact absurd hc (by decide)
  rw [dropReturn, hlast, if_neg (by simpa using hne)]

theorem closeLines_of_snug {lines : List (List Char)} (h : ∀ l ∈ lines, Snug l) :
    closeLines lines = lines := by
  induction lines with
  | nil => rfl
  | cons l rest ih =>
    have hl := h l List.mem_cons_self
    have hrest := ih fun l' h' => h l' (List.mem_cons_of_mem l h')
    cases rest with
    | nil => simp [closeLines, hl.ne_nil]
    | cons l' rest =>
      rw [closeLines, dropReturn_of_closes hl.closes, hrest]
      exact List.cons_ne_nil l' rest

theorem join_cons (separator part : List Char) {rest : List (List Char)} (hne : rest ≠ []) :
    join separator (part :: rest) = part ++ (separator ++ join separator rest) := by
  obtain ⟨next, rest, rfl⟩ := List.exists_cons_of_ne_nil hne
  rfl

theorem length_join_cons_le (separator part : List Char) (rest : List (List Char)) :
    (join separator (part :: rest)).length ≤
      part.length + (separator.length + (join separator rest).length) := by
  cases rest with
  | nil => simp [join]
  | cons next rest =>
    rw [join_cons separator part (List.cons_ne_nil next rest), List.length_append,
      List.length_append]

/-- One more part that is not empty makes a text longer. -/
theorem length_join_lt (separator : List Char) (parts : List (List Char)) {part : List Char}
    (hne : part ≠ []) (more : List (List Char)) :
    (join separator parts).length < (join separator (parts ++ part :: more)).length := by
  induction parts with
  | nil =>
    have hpos := List.length_pos_iff.2 hne
    cases more with
    | nil => simpa [join] using hpos
    | cons next more =>
      rw [List.nil_append, join_cons separator part (List.cons_ne_nil next more), List.length_append]
      exact Nat.lt_add_right _ hpos
  | cons first parts ih =>
    have hle := length_join_cons_le separator first parts
    have hrest : parts ++ part :: more ≠ [] := by simp
    rw [List.cons_append, join_cons separator first hrest, List.length_append, List.length_append]
    omega

theorem pieces_of_not_mem {line : List Char} (h : '\n' ∉ line) : pieces (· == '\n') line = [line] := by
  apply pieces_of_forall
  intro c hc
  rw [beq_eq_false_iff_ne]
  rintro rfl
  exact h hc

theorem pieces_join {lines : List (List Char)} (hne : lines ≠ []) (h : ∀ l ∈ lines, '\n' ∉ l) :
    pieces (· == '\n') (join ['\n'] lines) = lines := by
  induction lines with
  | nil => exact absurd rfl hne
  | cons l rest ih =>
    have hl := pieces_of_not_mem (h l List.mem_cons_self)
    by_cases hrest : rest = []
    · subst hrest
      simpa [join] using hl
    · have ih := ih hrest fun l' h' => h l' (List.mem_cons_of_mem l h')
      rw [join_cons ['\n'] l hrest, List.singleton_append, pieces_append_cons rfl, hl, ih,
        List.singleton_append]

theorem mem_join {separator : List Char} {parts : List (List Char)} {c : Char}
    (h : c ∈ join separator parts) : c ∈ separator ∨ ∃ part ∈ parts, c ∈ part := by
  induction parts with
  | nil => exact absurd h List.not_mem_nil
  | cons part rest ih =>
    cases rest with
    | nil =>
      have hpart : c ∈ part := by simpa [join] using h
      exact .inr ⟨part, List.mem_cons_self, hpart⟩
    | cons next rest =>
      have hjoin : join separator (part :: next :: rest) =
          part ++ (separator ++ join separator (next :: rest)) := rfl
      rw [hjoin, List.mem_append, List.mem_append] at h
      rcases h with hpart | hseparator | hrest
      · exact .inr ⟨part, List.mem_cons_self, hpart⟩
      · exact .inl hseparator
      · rcases ih hrest with hseparator | ⟨other, hother, hc⟩
        · exact .inl hseparator
        · exact .inr ⟨other, List.mem_cons_of_mem part hother, hc⟩

/-- Snug lines come back from the text that they make. -/
theorem lines_join {lines : List (List Char)} (hsnug : ∀ l ∈ lines, Snug l)
    (hline : ∀ l ∈ lines, '\n' ∉ l) : Text.lines (join ['\n'] lines) = lines := by
  cases lines with
  | nil => rfl
  | cons l rest =>
    rw [Text.lines, pieces_join (List.cons_ne_nil l rest) hline, closeLines_of_snug hsnug]

end Flowchart.Text
