import Flowchart.Proofs.Text.Snug
import Mathlib.Data.List.Find

/-! Replacing several markers one after the other by a single character, and then cutting at that
character, is cutting at the markers in one pass, provided that no marker holds the character and
none begins inside another. -/
namespace Flowchart.Text

open scoped List

def markerAt? (markers : List (List Char)) (s : List Char) : Option (List Char) :=
  markers.find? (·.isPrefixOf s)

/-- The pieces between the occurrences of some markers, found from left to right without overlap. The
counter is as in `piecesAt`. -/
def piecesAtAny (markers : List (List Char)) : Nat → List Char → List (List Char)
  | _, [] => [[]]
  | skip + 1, _ :: r => piecesAtAny markers skip r
  | 0, c :: r =>
    match markerAt? markers (c :: r) with
    | some marker => [] :: piecesAtAny markers (marker.length - 1) r
    | none => attach c (piecesAtAny markers 0 r)

def splitAtAny (markers : List (List Char)) (s : List Char) : List (List Char) :=
  piecesAtAny markers 0 s

/-- No marker is empty or holds a separator, and none begins inside another one. -/
structure Apart (separator : Char) (markers : List (List Char)) : Prop where
  ne_nil : ∀ m ∈ markers, m ≠ []
  separator_not_mem : ∀ m ∈ markers, separator ∉ m
  head_not_inside : ∀ m ∈ markers, ∀ x ∈ markers, ∀ c ∈ x.tail, m.head? ≠ some c

theorem Apart.of_cons {separator : Char} {m : List Char} {markers : List (List Char)}
    (h : Apart separator (m :: markers)) : Apart separator markers where
  ne_nil := fun x hx => h.ne_nil x (List.mem_cons_of_mem m hx)
  separator_not_mem := fun x hx => h.separator_not_mem x (List.mem_cons_of_mem m hx)
  head_not_inside := fun x hx y hy =>
    h.head_not_inside x (List.mem_cons_of_mem m hx) y (List.mem_cons_of_mem m hy)

section Infix

variable {m u v : List Char} {c : Char} (hc : c ∉ m)
include hc

theorem isPrefix_of_append_cons (h : m <+: u ++ c :: v) : m <+: u := by
  have hstart : u ++ [c] <+: u ++ c :: v := ⟨v, by simp⟩
  have hlast : c ∈ u ++ [c] := List.mem_append_right u List.mem_cons_self
  rcases List.prefix_or_prefix_of_prefix h hstart with h | h
  · rcases List.prefix_concat_iff.1 h with rfl | h
    · exact absurd hlast hc
    · exact h
  · exact absurd (h.subset hlast) hc

/-- What does not hold a character stands before it or after it. -/
theorem isInfix_of_append_cons (h : m <:+: u ++ c :: v) : m <:+: u ∨ m <:+: v := by
  induction u with
  | nil =>
    rcases List.infix_cons_iff.1 h with h | h
    · have hnil := isPrefix_of_append_cons (u := []) hc h
      exact .inl hnil.isInfix
    · exact .inr h
  | cons d u ih =>
    rcases List.infix_cons_iff.1 h with h | h
    · exact .inl (isPrefix_of_append_cons (u := d :: u) hc h).isInfix
    · exact (ih h).imp_left fun h => h.trans (List.suffix_cons d u).isInfix

end Infix

section Replacement

variable {m : List Char}

/-- A text in which the marker does not begin is left as it is. -/
theorem replaceAll_append_of_head (hm : m ≠ []) {p : List Char} (h : ∀ c ∈ p, m.head? ≠ some c)
    (replacement t : List Char) :
    replaceAll m replacement (p ++ t) = p ++ replaceAll m replacement t := by
  obtain ⟨d, m, rfl⟩ := List.exists_cons_of_ne_nil hm
  induction p with
  | nil => rfl
  | cons c p ih =>
    have hfirst : ¬ d :: m <+: c :: (p ++ t) := by
      intro hprefix
      exact h c List.mem_cons_self (congrArg some (List.cons_prefix_cons.1 hprefix).1)
    rw [List.cons_append, replaceAll_cons hfirst, ih fun e he => h e (List.mem_cons_of_mem c he)]
    rfl

/-- What a text begins with was there before a marker was replaced, unless a separator is in it. -/
theorem prefix_of_prefix_replaceAll (hm : m ≠ []) {separator : Char} {p s : List Char}
    (hseparator : separator ∉ p) (h : p <+: replaceAll m [separator] s) : p <+: s := by
  induction p generalizing s with
  | nil => exact List.nil_prefix
  | cons d p ih =>
    rw [List.mem_cons, not_or] at hseparator
    cases s with
    | nil => exact absurd h (by simp [replaceAll, replaceFrom])
    | cons c r =>
      by_cases hmarker : m <+: c :: r
      · -- a marker here would have left a separator
        obtain ⟨t, ht⟩ := hmarker
        rw [← ht, replaceAll_append hm, List.singleton_append, List.cons_prefix_cons] at h
        exact absurd h.1.symm hseparator.1
      · rw [replaceAll_cons hmarker, List.cons_prefix_cons] at h
        obtain ⟨rfl, hrest⟩ := h
        exact List.cons_prefix_cons.2 ⟨rfl, ih hseparator.2 hrest⟩

/-- Behind its first character, the text `x` has neither a separator nor a place where `m` begins. -/
structure Outlasts (separator : Char) (m x : List Char) : Prop where
  ne_nil : x ≠ []
  separator_not_mem : separator ∉ x.tail
  head_not_mem : ∀ c ∈ x.tail, m.head? ≠ some c

variable {separator : Char} {x : List Char}

theorem Outlasts.replaceAll (hm : m ≠ []) (hx : Outlasts separator m x) {t : List Char}
    (h : ¬ m <+: x ++ t) : replaceAll m [separator] (x ++ t) = x ++ replaceAll m [separator] t := by
  obtain ⟨d, p, rfl⟩ := List.exists_cons_of_ne_nil hx.ne_nil
  have htail := replaceAll_append_of_head hm hx.head_not_mem [separator] t
  rw [List.tail_cons] at htail
  rw [List.cons_append] at h ⊢
  rw [replaceAll_cons h, htail, List.cons_append]

theorem Outlasts.prefix_iff (hm : m ≠ []) (hx : Outlasts separator m x) {s : List Char}
    (h : ¬ m <+: s) : x <+: Text.replaceAll m [separator] s ↔ x <+: s := by
  constructor
  · intro hprefix
    obtain ⟨d, p, rfl⟩ := List.exists_cons_of_ne_nil hx.ne_nil
    cases s with
    | nil => exact hprefix
    | cons c r =>
      rw [replaceAll_cons h, List.cons_prefix_cons] at hprefix
      obtain ⟨rfl, hrest⟩ := hprefix
      exact List.cons_prefix_cons.2
        ⟨rfl, prefix_of_prefix_replaceAll hm hx.separator_not_mem hrest⟩
  · rintro ⟨t, rfl⟩
    rw [hx.replaceAll hm h]
    exact List.prefix_append x _

end Replacement

section Cut

variable {separator : Char} {markers : List (List Char)}

theorem piecesAtAny_append (markers : List (List Char)) (p t : List Char) :
    piecesAtAny markers p.length (p ++ t) = splitAtAny markers t := by
  induction p with
  | nil => rfl
  | cons c p ih => exact ih

theorem splitAtAny_append {m t : List Char} (hm : m ≠ []) (h : markerAt? markers (m ++ t) = some m) :
    splitAtAny markers (m ++ t) = [] :: splitAtAny markers t := by
  obtain ⟨c, p, rfl⟩ := List.exists_cons_of_ne_nil hm
  rw [List.cons_append] at h ⊢
  rw [splitAtAny, piecesAtAny, h]
  dsimp only
  rw [List.length_cons, Nat.add_sub_cancel, piecesAtAny_append]

theorem splitAtAny_cons {c : Char} {r : List Char} (h : markerAt? markers (c :: r) = none) :
    splitAtAny markers (c :: r) = attach c (splitAtAny markers r) := by
  rw [splitAtAny, piecesAtAny, h]
  rfl

theorem markerAt?_eq_none_iff {s : List Char} :
    markerAt? markers s = none ↔ ∀ m ∈ markers, ¬ m <+: s := by
  simp only [markerAt?, List.find?_eq_none, List.isPrefixOf_iff_prefix]

theorem markerAt?_congr {s t : List Char} (h : ∀ m ∈ markers, m <+: s ↔ m <+: t) :
    markerAt? markers s = markerAt? markers t := by
  refine List.find?_congr fun m hm => ?_
  rw [Bool.eq_iff_iff, List.isPrefixOf_iff_prefix, List.isPrefixOf_iff_prefix]
  exact h m hm

theorem mem_of_markerAt? {m s : List Char} (h : markerAt? markers s = some m) :
    m ∈ markers ∧ m <+: s := by
  unfold markerAt? at h
  have hprefix := List.find?_some h
  exact ⟨List.mem_of_find?_eq_some h, List.isPrefixOf_iff_prefix.1 hprefix⟩

/-- At a separator no marker begins, so the text is cut at the separator itself. -/
theorem splitAtAny_separator (h : Apart separator markers) (t : List Char) :
    splitAtAny (markers ++ [[separator]]) (separator :: t) =
      [] :: splitAtAny (markers ++ [[separator]]) t := by
  have hnone : markerAt? markers (separator :: t) = none := by
    rw [markerAt?_eq_none_iff]
    rintro m hm hprefix
    obtain ⟨c, p, rfl⟩ := List.exists_cons_of_ne_nil (h.ne_nil m hm)
    obtain ⟨rfl, -⟩ := List.cons_prefix_cons.1 hprefix
    exact h.separator_not_mem _ hm List.mem_cons_self
  have hfound : markerAt? (markers ++ [[separator]]) ([separator] ++ t) = some [separator] := by
    rw [markerAt?] at hnone
    rw [List.singleton_append, markerAt?, List.find?_append, hnone, Option.none_or]
    simp
  exact splitAtAny_append (List.cons_ne_nil _ _) hfound

theorem Apart.outlasts {m : List Char} (h : Apart separator (m :: markers)) :
    ∀ x ∈ markers ++ [[separator]], Outlasts separator m x := by
  intro x hx
  rcases List.mem_append.1 hx with hx | hx
  · exact {
      ne_nil := h.of_cons.ne_nil x hx
      separator_not_mem := fun hmem =>
        h.of_cons.separator_not_mem x hx (List.mem_of_mem_tail hmem)
      head_not_mem := h.head_not_inside m List.mem_cons_self x (List.mem_cons_of_mem m hx) }
  · obtain rfl := List.mem_singleton.1 hx
    exact ⟨List.cons_ne_nil _ _, List.not_mem_nil, fun _ hc => absurd hc List.not_mem_nil⟩

/-- Where the first marker does not begin, the one that begins does so when the first is replaced. -/
theorem Apart.markerAt?_replaceAll {m s : List Char} (h : Apart separator (m :: markers))
    (hmarker : ¬ m <+: s) :
    markerAt? (markers ++ [[separator]]) (replaceAll m [separator] s) =
      markerAt? (m :: markers ++ [[separator]]) s := by
  have hskip : markerAt? (m :: markers ++ [[separator]]) s =
      markerAt? (markers ++ [[separator]]) s := by
    rw [markerAt?, List.cons_append, List.find?_cons_of_neg, markerAt?]
    exact mt List.isPrefixOf_iff_prefix.1 hmarker
  rw [hskip]
  exact markerAt?_congr fun x hx =>
    (h.outlasts x hx).prefix_iff (h.ne_nil m List.mem_cons_self) hmarker

/-- A text is empty, or a marker begins at its front and a text follows, or none does and a text
follows the first character. -/
theorem cut_induction (hne : ∀ m ∈ markers, m ≠ []) {motive : List Char → Prop} (nil : motive [])
    (marker : ∀ m t, markerAt? markers (m ++ t) = some m → motive t → motive (m ++ t))
    (cons : ∀ c r, markerAt? markers (c :: r) = none → motive r → motive (c :: r))
    (s : List Char) : motive s := by
  induction hn : s.length using Nat.strong_induction_on generalizing s with
  | h n ih =>
    cases s with
    | nil => exact nil
    | cons c r =>
      cases hfound : markerAt? markers (c :: r) with
      | none =>
        have hshorter : r.length < n := hn ▸ Nat.lt_succ_self r.length
        exact cons c r hfound (ih r.length hshorter r rfl)
      | some m =>
        obtain ⟨hm, t, hs⟩ := mem_of_markerAt? hfound
        have hpos := List.length_pos_iff.2 (hne m hm)
        rw [← hs] at hfound hn ⊢
        rw [List.length_append] at hn
        exact marker m t hfound (ih t.length (by omega) t rfl)

/-- Replacing a marker before the cut is cutting at it as well. -/
theorem splitAtAny_replaceAll {m : List Char} (h : Apart separator (m :: markers)) (s : List Char) :
    splitAtAny (markers ++ [[separator]]) (replaceAll m [separator] s) =
      splitAtAny (m :: markers ++ [[separator]]) s := by
  have hm : m ≠ [] := h.ne_nil m List.mem_cons_self
  have hne : ∀ x ∈ m :: markers ++ [[separator]], x ≠ [] :=
    List.forall_mem_append.2 ⟨h.ne_nil, List.forall_mem_singleton.2 (List.cons_ne_nil _ _)⟩
  induction s using cut_induction hne with
  | nil => rfl
  | marker x t hfound ih =>
    by_cases hmarker : m <+: x ++ t
    · -- the first marker is the one that is found
      have hfirst : markerAt? (m :: markers ++ [[separator]]) (x ++ t) = some m := by
        rw [markerAt?, List.cons_append, List.find?_cons_of_pos]
        exact List.isPrefixOf_iff_prefix.2 hmarker
      obtain rfl : m = x := Option.some.inj (hfirst.symm.trans hfound)
      rw [replaceAll_append hm, List.singleton_append, splitAtAny_separator h.of_cons,
        splitAtAny_append hm hfound, ih]
    · have hkept := (h.markerAt?_replaceAll hmarker).trans hfound
      obtain ⟨hx, -⟩ := mem_of_markerAt? hkept
      have hlasts := h.outlasts x hx
      rw [hlasts.replaceAll hm hmarker] at hkept ⊢
      rw [splitAtAny_append hlasts.ne_nil hkept, splitAtAny_append hlasts.ne_nil hfound, ih]
  | cons c r hnone ih =>
    have hmarker : ¬ m <+: c :: r := markerAt?_eq_none_iff.1 hnone m List.mem_cons_self
    have hkept := (h.markerAt?_replaceAll hmarker).trans hnone
    rw [replaceAll_cons hmarker] at hkept ⊢
    rw [splitAtAny_cons hkept, splitAtAny_cons hnone, ih]

theorem splitAt_eq_splitAtAny (marker s : List Char) : splitAt marker s = splitAtAny [marker] s := by
  have hfrom (skip : Nat) : piecesAt marker skip s = piecesAtAny [marker] skip s := by
    induction s generalizing skip with
    | nil => cases skip <;> rfl
    | cons c r ih =>
      cases skip with
      | succ skip => exact ih skip
      | zero =>
        rw [piecesAt, piecesAtAny, markerAt?, List.find?_singleton, ih, ih]
        cases marker.isPrefixOf (c :: r) <;> rfl
  exact hfrom 0

theorem pieces_eq_splitAtAny (separator : Char) (s : List Char) :
    pieces (· == separator) s = splitAtAny [[separator]] s := by
  induction s with
  | nil => rfl
  | cons c s ih =>
    by_cases hc : c = separator
    · subst hc
      have hapart : Apart c [] := ⟨by simp, by simp, by simp⟩
      rw [pieces_cons, if_pos (beq_self_eq_true c), ih]
      exact (splitAtAny_separator hapart s).symm
    · have hnone : markerAt? [[separator]] (c :: s) = none := by
        simpa [markerAt?_eq_none_iff] using Ne.symm hc
      rw [pieces_cons, if_neg (by simpa using hc), ih, splitAtAny_cons hnone]

/-- Markers replaced by a separator one after the other, and a cut at the separator, are one cut from
left to right. -/
theorem pieces_foldl_replaceAll (h : Apart separator markers) (s : List Char) :
    pieces (· == separator) (markers.foldl (fun s m => replaceAll m [separator] s) s) =
      splitAtAny (markers ++ [[separator]]) s := by
  induction markers generalizing s with
  | nil => exact pieces_eq_splitAtAny separator s
  | cons m markers ih => rw [List.foldl_cons, ih h.of_cons, splitAtAny_replaceAll h]

/-- The first piece is what the text begins with. -/
theorem exists_first_piece (markers : List (List Char)) (skip : Nat) (s : List Char) :
    ∃ first rest, piecesAtAny markers skip s = first :: rest ∧ first <+: s.drop skip := by
  induction s generalizing skip with
  | nil => exact ⟨[], [], by rw [piecesAtAny], List.nil_prefix⟩
  | cons c r ih =>
    cases skip with
    | succ skip => exact ih skip
    | zero =>
      rw [piecesAtAny]
      split
      · exact ⟨[], _, rfl, List.nil_prefix⟩
      · obtain ⟨first, rest, hcut, hfirst⟩ := ih 0
        rw [hcut]
        exact ⟨c :: first, rest, rfl, List.cons_prefix_cons.2 ⟨rfl, hfirst⟩⟩

theorem splitAtAny_ne_nil (markers : List (List Char)) (s : List Char) :
    splitAtAny markers s ≠ [] := by
  obtain ⟨first, rest, hcut, -⟩ := exists_first_piece markers 0 s
  rw [splitAtAny, hcut]
  exact List.cons_ne_nil first rest

theorem flatten_piecesAtAny_sublist (markers : List (List Char)) (skip : Nat) (s : List Char) :
    (piecesAtAny markers skip s).flatten <+ s := by
  induction s generalizing skip with
  | nil =>
    rw [piecesAtAny]
    exact List.nil_sublist _
  | cons c r ih =>
    cases skip with
    | succ skip => exact (ih skip).cons c
    | zero =>
      rw [piecesAtAny]
      split
      · exact (ih _).cons c
      · rw [flatten_attach]
        exact (ih 0).cons_cons c

theorem length_piecesAtAny_le (markers : List (List Char)) (skip : Nat) (s : List Char) :
    (piecesAtAny markers skip s).length ≤ s.length + 1 := by
  induction s generalizing skip with
  | nil =>
    rw [piecesAtAny]
    exact le_rfl
  | cons c r ih =>
    cases skip with
    | succ skip => exact (ih skip).trans (Nat.le_succ _)
    | zero =>
      rw [piecesAtAny]
      split
      · exact Nat.succ_le_succ (ih _)
      · obtain ⟨first, rest, hcut, -⟩ := exists_first_piece markers 0 r
        have hrest := ih 0
        rw [hcut] at hrest ⊢
        exact hrest.trans (Nat.le_succ _)

/-- No piece has a marker in it. -/
theorem not_infix_of_mem_piecesAtAny (hne : ∀ m ∈ markers, m ≠ []) {m : List Char}
    (hm : m ∈ markers) {skip : Nat} {s piece : List Char} (h : piece ∈ piecesAtAny markers skip s) :
    ¬ m <:+: piece := by
  have hnil : ¬ m <:+: [] := fun hinside => hne m hm (List.infix_nil.1 hinside)
  induction s generalizing skip piece with
  | nil =>
    rw [piecesAtAny, List.mem_singleton] at h
    exact h ▸ hnil
  | cons c r ih =>
    cases skip with
    | succ skip => exact ih h
    | zero =>
      rw [piecesAtAny] at h
      split at h
      · rcases List.mem_cons.1 h with rfl | h
        · exact hnil
        · exact ih h
      · next hnone =>
        obtain ⟨first, rest, hcut, hfirst⟩ := exists_first_piece markers 0 r
        have hpieces : ∀ piece ∈ first :: rest, ¬ m <:+: piece := fun p hp => ih (hcut ▸ hp)
        rw [hcut] at h
        rcases List.mem_cons.1 h with rfl | h
        · -- a marker in the first piece would begin the text, or be in the rest of the piece
          rw [List.infix_cons_iff, not_or]
          refine ⟨fun hfront => ?_, hpieces first List.mem_cons_self⟩
          have hbegins : c :: first <+: c :: r := List.cons_prefix_cons.2 ⟨rfl, hfirst⟩
          exact markerAt?_eq_none_iff.1 hnone m hm (hfront.trans hbegins)
        · exact hpieces piece (List.mem_cons_of_mem first h)

/-- A line without a break, and the separator behind it, are cut off. -/
theorem splitAtAny_append_separator (h : Apart separator markers) {l : List Char}
    (hl : ∀ m ∈ markers ++ [[separator]], ¬ m <:+: l) (t : List Char) :
    splitAtAny (markers ++ [[separator]]) (l ++ separator :: t) =
      l :: splitAtAny (markers ++ [[separator]]) t := by
  induction l with
  | nil => exact splitAtAny_separator h t
  | cons c l ih =>
    -- a marker at the front would end before the separator, so it would be in the line
    have hnone : markerAt? (markers ++ [[separator]]) (c :: (l ++ separator :: t)) = none := by
      rw [markerAt?_eq_none_iff]
      intro m hm hprefix
      refine hl m hm ?_
      rcases List.mem_append.1 hm with hmarker | hseparator
      · have hfree := h.separator_not_mem m hmarker
        exact (isPrefix_of_append_cons (u := c :: l) hfree hprefix).isInfix
      · obtain rfl := List.mem_singleton.1 hseparator
        obtain ⟨rfl, -⟩ := List.cons_prefix_cons.1 hprefix
        exact ⟨[], l, rfl⟩
    have hrest : ∀ m ∈ markers ++ [[separator]], ¬ m <:+: l :=
      fun m hm hinside => hl m hm (List.infix_cons hinside)
    rw [List.cons_append, splitAtAny_cons hnone, ih hrest]
    rfl

theorem splitAtAny_of_free {l : List Char} (hl : ∀ m ∈ markers, ¬ m <:+: l) :
    splitAtAny markers l = [l] := by
  induction l with
  | nil => rfl
  | cons c l ih =>
    have hnone : markerAt? markers (c :: l) = none :=
      markerAt?_eq_none_iff.2 fun m hm hprefix => hl m hm hprefix.isInfix
    rw [splitAtAny_cons hnone, ih fun m hm hinside => hl m hm (List.infix_cons hinside)]
    rfl

/-- Lines without breaks come back from the text that they make with separators between them. -/
theorem splitAtAny_join (h : Apart separator markers) {found : List (List Char)}
    (hne : found ≠ []) (hfree : ∀ l ∈ found, ∀ m ∈ markers ++ [[separator]], ¬ m <:+: l) :
    splitAtAny (markers ++ [[separator]]) (join [separator] found) = found := by
  induction found with
  | nil => exact absurd rfl hne
  | cons l rest ih =>
    have hl := hfree l List.mem_cons_self
    by_cases hrest : rest = []
    · subst hrest
      simpa [join] using splitAtAny_of_free hl
    · have ih := ih hrest fun x hx => hfree x (List.mem_cons_of_mem l hx)
      rw [join_cons [separator] l hrest, List.singleton_append, splitAtAny_append_separator h hl, ih]

end Cut

end Flowchart.Text
