import Flowchart.Proofs.Script.Syntax
import Flowchart.Proofs.Source.Scan
import Mathlib.Data.List.Infix

namespace Flowchart.Script

open Source

def isPlain (c : Char) : Bool := isNameChar c || 0x80 ≤ c.toNat

theorem isPlain_of_isNameChar {c : Char} (h : isNameChar c = true) : isPlain c = true := by
  simp [isPlain, h]

theorem ne_of_isPlain {c d : Char} (hc : isPlain c = true) (hd : isPlain d = false) : c ≠ d := by
  rintro rfl
  exact absurd hc (by simp [hd])

theorem shows_of_isPlain {c : Char} (h : isPlain c = true) : Nesting.neutral.shows c = true := by
  have hopener : isOpener c = false := by
    simp [isOpener, ne_of_isPlain h (d := '[') rfl, ne_of_isPlain h (d := '(') rfl,
      ne_of_isPlain h (d := '\x7b') rfl]
  have hcloser : isCloser c = false := by
    simp [isCloser, ne_of_isPlain h (d := ']') rfl, ne_of_isPlain h (d := ')') rfl,
      ne_of_isPlain h (d := '\x7d') rfl]
  simp [Nesting.shows, Nesting.neutral, hopener, hcloser, ne_of_isPlain h (d := '"') rfl,
    ne_of_isPlain h (d := '|') rfl]

def Plain {σ : Type} (m : Scanner σ) (n : σ) : Prop :=
  ∀ c, isPlain c = true → m.fine n c = true ∧ m.next n c = n

theorem plain_shownScanner {p : Char → Bool} (hp : ∀ c, isPlain c = true → p c = true) :
    Plain (shownScanner p) .neutral := by
  intro c hc
  exact ⟨by simp [shownScanner, hp c hc], Nesting.next_of_shows (shows_of_isPlain hc)⟩

theorem plain_but {d : Char} (hd : isPlain d = false) : Plain (shownScanner (· != d)) .neutral :=
  plain_shownScanner fun _ hc => bne_iff_ne.2 (ne_of_isPlain hc hd)

theorem plain_pipeScanner (depth : Nat) : Plain pipeScanner ⟨false, depth⟩ := by
  intro c hc
  have hshows := shows_of_isPlain hc
  simp only [Nesting.shows, Bool.and_eq_true, bne_iff_ne, Bool.not_eq_true'] at hshows
  obtain ⟨⟨⟨⟨_, hquote⟩, hpipe⟩, hopener⟩, hcloser⟩ := hshows
  simp [pipeScanner, PipeNesting.next, PipeNesting.isPipe, hquote, hpipe, hopener, hcloser]

theorem plain_commentScanner : Plain commentScanner {} := by
  intro c hc
  have hquote := ne_of_isPlain hc (d := '"') rfl
  have hpercent := ne_of_isPlain hc (d := '%') rfl
  simp [commentScanner, hquote, hpercent]

theorem plain_markerScanner : Plain markerScanner 0 := by
  intro c hc
  have hcolon := ne_of_isPlain hc (d := ':') rfl
  simp [markerScanner, hcolon]

/-- Minds line feeds. -/
def lineScanner : Scanner Unit := ⟨fun _ _ => (), fun _ c => c != '\n'⟩

theorem plain_lineScanner : Plain lineScanner () := by
  intro c hc
  have hfeed := ne_of_isPlain hc (d := '\n') rfl
  simp [lineScanner, hfeed]

theorem lineScanner_still_iff {s : List Char} : lineScanner.Still () s ↔ '\n' ∉ s := by
  induction s with
  | nil => simp [Scanner.still_nil]
  | cons c s ih =>
    have hstill : lineScanner.Still () (c :: s) ↔ c ≠ '\n' ∧ lineScanner.Still () s := by
      by_cases hc : c = '\n' <;> simp [Scanner.Still, Scanner.run?, lineScanner, hc]
    rw [hstill, ih, List.mem_cons, not_or, ne_comm]

def quoted (w : Wrapper) (s : List Char) : List Char := w.opening ++ '"' :: s ++ '"' :: w.closing

section Parts

variable {σ : Type} {m : Scanner σ} {n : σ}

theorem Mention.still (hplain : Plain m n) (hdress : ∀ d : Dress, m.Still n d.print) (x : Mention) :
    m.Still n x.print := by
  refine Scanner.Still.append (Scanner.still_of_forall fun c hc => ?_) ?_
  · exact hplain c (isPlain_of_isNameChar (x.name.legal c hc))
  · cases x.dress with
    | none => exact Scanner.still_nil
    | some d => exact hdress d

theorem Group.still (hmention : ∀ x : Mention, m.Still n x.print)
    (hand : m.Still n [' ', '&', ' ']) (g : Group) : m.Still n g.print :=
  (hmention g.first).append (Scanner.Still.flatMap fun x _ => hand.append (hmention x))

theorem Hop.still (hgroup : ∀ g : Group, m.Still n g.print) (hblank : m.Still n [' '])
    (hmarker : ∀ k ∈ connectors, m.Still n k.marker) (hcaption : ∀ c : Caption, m.Still n c.print)
    (h : Hop) : m.Still n h.print := by
  have hlabel : m.Still n (h.caption.elim [] Caption.print) := by
    cases h.caption with
    | none => exact Scanner.still_nil
    | some c => exact hcaption c
  have hmarked := hblank.append (hmarker h.connector h.mem_connectors)
  exact (hmarked.append (hblank.append hlabel)).append (hgroup h.group)

theorem Path.still (hgroup : ∀ g : Group, m.Still n g.print) (hhop : ∀ h : Hop, m.Still n h.print)
    (p : Path) : m.Still n p.print :=
  (hgroup p.start).append (Scanner.Still.flatMap fun h _ => hhop h)

/-- A quoted text in a wrapper is read over in five steps. -/
theorem still_quoted {o q t c : σ} {w : Wrapper} {s : List Char}
    (hopening : m.run? n w.opening = some o) (hquote : m.run? o ['"'] = some q)
    (htext : m.run? q s = some t) (hunquote : m.run? t ['"'] = some c)
    (hclosing : m.run? c w.closing = some n) : m.Still n (quoted w s) := by
  have hinside := Scanner.run?_append hquote htext
  exact Scanner.run?_append (Scanner.run?_append hopening hinside)
    (Scanner.run?_append hunquote hclosing)

end Parts

def isFrame (c : Char) : Bool := c == '<' || c == '>'

theorem ne_of_shown {c d : Char} (hc : isPlain c = true ∨ isFrame c = true)
    (hplain : isPlain d = false) (hframe : isFrame d = false) : c ≠ d := by
  rintro rfl
  rcases hc with hc | hc
  · exact absurd hc (by simp [hplain])
  · exact absurd hc (by simp [hframe])

theorem isBare_of_shown {c : Char} (hc : isPlain c = true ∨ isFrame c = true) : isBare c = true := by
  simp [isBare, ne_of_shown hc (d := '-') rfl rfl, ne_of_shown hc (d := '=') rfl rfl]

theorem plain_bare : Plain (shownScanner isBare) .neutral :=
  plain_shownScanner fun _ hc => isBare_of_shown (.inl hc)

theorem run?_wrapper_shown :
    ∀ w ∈ wrappers,
      (shownScanner isFrame).run? .neutral w.opening = some ⟨false, false, w.opening.countP isOpener⟩ ∧
      (shownScanner isFrame).run? ⟨false, false, w.opening.countP isOpener⟩ w.closing =
        some .neutral := by
  decide

section Quoted

variable {w : Wrapper} (hw : w ∈ wrappers) {s : List Char}
include hw

theorem quoted_still_shown {p : Char → Bool} (hp : ∀ c, isFrame c = true → p c = true)
    (hs : '"' ∉ s) : (shownScanner p).Still .neutral (quoted w s) := by
  -- wrappers are run once, under the scanner that minds most, and others mind less
  have hmono {n k : Nesting} {s : List Char} (h : (shownScanner isFrame).run? n s = some k) :
      (shownScanner p).run? n s = some k := by
    refine Scanner.run?_mono (m := shownScanner isFrame) rfl (fun n c hc => ?_) h
    by_cases hs : n.shows c = true
    · simp [shownScanner, hp c (of_shows hc hs)]
    · simp [shownScanner, hs]
  obtain ⟨hopening, hclosing⟩ := run?_wrapper_shown w hw
  have hquote (depth : Nat) :
      (shownScanner p).run? ⟨false, false, depth⟩ ['"'] = some ⟨true, false, depth⟩ := by
    simp [Scanner.run?, shownScanner, Nesting.shows, Nesting.next]
  have htext (depth : Nat) :
      (shownScanner p).run? ⟨true, false, depth⟩ s = some ⟨true, false, depth⟩ := by
    refine Scanner.still_of_forall fun c hc => ?_
    have hne : c ≠ '"' := fun h => hs (h ▸ hc)
    simp [shownScanner, Nesting.shows, Nesting.next, hne]
  have hunquote (depth : Nat) :
      (shownScanner p).run? ⟨true, false, depth⟩ ['"'] = some ⟨false, false, depth⟩ := by
    simp [Scanner.run?, shownScanner, Nesting.shows, Nesting.next]
  exact still_quoted (hmono hopening) (hquote _) (htext _) (hunquote _) (hmono hclosing)

theorem quoted_still_pipeScanner (hs : '"' ∉ s) : pipeScanner.Still {} (quoted w s) := by
  have hwrapper : ∀ w ∈ wrappers,
      pipeScanner.run? {} w.opening = some ⟨false, w.opening.countP (isOpener ·)⟩ ∧
      pipeScanner.run? ⟨false, w.opening.countP (isOpener ·)⟩ w.closing = some {} := by
    decide
  obtain ⟨hopening, hclosing⟩ := hwrapper w hw
  have hquote (depth : Nat) : pipeScanner.run? ⟨false, depth⟩ ['"'] = some ⟨true, depth⟩ := by
    simp [Scanner.run?, pipeScanner, PipeNesting.next, PipeNesting.isPipe]
  have hunquote (depth : Nat) : pipeScanner.run? ⟨true, depth⟩ ['"'] = some ⟨false, depth⟩ := by
    simp [Scanner.run?, pipeScanner, PipeNesting.next, PipeNesting.isPipe]
  refine still_quoted hopening (hquote _) (Scanner.still_of_forall fun c hc => ?_) (hunquote _)
    hclosing
  have hne : c ≠ '"' := fun h => hs (h ▸ hc)
  simp [pipeScanner, PipeNesting.next, PipeNesting.isPipe, hne]

theorem quoted_still_commentScanner (hs : '"' ∉ s) : commentScanner.Still {} (quoted w s) := by
  have hwrapper : ∀ w ∈ wrappers,
      commentScanner.run? {} w.opening = some {} ∧ commentScanner.run? {} w.closing = some {} := by
    decide
  obtain ⟨hopening, hclosing⟩ := hwrapper w hw
  have hquote : commentScanner.run? {} ['"'] = some ⟨true, false⟩ := rfl
  have hunquote : commentScanner.run? ⟨true, false⟩ ['"'] = some {} := rfl
  refine still_quoted hopening hquote (Scanner.still_of_forall fun c hc => ?_) hunquote hclosing
  have hne : c ≠ '"' := fun h => hs (h ▸ hc)
  simp [commentScanner, hne]

theorem quoted_still_lineScanner (hs : '\n' ∉ s) : lineScanner.Still () (quoted w s) := by
  have hwrapper : ∀ w ∈ wrappers,
      lineScanner.run? () w.opening = some () ∧ lineScanner.run? () w.closing = some () := by
    decide
  obtain ⟨hopening, hclosing⟩ := hwrapper w hw
  exact still_quoted hopening rfl (lineScanner_still_iff.2 hs) rfl hclosing

end Quoted

theorem Dress.still_shown {p : Char → Bool} (hp : ∀ c, isFrame c = true → p c = true) (d : Dress) :
    (shownScanner p).Still .neutral d.print :=
  quoted_still_shown d.mem_wrappers hp d.text.unquoted

theorem Mention.still_shown {p : Char → Bool}
    (hp : ∀ c, isPlain c = true ∨ isFrame c = true → p c = true) (x : Mention) :
    (shownScanner p).Still .neutral x.print :=
  x.still (plain_shownScanner fun c hc => hp c (.inl hc))
    (Dress.still_shown fun c hc => hp c (.inr hc))

theorem Mention.still_but {d : Char} (hplain : isPlain d = false) (hframe : isFrame d = false)
    (x : Mention) : (shownScanner (· != d)).Still .neutral x.print :=
  x.still_shown fun _ hc => bne_iff_ne.2 (ne_of_shown hc hplain hframe)

def piped (s : List Char) : List Char := '|' :: s ++ ['|', ' ']

/-- Between pipes nothing is shown, brackets or not. -/
theorem piped_still_shown {p : Char → Bool} (hp : p ' ' = true) {s : List Char} (hpipe : '|' ∉ s)
    (hquote : '"' ∉ s) : (shownScanner p).Still .neutral (piped s) := by
  have htext : (shownScanner p).run? ⟨false, true, 0⟩ s = some ⟨false, true, 0⟩ := by
    refine Scanner.still_of_forall fun c hc => ?_
    have hne : c ≠ '|' ∧ c ≠ '"' := ⟨fun h => hpipe (h ▸ hc), fun h => hquote (h ▸ hc)⟩
    simp [shownScanner, Nesting.shows, Nesting.next, hne]
  have hclose : (shownScanner p).run? ⟨false, true, 0⟩ ['|', ' '] = some .neutral := by
    simp [Scanner.run?, shownScanner, Nesting.shows, Nesting.next, Nesting.neutral, hp, isOpener,
      isCloser]
  have hopen : (shownScanner p).run? .neutral ['|'] = some ⟨false, true, 0⟩ := rfl
  exact Scanner.run?_append (Scanner.run?_append hopen htext) hclose

theorem Caption.still_shown {p : Char → Bool} (hp : p ' ' = true) (c : Caption) :
    (shownScanner p).Still .neutral c.print :=
  piped_still_shown hp (fun h => (c.legal _ h).1 rfl) fun h => (c.legal _ h).2.1 rfl

theorem Dress.still_pipeScanner (d : Dress) : pipeScanner.Still {} d.print :=
  quoted_still_pipeScanner d.mem_wrappers d.text.unquoted

theorem Group.still_pipeScanner (g : Group) : pipeScanner.Still {} g.print :=
  g.still (fun x => x.still (plain_pipeScanner 0) Dress.still_pipeScanner) rfl

theorem Caption.run?_pipeScanner (c : Caption) : pipeScanner.Still {} c.chars := by
  refine Scanner.still_of_forall fun d hd => ?_
  obtain ⟨hpipe, hquote, _, hopener, hcloser⟩ := c.legal d hd
  simp [pipeScanner, PipeNesting.next, PipeNesting.isPipe, hpipe, hquote, hopener, hcloser]

theorem Dress.still_commentScanner (d : Dress) : commentScanner.Still {} d.print :=
  quoted_still_commentScanner d.mem_wrappers d.text.unquoted

/-- Without quotes and two percent signs in a row there is no comment. -/
theorem run?_commentScanner {s : List Char} (hquote : '"' ∉ s) {percent : Bool}
    (hfirst : percent = true → s.head? ≠ some '%') (hnone : ¬ ['%', '%'] <:+: s) :
    ∃ b, commentScanner.run? ⟨false, percent⟩ s = some ⟨false, b⟩ := by
  -- after a percent sign the induction needs to know that the next character is none
  induction s generalizing percent with
  | nil => exact ⟨percent, rfl⟩
  | cons c s ih =>
    obtain ⟨hc, hs⟩ := not_or.1 (mt List.mem_cons.2 hquote)
    have hfine : commentScanner.fine ⟨false, percent⟩ c = true := by
      by_cases hpercent : percent = true
      · have hne : c ≠ '%' := fun h => hfirst hpercent (congrArg some h)
        simp [commentScanner, hne]
      · simp [commentScanner, hpercent]
    have hnext : commentScanner.next ⟨false, percent⟩ c = ⟨false, c == '%'⟩ := by
      simp [commentScanner, Ne.symm hc]
    rw [Scanner.run?_cons hfine, hnext]
    refine ih hs (fun hcp hhead => hnone ?_) fun h => hnone (h.trans (List.suffix_cons c s).isInfix)
    obtain ⟨r, rfl⟩ := List.head?_eq_some_iff.1 hhead
    obtain rfl : c = '%' := by simpa using hcp
    exact ⟨[], r, rfl⟩

theorem piped_still_commentScanner {s : List Char} (hquote : '"' ∉ s) (hnone : ¬ ['%', '%'] <:+: s) :
    commentScanner.Still {} (piped s) := by
  obtain ⟨b, htext⟩ := run?_commentScanner hquote (fun h => absurd h Bool.false_ne_true) hnone
  have hopen : commentScanner.run? {} ['|'] = some ⟨false, false⟩ := rfl
  have hclose : commentScanner.run? ⟨false, b⟩ ['|', ' '] = some {} := by
    cases b <;> rfl
  exact Scanner.run?_append (Scanner.run?_append hopen htext) hclose

theorem Caption.still_commentScanner (c : Caption) : commentScanner.Still {} c.print :=
  piped_still_commentScanner (fun h => (c.legal _ h).2.1 rfl) c.uncommented

/-- Without three colons in a row there is no marker of a class. -/
theorem run?_markerScanner {s : List Char} {k : Nat} (hk : k ≤ 2)
    (hnone : ¬ classMarker <:+: List.replicate k ':' ++ s) :
    ∃ l, markerScanner.run? k s = some l := by
  -- the colons counted so far stand in front of what is left
  induction s generalizing k with
  | nil => exact ⟨k, rfl⟩
  | cons c s ih =>
    by_cases hc : c = ':'
    · subst hc
      have hlt : k ≠ 2 := by
        rintro rfl
        exact hnone ⟨[], s, rfl⟩
      have hfine : markerScanner.fine k ':' = true := by simp [markerScanner, hlt]
      have hnext : markerScanner.next k ':' = k + 1 := rfl
      have hmove : List.replicate k ':' ++ ':' :: s = List.replicate (k + 1) ':' ++ s := by
        rw [List.replicate_succ', List.append_assoc]
        rfl
      rw [Scanner.run?_cons hfine, hnext]
      exact ih (by omega) (hmove ▸ hnone)
    · have hfine : markerScanner.fine k c = true := by simp [markerScanner, hc]
      have hnext : markerScanner.next k c = 0 := by simp [markerScanner, hc]
      rw [Scanner.run?_cons hfine, hnext]
      refine ih (by omega) fun h => hnone (h.trans ?_)
      exact ⟨List.replicate k ':' ++ [c], [], by simp⟩

theorem Dress.still_markerScanner (d : Dress) : markerScanner.Still 0 d.print := by
  have hwrapper : ∀ w ∈ wrappers,
      markerScanner.run? 0 w.opening = some 0 ∧ markerScanner.run? 0 w.closing = some 0 := by
    decide
  obtain ⟨hopening, hclosing⟩ := hwrapper d.wrapper d.mem_wrappers
  obtain ⟨l, htext⟩ := run?_markerScanner (Nat.zero_le 2) (s := d.text.chars) d.text.unmarked
  have hunquote : markerScanner.run? l ['"'] = some 0 := by simp [Scanner.run?, markerScanner]
  exact still_quoted hopening rfl htext hunquote hclosing

theorem Dress.still_lineScanner (d : Dress) : lineScanner.Still () d.print :=
  quoted_still_lineScanner d.mem_wrappers d.text.oneLine

theorem Caption.still_lineScanner (c : Caption) : lineScanner.Still () c.print := by
  have hchars : lineScanner.Still () c.chars :=
    lineScanner_still_iff.2 fun h => (c.legal _ h).2.2.1 rfl
  have hopen : lineScanner.Still () ['|'] := rfl
  exact (hopen.append hchars).append rfl

end Flowchart.Script
