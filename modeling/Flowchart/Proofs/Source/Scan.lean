import Flowchart.Proofs.Text.Snug
import Flowchart.Source.Line
import Flowchart.Source.Reference

/-! Each function that cuts lines, groups or tokens belongs to a scanner, and it leaves a text that
its scanner reads without minding anything in one piece. Scanners read texts one after the other, so
what they do on a line follows from what they do on its parts. -/
namespace Flowchart.Source

/-- A machine that reads characters, and the characters that are fine with it in a state. -/
structure Scanner (σ : Type) where
  next : σ → Char → σ
  fine : σ → Char → Bool

namespace Scanner

variable {σ : Type} {m : Scanner σ} {n a b : σ} {s t : List Char}

def run? (m : Scanner σ) (n : σ) : List Char → Option σ
  | [] => some n
  | c :: r => if m.fine n c then m.run? (m.next n c) r else none

@[simp] theorem run?_nil : m.run? n [] = some n := rfl

theorem run?_cons {c : Char} (h : m.fine n c = true) : m.run? n (c :: s) = m.run? (m.next n c) s := by
  rw [run?, if_pos h]

theorem run?_cons_eq_some {c : Char} (h : m.run? n (c :: s) = some a) :
    m.fine n c = true ∧ m.run? (m.next n c) s = some a := by
  rw [run?] at h
  split at h
  · exact ⟨‹_›, h⟩
  · exact absurd h (by simp)

theorem run?_append (hs : m.run? n s = some a) (ht : m.run? a t = some b) :
    m.run? n (s ++ t) = some b := by
  induction s generalizing n with
  | nil =>
    obtain rfl := Option.some.inj hs
    exact ht
  | cons c s ih =>
    obtain ⟨hc, hrest⟩ := run?_cons_eq_some hs
    rw [List.cons_append, run?_cons hc, ih hrest]

theorem exists_run?_of_append (h : m.run? n (s ++ t) = some b) :
    ∃ a, m.run? n s = some a ∧ m.run? a t = some b := by
  induction s generalizing n with
  | nil => exact ⟨n, rfl, h⟩
  | cons c s ih =>
    obtain ⟨hc, hrest⟩ := run?_cons_eq_some h
    obtain ⟨a, hs, ht⟩ := ih hrest
    exact ⟨a, by rw [run?_cons hc, hs], ht⟩

theorem run?_mono {m' : Scanner σ} (hnext : m'.next = m.next)
    (hfine : ∀ n c, m.fine n c = true → m'.fine n c = true) (h : m.run? n s = some a) :
    m'.run? n s = some a := by
  induction s generalizing n with
  | nil => exact h
  | cons c s ih =>
    obtain ⟨hc, hrest⟩ := run?_cons_eq_some h
    rw [run?_cons (hfine n c hc), hnext, ih hrest]

/-- The scanner reads over a text and is in the state it was in. -/
def Still (m : Scanner σ) (n : σ) (s : List Char) : Prop := m.run? n s = some n

instance [DecidableEq σ] : Decidable (m.Still n s) :=
  inferInstanceAs (Decidable (m.run? n s = some n))

theorem still_nil : m.Still n [] := rfl

theorem Still.append (hs : m.Still n s) (ht : m.Still n t) : m.Still n (s ++ t) := run?_append hs ht

theorem Still.flatMap {α : Type} {parts : List α} {f : α → List Char}
    (h : ∀ p ∈ parts, m.Still n (f p)) : m.Still n (parts.flatMap f) := by
  induction parts with
  | nil => exact still_nil
  | cons p rest ih =>
    exact (h p List.mem_cons_self).append (ih fun q hq => h q (List.mem_cons_of_mem p hq))

theorem still_of_forall (h : ∀ c ∈ s, m.fine n c = true ∧ m.next n c = n) : m.Still n s := by
  induction s with
  | nil => exact still_nil
  | cons c s ih =>
    obtain ⟨hfine, hnext⟩ := h c List.mem_cons_self
    rw [Still, run?_cons hfine, hnext]
    exact ih fun d hd => h d (List.mem_cons_of_mem c hd)

end Scanner

/-- Minds every shown character without `p`. -/
def shownScanner (p : Char → Bool) : Scanner Nesting where
  next := Nesting.next
  fine n c := !n.shows c || p c

variable {p : Char → Bool} {n m : Nesting} {s : List Char}

theorem of_shows {c : Char} (h : (shownScanner p).fine n c = true) (hc : n.shows c = true) :
    p c = true := by
  simpa [shownScanner, hc] using h

theorem statementsFrom_of_run? (current : List Char)
    (h : (shownScanner (· != ';')).run? n s = some m) :
    statementsFrom n current s = statementsFrom.close (s.reverse ++ current) [] := by
  induction s generalizing n current with
  | nil => rfl
  | cons c s ih =>
    obtain ⟨hfine, hrest⟩ := Scanner.run?_cons_eq_some h
    have hc : ¬ (c = ';' ∧ n.shows c) := by
      rintro ⟨rfl, hc⟩
      simpa using of_shows hfine hc
    have ih : statementsFrom (n.next c) (c :: current) s = _ := ih (c :: current) hrest
    rw [statementsFrom, if_neg hc, ih, List.reverse_cons, List.append_assoc]
    rfl

theorem statements_of_run? (h : (shownScanner (· != ';')).run? .neutral s = some m)
    (hs : Text.Snug s) : statements s = [s] := by
  rw [statements, statementsFrom_of_run? [] h, statementsFrom.close]
  simp [hs.trim, hs.ne_nil]

theorem groupPartsFrom_append (h : (shownScanner (· != '&')).run? n s = some m) (t : List Char) :
    ∃ part rest, groupPartsFrom m t = part :: rest ∧
      groupPartsFrom n (s ++ t) = (s ++ part) :: rest := by
  induction s generalizing n with
  | nil =>
    obtain rfl := Option.some.inj h
    have hne : groupPartsFrom n t ≠ [] := by
      cases t with
      | nil => exact List.cons_ne_nil _ _
      | cons c t =>
        rw [groupPartsFrom]
        split
        · exact List.cons_ne_nil _ _
        · cases groupPartsFrom (n.next c) t <;> exact List.cons_ne_nil _ _
    obtain ⟨part, rest, ht⟩ := List.exists_cons_of_ne_nil hne
    exact ⟨part, rest, ht, ht⟩
  | cons c s ih =>
    obtain ⟨hfine, hrest⟩ := Scanner.run?_cons_eq_some h
    obtain ⟨part, rest, ht, hst⟩ := ih hrest
    have hc : ¬ (c = '&' ∧ n.shows c) := by
      rintro ⟨rfl, hc⟩
      simpa using of_shows hfine hc
    refine ⟨part, rest, ht, ?_⟩
    rw [List.cons_append, groupPartsFrom, if_neg hc]
    exact congrArg (Text.attach c) hst

theorem groupParts_of_still (h : (shownScanner (· != '&')).Still .neutral s) :
    groupParts s = [s] := by
  obtain ⟨part, rest, hnil, hs⟩ := groupPartsFrom_append h []
  obtain ⟨rfl, rfl⟩ := List.cons.inj hnil
  simpa [groupParts] using hs

theorem groupParts_append_cons (h : (shownScanner (· != '&')).Still .neutral s) (t : List Char) :
    groupParts (s ++ '&' :: t) = s :: groupParts t := by
  obtain ⟨part, rest, hcons, hs⟩ := groupPartsFrom_append h ('&' :: t)
  rw [groupPartsFrom, if_pos ⟨rfl, rfl⟩] at hcons
  obtain ⟨rfl, rfl⟩ := List.cons.inj hcons
  simpa [groupParts] using hs

def isBare (c : Char) : Bool := c != '-' && c != '='

@[simp] theorem char_cellsFrom (n : Nesting) (line : List Char) :
    (cellsFrom n line).map Cell.char = line := by
  induction line generalizing n with
  | nil => rfl
  | cons c r ih => rw [cellsFrom, List.map_cons, ih]

theorem cellsFrom_append {p : Char → Bool} (h : (shownScanner p).run? n s = some m)
    (t : List Char) : cellsFrom n (s ++ t) = cellsFrom n s ++ cellsFrom m t := by
  induction s generalizing n with
  | nil =>
    obtain rfl := Option.some.inj h
    rfl
  | cons c s ih =>
    have hrest := (Scanner.run?_cons_eq_some h).2
    exact congrArg (Cell.mk c (n.shows c) :: ·) (ih hrest)

theorem connectorAt?_eq_none {c : Cell} (h : c.shown = true → isBare c.char = true)
    (line : List Cell) : connectorAt? (c :: line) = none := by
  have hmarkers : ∀ k ∈ connectors, ∃ d r, k.marker = d :: r ∧ isBare d = false := by
    intro k hk
    have hhead : k.marker.head?.any (!isBare ·) = true :=
      (by decide : ∀ k ∈ connectors, k.marker.head?.any (!isBare ·) = true) k hk
    obtain ⟨d, hd, hbare⟩ := (Option.any_eq_true _ _).1 hhead
    obtain ⟨r, hr⟩ := List.head?_eq_some_iff.1 hd
    exact ⟨d, r, hr, by simpa using hbare⟩
  rw [connectorAt?, List.find?_eq_none]
  intro k hk hstart
  obtain ⟨d, r, hmarker, hbare⟩ := hmarkers k hk
  rw [startsShown, hmarker, List.map_cons, List.isPrefixOf_cons_cons, Bool.and_eq_true,
    beq_iff_eq] at hstart
  have hc := hstart.1
  rw [← hc] at h
  exact absurd (h rfl) (by simp [hbare])

/-- A text that shows no start of a connector comes whole before the first one. -/
theorem cutConnectors_append (h : (shownScanner isBare).run? n s = some m) (line : List Cell) :
    cutConnectors 0 (cellsFrom n s ++ line) =
      (s ++ (cutConnectors 0 line).1, (cutConnectors 0 line).2) := by
  induction s generalizing n with
  | nil => rfl
  | cons c s ih =>
    obtain ⟨hfine, hrest⟩ := Scanner.run?_cons_eq_some h
    have hnone := connectorAt?_eq_none (c := ⟨c, n.shows c⟩) (of_shows hfine)
      (cellsFrom (n.next c) s ++ line)
    have ih : cutConnectors 0 (cellsFrom (n.next c) s ++ line) = _ := ih hrest
    rw [cellsFrom, List.cons_append, cutConnectors, hnone]
    simp only [ih, List.cons_append]

theorem cutConnectors_cells (h : (shownScanner isBare).Still .neutral s) (t : List Char) :
    cutConnectors 0 (cells (s ++ t)) =
      (s ++ (cutConnectors 0 (cells t)).1, (cutConnectors 0 (cells t)).2) := by
  rw [cells, cellsFrom_append h, cutConnectors_append h]
  rfl

/-- A marker with a blank after it is cut out. -/
theorem cutConnectors_marker {k : Connector} (hk : k ∈ connectors) (t : List Char) :
    cutConnectors 0 (cells (k.marker ++ ' ' :: t)) =
      ([], (k, (cutConnectors 0 (cells (' ' :: t))).1) :: (cutConnectors 0 (cells (' ' :: t))).2) := by
  simp only [connectors, List.mem_cons, List.not_mem_nil, or_false] at hk
  -- each marker is compared with those that come before it, of which none is a start of it
  rcases hk with rfl | rfl | rfl | rfl | rfl | rfl | rfl | rfl | rfl | rfl <;> rfl

theorem splitConnectors?_of_still (h : (shownScanner isBare).Still .neutral s) :
    splitConnectors? s = none := by
  have hcut := cutConnectors_cells h []
  rw [List.append_nil] at hcut
  rw [splitConnectors?, hcut]
  rfl

/-- Minds pipes outside quotes and brackets. -/
def pipeScanner : Scanner PipeNesting where
  next := PipeNesting.next
  fine n c := !n.isPipe c

theorem cutAtPipe?_of_run? {n m : PipeNesting} (h : pipeScanner.run? n s = some m) :
    cutAtPipe? n s = none := by
  induction s generalizing n with
  | nil => rfl
  | cons c s ih =>
    obtain ⟨hfine, hrest⟩ := Scanner.run?_cons_eq_some h
    have hc : ¬ n.isPipe c = true := by simpa [pipeScanner] using hfine
    have ih : cutAtPipe? (n.next c) s = none := ih hrest
    rw [cutAtPipe?, if_neg hc, ih]
    rfl

/-- A text is cut at the first pipe that counts. -/
theorem cutAtPipe?_append {n m : PipeNesting} (h : pipeScanner.run? n s = some m)
    (hm : m.isPipe '|' = true) (t : List Char) : cutAtPipe? n (s ++ '|' :: t) = some (s, m, t) := by
  induction s generalizing n with
  | nil =>
    obtain rfl := Option.some.inj h
    rw [List.nil_append, cutAtPipe?, if_pos hm]
  | cons c s ih =>
    obtain ⟨hfine, hrest⟩ := Scanner.run?_cons_eq_some h
    have hc : ¬ n.isPipe c = true := by simpa [pipeScanner] using hfine
    have ih : cutAtPipe? (n.next c) (s ++ '|' :: t) = some (s, m, t) := ih hrest
    rw [List.cons_append, cutAtPipe?, if_neg hc, ih]
    rfl

/-- The state of the search for comments: inside quotes, or else perhaps after a percent sign. -/
structure CommentState where
  quoted : Bool := false
  percent : Bool := false
  deriving DecidableEq

/-- Minds a second percent sign outside quotes. -/
def commentScanner : Scanner CommentState where
  next n c := if n.quoted then ⟨c != '"', false⟩ else ⟨c == '"', c == '%'⟩
  fine n c := n.quoted || !(n.percent && c == '%')

theorem dropComment_of_run? {n m : CommentState} (h : commentScanner.run? n s = some m) :
    dropComment n.quoted s = s := by
  induction s generalizing n with
  | nil => rfl
  | cons c s ih =>
    obtain ⟨hfine, hrest⟩ := Scanner.run?_cons_eq_some h
    have ih := ih hrest
    rw [dropComment]
    cases hq : n.quoted with
    | true =>
      simp only [commentScanner, hq, if_true] at ih
      rw [if_pos rfl, ih]
    | false =>
      simp only [commentScanner, hq, Bool.false_eq_true, if_false] at ih hrest
      rw [if_neg Bool.false_ne_true]
      by_cases hquote : c = '"'
      · rw [if_pos hquote]
        simp only [hquote, beq_self_eq_true] at ih
        rw [ih]
      -- a second percent sign would be minded one step later
      · have hpercent : ¬ (c = '%' ∧ s.head? = some '%') := by
          rintro ⟨rfl, hs⟩
          obtain ⟨r, rfl⟩ := List.head?_eq_some_iff.1 hs
          have hsecond := (Scanner.run?_cons_eq_some hrest).1
          exact absurd hsecond (by decide)
        have hc : (c == '"') = false := beq_eq_false_iff_ne.2 hquote
        rw [hc] at ih
        rw [if_neg hquote, if_neg hpercent, ih]

/-- Counts colons in a row, and minds the third one. -/
def markerScanner : Scanner Nat where
  next n c := if c = ':' then n + 1 else 0
  fine n c := !(n == 2 && c == ':')

theorem piecesAt_of_run? {n m : Nat} (hn : n ≤ 2) (h : markerScanner.run? n s = some m) :
    Text.piecesAt classMarker 0 s = [s] := by
  induction s generalizing n with
  | nil => rfl
  | cons c s ih =>
    -- three colons ahead would be one too many, however many are behind
    have hnot : classMarker.isPrefixOf (c :: s) = false := by
      rw [← Bool.not_eq_true, List.isPrefixOf_iff_prefix]
      rintro ⟨r, hr⟩
      rw [← hr] at h
      have hnone : markerScanner.run? n (classMarker ++ r) = none := by
        obtain rfl | rfl | rfl : n = 0 ∨ n = 1 ∨ n = 2 := by omega
        all_goals rfl
      exact absurd h (by simp [hnone])
    obtain ⟨hfine, hrest⟩ := Scanner.run?_cons_eq_some h
    have hnext : markerScanner.next n c ≤ 2 := by
      simp only [markerScanner] at hfine ⊢
      split
      · next hc =>
        have hn2 : n ≠ 2 := by simpa [hc] using hfine
        omega
      · omega
    rw [Text.piecesAt, hnot, if_neg Bool.false_ne_true, ih hnext hrest]
    rfl

theorem splitAt_of_still (h : markerScanner.Still 0 s) : Text.splitAt classMarker s = [s] :=
  piecesAt_of_run? (Nat.zero_le 2) h

end Flowchart.Source
