import Flowchart.Proofs.Source.Mask
import Flowchart.Proofs.Source.Semicolon

/-! The mask has a byte for each byte of the line, so a character of the line and what the mask has
in its place are found at the same offset. -/
namespace Flowchart.Source

open Text (attach isBlank trim)

def bytes (s : List Char) : List UInt8 := s.flatMap String.utf8EncodeChar

def maskBytes (line : List Char) : List UInt8 := bytes (masked (cells line))

/-- What a mask has in the place of a character, given what the line has before it. -/
def under (mask : List UInt8) (before : List Char) (c : Char) : List UInt8 :=
  (mask.drop (bytes before).length).take c.utf8Size

/-- The pieces of a line between the places where the mask has the mark. Line and mask are walked
along together. -/
def cutUnder (mark : Char) : List UInt8 → List Char → List (List Char)
  | _, [] => [[]]
  | mask, c :: r =>
    if (String.utf8EncodeChar mark).isPrefixOf mask then
      [] :: cutUnder mark (mask.drop c.utf8Size) r
    else attach c (cutUnder mark (mask.drop c.utf8Size) r)

/-- The text stands in the line, and its own mask stands at that place in the mask of the line. -/
def MaskedWithin (line s : List Char) : Prop :=
  ∃ before after, line = before ++ s ++ after ∧
    maskBytes s = ((maskBytes line).drop (bytes before).length).take (bytes s).length

/-- The nesting of a splitter that keeps the open quote and counts brackets with a sign, in 32 bits. -/
structure SignedNesting where
  quote : Option Char := none
  piped : Bool := false
  depth : Int32 := 0

namespace SignedNesting

/-- The nesting after a character. The count is set back to zero when it falls below; above the
largest number of 32 bits it goes on with the least one. -/
def next (n : SignedNesting) (c : Char) : SignedNesting :=
  match n.quote with
  | some q => if c = q then { n with quote := none } else n
  | none =>
    if c = '"' then { n with quote := some c }
    else if c = '|' ∧ n.depth = 0 then { n with piped := !n.piped }
    else if n.piped then n
    else if isOpener c then { n with depth := n.depth + 1 }
    else if isCloser c then { n with depth := max (n.depth - 1) 0 }
    else n

def parts (n : SignedNesting) : Bool := n.quote.isNone && !n.piped && n.depth == 0

end SignedNesting

def signedStatementsFrom (n : SignedNesting) (current : List Char) : List Char → List (List Char)
  | [] => statementsFrom.close current []
  | c :: r =>
    if c = ';' ∧ n.parts then statementsFrom.close current (signedStatementsFrom n [] r)
    else signedStatementsFrom (n.next c) (c :: current) r

def signedStatements (line : List Char) : List (List Char) := signedStatementsFrom {} [] line

theorem bytes_append (s t : List Char) : bytes (s ++ t) = bytes s ++ bytes t := List.flatMap_append

theorem bytes_cons (c : Char) (s : List Char) :
    bytes (c :: s) = String.utf8EncodeChar c ++ bytes s := rfl

theorem length_bytes_cons (c : Char) (s : List Char) :
    (bytes (c :: s)).length = c.utf8Size + (bytes s).length := by
  rw [bytes_cons, List.length_append, String.length_utf8EncodeChar]

/-- The bytes of a character begin those of no other one. -/
theorem utf8EncodeChar_prefix_iff (c d : Char) (s : List Char) :
    String.utf8EncodeChar c <+: bytes (d :: s) ↔ c = d := by
  constructor
  · rintro ⟨rest, hrest⟩
    have hdecode := congrArg (fun b => b.toByteArray.utf8DecodeChar? 0) hrest
    simp only [bytes_cons, List.toByteArray_append,
      ByteArray.utf8DecodeChar?_utf8EncodeChar_append] at hdecode
    exact Option.some.inj hdecode
  · rintro rfl
    exact List.prefix_append _ _

theorem bytes_blanks (n : Nat) : bytes (List.replicate n ' ') = List.replicate n 32 := by
  induction n with
  | zero => rfl
  | succ n ih =>
    rw [List.replicate_succ, bytes_cons, ih]
    rfl

theorem length_bytes_masked (c : Cell) : (bytes c.masked).length = c.char.utf8Size := by
  unfold Cell.masked
  split
  · rw [length_bytes_cons]
    rfl
  · rw [bytes_blanks, List.length_replicate]

/-- A mark other than the blank begins the mask exactly when it is shown as the first character. -/
theorem mark_prefix_iff {mark : Char} (hmark : mark ≠ ' ') (c : Cell) (line : List Cell) :
    String.utf8EncodeChar mark <+: bytes (masked (c :: line)) ↔
      c.char = mark ∧ c.shown = true := by
  obtain ⟨char, shown⟩ := c
  rw [masked_cons]
  cases shown with
  | true =>
    refine (utf8EncodeChar_prefix_iff mark char _).trans ?_
    simp [eq_comm]
  | false =>
    obtain ⟨n, hn⟩ := Nat.exists_eq_succ_of_ne_zero char.utf8Size_pos.ne'
    have hblank : Cell.masked ⟨char, false⟩ = ' ' :: List.replicate n ' ' := by
      rw [Cell.masked, if_neg Bool.false_ne_true, hn, List.replicate_succ]
    rw [hblank]
    refine (utf8EncodeChar_prefix_iff mark ' ' _).trans ?_
    simp [hmark]

/-- One step of cutting: the mark is found where it is shown, and the mask of the rest is left. -/
theorem cutUnder_cells {mark : Char} (hmark : mark ≠ ' ') (n : Nesting) (c : Char)
    (r : List Char) :
    cutUnder mark (bytes (masked (cellsFrom n (c :: r)))) (c :: r) =
      if c = mark ∧ n.shows c then
        [] :: cutUnder mark (bytes (masked (cellsFrom (n.next c) r))) r
      else attach c (cutUnder mark (bytes (masked (cellsFrom (n.next c) r))) r) := by
  have hrest : (bytes (masked (cellsFrom n (c :: r)))).drop c.utf8Size =
      bytes (masked (cellsFrom (n.next c) r)) := by
    rw [cellsFrom, masked_cons, bytes_append]
    exact List.drop_left' (length_bytes_masked _)
  have hfirst : (String.utf8EncodeChar mark).isPrefixOf (bytes (masked (cellsFrom n (c :: r)))) =
      true ↔ c = mark ∧ n.shows c = true :=
    List.isPrefixOf_iff_prefix.trans (mark_prefix_iff hmark _ _)
  rw [cutUnder, hrest]
  exact if_congr hfirst rfl rfl

theorem attach_ne_nil (c : Char) (found : List (List Char)) : attach c found ≠ [] := by
  cases found <;> exact List.cons_ne_nil _ _

theorem cutUnder_ne_nil (mark : Char) (mask : List UInt8) (line : List Char) :
    cutUnder mark mask line ≠ [] := by
  cases line with
  | nil => exact List.cons_ne_nil _ _
  | cons c r =>
    rw [cutUnder]
    split
    · exact List.cons_ne_nil _ _
    · exact attach_ne_nil _ _

theorem groupPartsFrom_eq (n : Nesting) (line : List Char) :
    groupPartsFrom n line = cutUnder '&' (bytes (masked (cellsFrom n line))) line := by
  induction line generalizing n with
  | nil => rfl
  | cons c r ih =>
    rw [groupPartsFrom, cutUnder_cells (by decide), ← ih]
    split
    · next h => rw [Nesting.next_of_shows h.2]
    · rfl

theorem modifyHead_nil_append (found : List (List Char)) :
    found.modifyHead (([] : List Char).reverse ++ ·) = found := by
  cases found <;> rfl

/-- The statement so far is the start of the first piece. -/
theorem statementsFrom_eq (n : Nesting) (current line : List Char) :
    statementsFrom n current line =
      (((cutUnder ';' (bytes (masked (cellsFrom n line))) line).modifyHead
        (current.reverse ++ ·)).map trim).filter (!·.isEmpty) := by
  have hclose (s : List Char) (others : List (List Char)) :
      statementsFrom.close s ((others.map trim).filter (!·.isEmpty)) =
        ((s.reverse :: others).map trim).filter (!·.isEmpty) := by
    rw [statementsFrom.close, List.map_cons, List.filter_cons]
    cases (trim s.reverse).isEmpty <;> rfl
  induction line generalizing n current with
  | nil =>
    have hend := hclose current []
    rw [statementsFrom]
    simpa [cutUnder] using hend
  | cons c r ih =>
    rw [statementsFrom, cutUnder_cells (by decide), ih, ih]
    split
    · next h =>
      rw [Nesting.next_of_shows h.2, modifyHead_nil_append, hclose]
      simp
    · obtain ⟨first, others, hfound⟩ := List.exists_cons_of_ne_nil
        (cutUnder_ne_nil ';' (bytes (masked (cellsFrom (n.next c) r))) r)
      rw [hfound]
      simp [attach]

theorem statements_eq_cutUnder (line : List Char) :
    statements line = ((cutUnder ';' (maskBytes line) line).map trim).filter (!·.isEmpty) := by
  rw [statements, statementsFrom_eq, modifyHead_nil_append]
  rfl

theorem groupParts_eq_cutUnder (line : List Char) :
    groupParts line = cutUnder '&' (maskBytes line) line := groupPartsFrom_eq .neutral line

def Nesting.signed (n : Nesting) : SignedNesting :=
  ⟨if n.quoted then some '"' else none, n.piped, .ofNat n.depth⟩

theorem ofNat_eq_zero_iff {depth : Nat} (h : depth < 2 ^ 31) : Int32.ofNat depth = 0 ↔ depth = 0 := by
  rw [← Int32.toInt_inj, Int32.toInt_ofNat_of_lt h, Int32.toInt_zero, Int.natCast_eq_zero]

/-- Closing a bracket, when there are not so many that the count has wrapped around. -/
theorem ofNat_pred {depth : Nat} (h : depth < 2 ^ 31) :
    Int32.ofNat (depth - 1) = max (Int32.ofNat depth - 1) 0 := by
  cases depth with
  | zero => decide
  | succ depth =>
    have hpred : Int32.ofNat (depth + 1) - 1 = Int32.ofNat depth := by
      rw [Int32.ofNat_add]
      exact Int32.add_sub_cancel _ _
    have hnonneg : 0 ≤ Int32.ofNat depth := by
      rw [Int32.le_iff_toInt_le, Int32.toInt_ofNat_of_lt (by omega)]
      exact Int.natCast_nonneg depth
    rw [hpred, Nat.add_sub_cancel]
    change _ = if Int32.ofNat depth ≤ 0 then 0 else Int32.ofNat depth
    split
    · next hle => exact Int32.le_antisymm hle hnonneg
    · rfl

theorem Nesting.signed_next {n : Nesting} (h : n.depth < 2 ^ 31) (c : Char) :
    (n.next c).signed = n.signed.next c := by
  obtain ⟨quoted, piped, depth⟩ := n
  cases quoted with
  | true => by_cases hc : c = '"' <;> simp [next, signed, SignedNesting.next, hc]
  | false =>
    simp only [next, signed, SignedNesting.next, Bool.false_eq_true, if_false, ofNat_eq_zero_iff h]
    by_cases hquote : c = '"'
    · simp [hquote]
    by_cases hpipe : c = '|' ∧ depth = 0
    · simp [hpipe]
    by_cases hpiped : piped = true
    · simp [hquote, hpipe, hpiped]
    by_cases hopener : isOpener c = true
    · simp [hquote, hpipe, hpiped, hopener]
    by_cases hcloser : isCloser c = true
    · simp [hquote, hpipe, hpiped, hopener, hcloser, ofNat_pred h]
    · simp [hquote, hpipe, hpiped, hopener, hcloser]

theorem Nesting.parts_signed {n : Nesting} (h : n.depth < 2 ^ 31) : n.signed.parts = n.shows ';' := by
  obtain ⟨quoted, piped, depth⟩ := n
  have hdepth : (Int32.ofNat depth == 0) = (depth == 0) := by
    rw [Bool.eq_iff_iff, beq_iff_eq, beq_iff_eq, ofNat_eq_zero_iff h]
  cases quoted <;> simp [signed, SignedNesting.parts, shows, isOpener, isCloser, hdepth]

theorem signedStatementsFrom_eq (n : Nesting) (current : List Char) {line : List Char}
    (h : ∀ before, before <+: line → (before.foldl Nesting.next n).depth < 2 ^ 31) :
    signedStatementsFrom n.signed current line = statementsFrom n current line := by
  induction line generalizing n current with
  | nil => rfl
  | cons c r ih =>
    have hfirst : n.depth < 2 ^ 31 := h [] List.nil_prefix
    have hrest (current : List Char) := ih (n.next c) current fun before hbefore =>
      h (c :: before) (List.cons_prefix_cons.2 ⟨rfl, hbefore⟩)
    have hcut : (c = ';' ∧ n.signed.parts = true) ↔ c = ';' ∧ n.shows c = true :=
      and_congr_right fun hc => by rw [n.parts_signed hfirst, hc]
    rw [signedStatementsFrom, statementsFrom, ← n.signed_next hfirst, hrest]
    by_cases hshown : c = ';' ∧ n.shows c = true
    · have hafter := hrest []
      rw [Nesting.next_of_shows hshown.2] at hafter
      rw [if_pos (hcut.2 hshown), if_pos hshown, hafter]
    · rw [if_neg (mt hcut.1 hshown), if_neg hshown]

/-- Only as many brackets can be open as the line has characters. -/
theorem depth_foldl_next_le (n : Nesting) (s : List Char) :
    (s.foldl Nesting.next n).depth ≤ n.depth + s.length := by
  induction s generalizing n with
  | nil => exact le_rfl
  | cons c s ih =>
    have hnext : (n.next c).depth ≤ n.depth + 1 := by
      unfold Nesting.next
      split_ifs <;> simp
      omega
    have hrest := ih (n.next c)
    rw [List.foldl_cons, List.length_cons]
    omega

theorem length_bytes_masked_cells (line : List Cell) :
    (bytes (masked line)).length = (bytes (line.map Cell.char)).length := by
  induction line with
  | nil => rfl
  | cons c line ih =>
    rw [masked_cons, bytes_append, List.length_append, length_bytes_masked, ih, List.map_cons,
      length_bytes_cons]

theorem length_maskBytes (line : List Char) : (maskBytes line).length = (bytes line).length := by
  rw [maskBytes, length_bytes_masked_cells, cells, char_cellsFrom]

theorem maskBytes_append (before after : List Char) :
    maskBytes (before ++ after) = maskBytes before ++
      bytes (masked (cellsFrom (before.foldl Nesting.next .neutral) after)) := by
  rw [maskBytes, cells, cellsFrom_append_foldl, masked_append, bytes_append]
  rfl

/-- Where everything is closed the mask begins afresh. -/
theorem maskBytes_append_of_neutral {before : List Char}
    (h : before.foldl Nesting.next .neutral = .neutral) (after : List Char) :
    maskBytes (before ++ after) = maskBytes before ++ maskBytes after := by
  rw [maskBytes_append, h]
  rfl

theorem take_maskBytes (before after : List Char) :
    (maskBytes (before ++ after)).take (bytes before).length = maskBytes before := by
  rw [maskBytes_append, List.take_left' (length_maskBytes before)]

theorem drop_maskBytes {before : List Char}
    (h : before.foldl Nesting.next .neutral = .neutral) (after : List Char) :
    (maskBytes (before ++ after)).drop (bytes before).length = maskBytes after := by
  rw [maskBytes_append_of_neutral h, List.drop_left' (length_maskBytes before)]

/-- The mask has the character itself or a blank for each of its bytes. -/
theorem under_maskBytes (before : List Char) (c : Char) (after : List Char) :
    under (maskBytes (before ++ c :: after)) before c =
      bytes (Cell.masked ⟨c, (before.foldl Nesting.next .neutral).shows c⟩) := by
  rw [under, maskBytes_append, List.drop_left' (length_maskBytes before), cellsFrom, masked_cons,
    bytes_append]
  exact List.take_left' (length_bytes_masked _)

theorem under_eq_or (before : List Char) (c : Char) (after : List Char) :
    under (maskBytes (before ++ c :: after)) before c = String.utf8EncodeChar c ∨
      under (maskBytes (before ++ c :: after)) before c = List.replicate c.utf8Size 32 := by
  rw [under_maskBytes]
  unfold Cell.masked
  split
  · exact .inl (List.flatMap_singleton _ _)
  · exact .inr (bytes_blanks _)

theorem shows_of_under {before after : List Char} {c : Char} (hc : c ≠ ' ')
    (h : under (maskBytes (before ++ c :: after)) before c = String.utf8EncodeChar c) :
    (before.foldl Nesting.next .neutral).shows c = true := by
  rw [under_maskBytes] at h
  refine ((mark_prefix_iff hc ⟨c, (before.foldl Nesting.next .neutral).shows c⟩ []).1 ?_).2
  rw [← h, masked, List.flatMap_singleton]

/-- A line can be cut in front of a shown character and behind it. -/
theorem maskBytes_of_shows {before : List Char} {c : Char}
    (h : (before.foldl Nesting.next .neutral).shows c = true) (after : List Char) :
    maskBytes before = (maskBytes (before ++ c :: after)).take (bytes before).length ∧
      maskBytes (c :: after) = (maskBytes (before ++ c :: after)).drop (bytes before).length ∧
      maskBytes after =
        (maskBytes (before ++ c :: after)).drop (bytes (before ++ [c])).length := by
  have hneutral := Nesting.eq_neutral_of_shows h
  have hthrough : (before ++ [c]).foldl Nesting.next .neutral = .neutral := by
    rw [List.foldl_append, List.foldl_cons, List.foldl_nil, Nesting.next_of_shows h, hneutral]
  have hafter := drop_maskBytes hthrough after
  rw [List.append_assoc, List.singleton_append] at hafter
  exact ⟨(take_maskBytes _ _).symm, (drop_maskBytes hneutral _).symm, hafter.symm⟩

theorem foldl_next_blanks {blanks : List Char} (h : ∀ c ∈ blanks, isBlank c = true)
    (n : Nesting) : blanks.foldl Nesting.next n = n := by
  induction blanks with
  | nil => rfl
  | cons c blanks ih =>
    obtain ⟨hc, hrest⟩ := List.forall_mem_cons.1 h
    rw [List.foldl_cons, next_of_isBlank hc]
    exact ih hrest

/-- The first piece begins the line, and the others begin where everything is closed. -/
theorem pieces_of_cutUnder {mark : Char} (hmark : mark ≠ ' ') {n : Nesting}
    {line first : List Char} {others : List (List Char)}
    (h : cutUnder mark (bytes (masked (cellsFrom n line))) line = first :: others) :
    first <+: line ∧ ∀ p ∈ others, ∃ before after, line = before ++ p ++ after ∧
      before.foldl Nesting.next n = .neutral := by
  induction line generalizing n first others with
  | nil =>
    obtain ⟨rfl, rfl⟩ := List.cons.inj h
    exact ⟨List.prefix_refl _, fun p hp => absurd hp List.not_mem_nil⟩
  | cons c r ih =>
    obtain ⟨next, rest, hrest⟩ := List.exists_cons_of_ne_nil
      (cutUnder_ne_nil mark (bytes (masked (cellsFrom (n.next c) r))) r)
    obtain ⟨⟨after, hnext⟩, hothers⟩ := ih hrest
    have hlater : ∀ p ∈ rest, ∃ before after, c :: r = before ++ p ++ after ∧
        before.foldl Nesting.next n = .neutral := by
      intro p hp
      obtain ⟨before, after, hr, hneutral⟩ := hothers p hp
      exact ⟨c :: before, after, congrArg (c :: ·) hr, hneutral⟩
    -- a shown mark leaves everything closed, and the next piece begins behind it
    rw [cutUnder_cells hmark, hrest] at h
    split at h
    · next hcut =>
      obtain ⟨rfl, rfl⟩ := List.cons.inj h
      refine ⟨List.nil_prefix, List.forall_mem_cons.2 ⟨⟨[c], after, ?_, ?_⟩, hlater⟩⟩
      · exact congrArg (c :: ·) hnext.symm
      · rw [List.foldl_cons, Nesting.next_of_shows hcut.2]
        exact Nesting.eq_neutral_of_shows hcut.2
    · obtain ⟨rfl, rfl⟩ := List.cons.inj h
      exact ⟨⟨after, congrArg (c :: ·) hnext⟩, hlater⟩

theorem maskedWithin_of_neutral {line before s after : List Char}
    (hline : line = before ++ s ++ after) (h : before.foldl Nesting.next .neutral = .neutral) :
    MaskedWithin line s := by
  refine ⟨before, after, hline, ?_⟩
  rw [hline, List.append_assoc, drop_maskBytes h, take_maskBytes]

/-- A piece without the blanks around it is masked as it is in the line. -/
theorem maskedWithin_of_cutUnder {mark : Char} (hmark : mark ≠ ' ') {line p : List Char}
    (hp : p ∈ cutUnder mark (maskBytes line) line) :
    MaskedWithin line p ∧ MaskedWithin line (trim p) := by
  obtain ⟨before, after, hline, hneutral⟩ : ∃ before after, line = before ++ p ++ after ∧
      before.foldl Nesting.next .neutral = .neutral := by
    obtain ⟨first, others, hfound⟩ := List.exists_cons_of_ne_nil
      (cutUnder_ne_nil mark (maskBytes line) line)
    obtain ⟨⟨after, hfirst⟩, hothers⟩ := pieces_of_cutUnder hmark hfound
    rw [hfound] at hp
    rcases List.mem_cons.1 hp with rfl | hp
    · exact ⟨[], after, hfirst.symm, rfl⟩
    · exact hothers p hp
  refine ⟨maskedWithin_of_neutral hline hneutral, ?_⟩
  obtain ⟨a, b, htrim, ha, -⟩ := Text.exists_trim p
  have htrimmed : line = (before ++ a) ++ trim p ++ (b ++ after) := by
    calc line
      _ = before ++ p ++ after := hline
      _ = before ++ (a ++ trim p ++ b) ++ after := by rw [← htrim]
      _ = (before ++ a) ++ trim p ++ (b ++ after) := by simp only [List.append_assoc]
  refine maskedWithin_of_neutral htrimmed ?_
  rw [List.foldl_append, hneutral, foldl_next_blanks ha]

/-- Lines are cut where their masks are. Statements and parts of groups lie between the semicolons
and the ampersands of the mask, also when brackets are counted with a sign, if there are never 2^31 of
them open. The mask has as many bytes as the line, and in the place of each character it has either
that character or blanks; where it has the character, and this is no blank, the line can be cut and
both parts be masked afresh. -/
theorem cut_under_mask (line : List Char) :
    statements line = ((cutUnder ';' (maskBytes line) line).map trim).filter (!·.isEmpty) ∧
    ((∀ before, before <+: line → (before.foldl Nesting.next .neutral).depth < 2 ^ 31) →
      signedStatements line =
        ((cutUnder ';' (maskBytes line) line).map trim).filter (!·.isEmpty)) ∧
    groupParts line = cutUnder '&' (maskBytes line) line ∧
    (∀ s ∈ statements line, MaskedWithin line s) ∧
    (∀ s ∈ groupParts line, MaskedWithin line s) ∧
    (maskBytes line).length = (bytes line).length ∧
    ∀ before c after, line = before ++ c :: after →
      (under (maskBytes line) before c = String.utf8EncodeChar c ∨
        under (maskBytes line) before c = List.replicate c.utf8Size 32) ∧
      (c ≠ ' ' → under (maskBytes line) before c = String.utf8EncodeChar c →
        maskBytes before = (maskBytes line).take (bytes before).length ∧
        maskBytes (c :: after) = (maskBytes line).drop (bytes before).length ∧
        maskBytes after = (maskBytes line).drop (bytes (before ++ [c])).length) := by
  have hstatements := statements_eq_cutUnder line
  have hparts := groupParts_eq_cutUnder line
  refine ⟨hstatements, fun hdepth => ?_, hparts, ?_, ?_, length_maskBytes line, ?_⟩
  · exact (signedStatementsFrom_eq .neutral [] hdepth).trans hstatements
  · intro s hs
    rw [hstatements] at hs
    obtain ⟨p, hp, rfl⟩ := List.mem_map.1 (List.mem_of_mem_filter hs)
    exact (maskedWithin_of_cutUnder (by decide) hp).2
  · intro s hs
    rw [hparts] at hs
    exact (maskedWithin_of_cutUnder (by decide) hs).1
  · rintro before c after rfl
    exact ⟨under_eq_or before c after,
      fun hc hunder => maskBytes_of_shows (shows_of_under hc hunder) after⟩

/-- A semicolon in quotes is masked, and the one behind brackets parts two statements. -/
theorem shownSemicolon_cuts :
    let before := "é[\";\"]) ".toList
    let after := " B & C".toList
    let line := before ++ ';' :: after
    (∀ start, start <+: line → (start.foldl Nesting.next .neutral).depth < 2 ^ 31) ∧
      (';' ≠ ' ' ∧ under (maskBytes line) before ';' = String.utf8EncodeChar ';') ∧
      signedStatements line = ["é[\";\"])".toList, "B & C".toList] ∧
      maskBytes before = (maskBytes line).take (bytes before).length ∧
      maskBytes (';' :: after) = (maskBytes line).drop (bytes before).length ∧
      maskBytes after = (maskBytes line).drop (bytes (before ++ [';'])).length := by
  intro before after line
  obtain ⟨-, hsigned, -, -, -, -, hcuts⟩ := cut_under_mask line
  have hdepth : ∀ start, start <+: line →
      (start.foldl Nesting.next .neutral).depth < 2 ^ 31 := by
    intro start hstart
    have hlength : line.length < 2 ^ 31 := by decide
    have hle := depth_foldl_next_le .neutral start
    rw [show Nesting.neutral.depth = 0 from rfl] at hle
    have := hstart.length_le
    omega
  have hunder : under (maskBytes line) before ';' = String.utf8EncodeChar ';' := by decide
  refine ⟨hdepth, ⟨by decide, hunder⟩, (hsigned hdepth).trans (by decide), ?_⟩
  exact (hcuts before ';' after rfl).2 (by decide) hunder

theorem replicate_succ_append (k : Nat) (c : Char) (s : List Char) :
    List.replicate (k + 1) c ++ s = List.replicate k c ++ c :: s := by
  rw [List.replicate_succ', List.append_assoc, List.singleton_append]

theorem statementsFrom_openers (k depth : Nat) (current r : List Char) :
    statementsFrom ⟨false, false, depth⟩ current (List.replicate k '(' ++ r) =
      statementsFrom ⟨false, false, depth + k⟩ (List.replicate k '(' ++ current) r := by
  induction k generalizing depth current with
  | zero => rfl
  | succ k ih =>
    have hdepth : depth + (k + 1) = depth + 1 + k := by omega
    rw [replicate_succ_append k '(' current, hdepth, ← ih]
    rfl

theorem signedStatementsFrom_openers (k : Nat) (depth : Int32) (current r : List Char) :
    signedStatementsFrom ⟨none, false, depth⟩ current (List.replicate k '(' ++ r) =
      signedStatementsFrom ⟨none, false, depth + .ofNat k⟩ (List.replicate k '(' ++ current) r := by
  induction k generalizing depth current with
  | zero =>
    have hzero : depth + Int32.ofNat 0 = depth := Int32.add_zero depth
    rw [hzero]
    rfl
  | succ k ih =>
    have hdepth : depth + Int32.ofNat (k + 1) = depth + 1 + Int32.ofNat k := by
      rw [Nat.add_comm, Int32.ofNat_add, ← Int32.add_assoc]
      rfl
    rw [replicate_succ_append k '(' current, hdepth, ← ih]
    rfl

/-- A bracket that is still open hides a semicolon behind it. -/
theorem mem_of_mem_statements_openers {k : Nat} (hk : 2 ≤ k) {s : List Char}
    (hs : s ∈ statements (List.replicate k '(' ++ ");B".toList)) : '(' ∈ s := by
  obtain ⟨k, rfl⟩ := Nat.exists_eq_add_of_le' hk
  have hwhole : statements (List.replicate (k + 2) '(' ++ ");B".toList) =
      statementsFrom.close ('B' :: ';' :: ')' :: List.replicate (k + 2) '(') [] := by
    rw [statements, Nesting.neutral, statementsFrom_openers, List.append_nil]
    simp [statementsFrom, Nesting.shows, Nesting.next, isOpener, isCloser]
  rw [hwhole, statementsFrom.close] at hs
  split at hs
  · exact absurd hs List.not_mem_nil
  obtain rfl := List.mem_singleton.1 hs
  obtain ⟨a, b, htrim, ha, hb⟩ := Text.exists_trim ('B' :: ';' :: ')' :: List.replicate (k + 2) '(').reverse
  have hmem : '(' ∈ ('B' :: ';' :: ')' :: List.replicate (k + 2) '(').reverse := by simp
  rw [htrim] at hmem
  have hblank {blanks : List Char} (h : ∀ c ∈ blanks, isBlank c = true) : '(' ∉ blanks :=
    fun hc => absurd (h '(' hc) (by decide)
  simpa [hblank ha, hblank hb] using hmem

theorem mem_signedStatements_openers {k : Nat} (hk : Int32.ofNat k = Int32.minValue + 1) :
    ['B'] ∈ signedStatements (List.replicate k '(' ++ ");B".toList) := by
  have hclosed : SignedNesting.next ⟨none, false, 0 + Int32.ofNat k⟩ ')' = {} := by
    rw [hk]
    rfl
  have hparted : signedStatements (List.replicate k '(' ++ ");B".toList) =
      statementsFrom.close (')' :: List.replicate k '(') [['B']] := by
    rw [signedStatements, signedStatementsFrom_openers, List.append_nil]
    change signedStatementsFrom (SignedNesting.next _ ')') _ [';', 'B'] = _
    rw [hclosed]
    rfl
  rw [hparted, statementsFrom.close]
  split
  · exact List.mem_singleton_self _
  · exact List.mem_cons_of_mem _ (List.mem_singleton_self _)

/-- Behind 2^31 brackets and one more, a single closing one sets the count to zero, and the next
semicolon parts statements though the mask does not show it. -/
theorem wrappedCount_cuts :
    let line := List.replicate (2 ^ 31 + 1) '(' ++ ");B".toList
    signedStatements line ≠
      ((cutUnder ';' (maskBytes line) line).map trim).filter (!·.isEmpty) := by
  intro line heq
  have hmem : ['B'] ∈ signedStatements line := mem_signedStatements_openers (by decide)
  rw [heq, ← statements_eq_cutUnder] at hmem
  exact absurd (mem_of_mem_statements_openers (by decide) hmem) (by decide)

end Flowchart.Source
