import Flowchart.Proofs.Source.Cut
import Flowchart.Proofs.Source.Slice

/-! A line is cut at its connectors by offsets: the mask is searched byte by byte for the first
marker, and the offsets that are found part the bytes of the line itself. -/
namespace Flowchart.Source

def ahead (n : Nat) (found : Option (Nat × Connector)) : Option (Nat × Connector) :=
  found.map fun (start, k) => (n + start, k)

theorem ahead_zero (found : Option (Nat × Connector)) : ahead 0 found = found := by
  cases found <;> simp [ahead]

theorem ahead_ahead (m n : Nat) (found : Option (Nat × Connector)) :
    ahead m (ahead n found) = ahead (m + n) found := by
  cases found <;> simp [ahead, Nat.add_assoc]

def connectorIn? : List UInt8 → Option (Nat × Connector)
  | [] => none
  | b :: r =>
    match connectors.find? fun k => (bytes k.marker).isPrefixOf (b :: r) with
    | some k => some (0, k)
    | none => ahead 1 (connectorIn? r)

/-- The offset of the first marker that the mask has at the cursor or behind it. -/
def connectorFrom? (mask : List UInt8) (cursor : Nat) : Option (Nat × Connector) :=
  ahead cursor (connectorIn? (mask.drop cursor))

/-- A token lies between the cursor and the next marker, and the cursor goes on behind that one. -/
def CutAtOffsets (mask line : List UInt8) :
    (cursor : Nat) → (token : List Char) → List (Connector × List Char) → Prop
  | cursor, token, [] => connectorFrom? mask cursor = none ∧ bytes token = line.drop cursor
  | cursor, token, (k, next) :: links =>
    ∃ start, connectorFrom? mask cursor = some (start, k) ∧
      bytes token = (line.drop cursor).take (start - cursor) ∧
      CutAtOffsets mask line (start + (bytes k.marker).length) next links

theorem bytes_prefix_iff (s t : List Char) : bytes s <+: bytes t ↔ s <+: t := by
  constructor
  · intro h
    induction s generalizing t with
    | nil => exact List.nil_prefix
    | cons c s ih =>
      cases t with
      | nil =>
        have hlength := h.length_le
        rw [length_bytes_cons] at hlength
        exact absurd hlength (by simp [bytes, c.utf8Size_pos.ne'])
      | cons d t =>
        obtain rfl := (utf8EncodeChar_prefix_iff c d t).1 ((List.prefix_append _ _).trans h)
        exact List.cons_prefix_cons.2 ⟨rfl, ih t ((List.prefix_append_right_inj _).1 h)⟩
  · rintro ⟨rest, rfl⟩
    exact bytes_append s rest ▸ List.prefix_append _ _

theorem bytes_injective : Function.Injective bytes := by
  intro s t h
  have hst := (bytes_prefix_iff s t).1 (h ▸ List.prefix_rfl)
  have hts := (bytes_prefix_iff t s).1 (h ▸ List.prefix_rfl)
  exact hst.eq_of_length_le hts.length_le

theorem utf8EncodeChar_cases (c : Char) :
    (∃ b, String.utf8EncodeChar c = [b]) ∨ ∀ b ∈ String.utf8EncodeChar c, 128 ≤ b.toNat := by
  unfold String.utf8EncodeChar
  dsimp only
  split_ifs
  · exact .inl ⟨_, rfl⟩
  all_goals
    right
    simp only [List.forall_mem_cons, List.not_mem_nil, false_implies, implies_true, and_true,
      UInt8.toNat_ofNat']
    omega

/-- Every marker begins with a hyphen or an equals sign, so other bytes are passed over. -/
theorem connectorIn?_skip {front : List UInt8} (h : ∀ b ∈ front, b ≠ 45 ∧ b ≠ 61)
    (rest : List UInt8) :
    connectorIn? (front ++ rest) = ahead front.length (connectorIn? rest) := by
  induction front with
  | nil => exact (ahead_zero _).symm
  | cons b front ih =>
    obtain ⟨hb, hfront⟩ := List.forall_mem_cons.1 h
    have hfirst : ∀ k ∈ connectors, (bytes k.marker).head? = some 45 ∨
        (bytes k.marker).head? = some 61 := by decide
    have hnone : connectors.find? (fun k => (bytes k.marker).isPrefixOf (b :: (front ++ rest))) =
        none := by
      refine List.find?_eq_none.2 fun k hk hprefix => ?_
      obtain ⟨more, hmore⟩ := List.isPrefixOf_iff_prefix.1 hprefix
      rcases hfirst k hk with hhead | hhead <;>
        · obtain ⟨tail, htail⟩ := List.head?_eq_some_iff.1 hhead
          rw [htail, List.cons_append] at hmore
          have := (List.cons.inj hmore).1
          simp_all
    rw [List.cons_append, connectorIn?, hnone, ih hfront]
    exact (ahead_ahead _ _ _).trans (by rw [Nat.add_comm, List.length_cons])

theorem find?_marker_eq (line : List Cell) :
    (connectors.find? fun k => (bytes k.marker).isPrefixOf (bytes (masked line))) =
      connectorAt? line := by
  refine List.find?_congr fun k hk => ?_
  rw [Bool.eq_iff_iff, List.isPrefixOf_iff_prefix, bytes_prefix_iff,
    startsShown_iff (blank_not_mem_marker hk)]

/-- A character at which no marker stands is passed over with all its bytes. -/
theorem connectorIn?_cons {c : Cell} {line : List Cell} (h : connectorAt? (c :: line) = none) :
    connectorIn? (bytes (masked (c :: line))) =
      ahead c.char.utf8Size (connectorIn? (bytes (masked line))) := by
  have hbytes : (∃ b, bytes c.masked = [b]) ∨ ∀ b ∈ bytes c.masked, b ≠ 45 ∧ b ≠ 61 := by
    unfold Cell.masked
    split
    · refine (utf8EncodeChar_cases c.char).imp ?_ fun hhigh b hb => ?_
      · simp [bytes]
      · have hb := hhigh b (by simpa [bytes] using hb)
        constructor <;> rintro rfl <;> exact absurd hb (by decide)
    · refine .inr fun b hb => ?_
      rw [bytes_blanks] at hb
      rw [List.eq_of_mem_replicate hb]
      decide
  have hlength := length_bytes_masked c
  rw [← find?_marker_eq, masked_cons, bytes_append] at h
  rw [masked_cons, bytes_append, ← hlength]
  rcases hbytes with ⟨b, hb⟩ | hother
  · rw [hb] at h ⊢
    rw [List.singleton_append] at h ⊢
    rw [connectorIn?, h]
    rfl
  · exact connectorIn?_skip hother _

theorem connectorIn?_of_passed {before after : List Cell} (h : Passed before after) :
    connectorIn? (bytes (masked (before ++ after))) =
      ahead (bytes (before.map Cell.char)).length (connectorIn? (bytes (masked after))) := by
  induction before with
  | nil => exact (ahead_zero _).symm
  | cons c before ih =>
    have hnone : connectorAt? (c :: (before ++ after)) = none :=
      (connectorAt?_eq_none_iff _).2 (h (c :: before) (List.cons_ne_nil c before) List.suffix_rfl)
    rw [List.cons_append, connectorIn?_cons hnone,
      ih fun b hne hb => h b hne (hb.trans (List.suffix_cons c before)), ahead_ahead,
      List.map_cons, length_bytes_cons]

theorem connectorIn?_of_longest {k : Connector} {line : List Cell} (h : Longest k line) :
    connectorIn? (bytes (masked line)) = some (0, k) := by
  have hfound := h.connectorAt?
  rw [← find?_marker_eq] at hfound
  cases hbytes : bytes (masked line) with
  | nil =>
    rw [hbytes] at hfound
    have hnone : connectors.find? (fun k => (bytes k.marker).isPrefixOf []) = none := by decide
    exact absurd (hnone.symm.trans hfound) (Option.some_ne_none k).symm
  | cons b r =>
    rw [hbytes] at hfound
    rw [connectorIn?, hfound]

/-- The induction is on the cut, with the part of the line that is behind the cursor. -/
theorem Cut.atOffsets {cells : List Cell} {token : List Char}
    {links : List (Connector × List Char)} (h : Cut cells token links) (front lead : List UInt8)
    (hlead : front.length = lead.length) :
    CutAtOffsets (front ++ bytes (masked cells)) (lead ++ bytes (cells.map Cell.char))
      front.length token links := by
  induction h generalizing front lead with
  | @last line unmarked =>
    have hnone := connectorIn?_of_passed ((unmarked_iff_passed line).1 unmarked)
    rw [List.append_nil] at hnone
    refine ⟨?_, ?_⟩
    · rw [connectorFrom?, List.drop_left, hnone]
      rfl
    · rw [hlead, List.drop_left]
  | @link before after k token links leftmost longest _ ih =>
    have hfound := connectorIn?_of_passed leftmost
    rw [connectorIn?_of_longest longest] at hfound
    have hbefore := length_bytes_masked_cells before
    have hrest := ih (front ++ bytes (masked before) ++ bytes k.marker)
      (lead ++ bytes (before.map Cell.char) ++ bytes k.marker) (by simp [hlead, hbefore])
    refine ⟨front.length + (bytes (before.map Cell.char)).length, ?_, ?_, ?_⟩
    · rw [connectorFrom?, List.drop_left, hfound]
      rfl
    · rw [hlead, List.drop_left, Nat.add_sub_cancel_left, List.map_append, bytes_append,
        List.take_left]
    · simpa [masked_append, bytes_append, hbefore, Nat.add_assoc] using hrest

theorem CutAtOffsets.unique {mask line : List UInt8} {cursor : Nat} {token token' : List Char}
    {links links' : List (Connector × List Char)} (h : CutAtOffsets mask line cursor token links)
    (h' : CutAtOffsets mask line cursor token' links') : token = token' ∧ links = links' := by
  induction links generalizing cursor token token' links' with
  | nil =>
    obtain ⟨hnone, htoken⟩ := h
    cases links' with
    | nil => exact ⟨bytes_injective (htoken.trans h'.2.symm), rfl⟩
    | cons link' links' =>
      obtain ⟨start, hsome, -⟩ := h'
      exact absurd (hnone.symm.trans hsome) (Option.some_ne_none _).symm
  | cons link links ih =>
    obtain ⟨start, hsome, htoken, hrest⟩ := h
    cases links' with
    | nil =>
      exact absurd (h'.1.symm.trans hsome) (Option.some_ne_none _).symm
    | cons link' links' =>
      obtain ⟨start', hsome', htoken', hrest'⟩ := h'
      obtain ⟨rfl, hk⟩ := Prod.mk.inj (Option.some.inj (hsome.symm.trans hsome'))
      rw [← hk] at hrest'
      obtain ⟨hnext, rfl⟩ := ih hrest hrest'
      exact ⟨bytes_injective (htoken.trans htoken'.symm),
        congrArg (· :: links) (Prod.ext hk hnext)⟩

/-- A line is cut into these tokens and connectors exactly when they lie at the offsets at which the
bytes of its mask have the first marker, the first one behind that, and so on. -/
theorem splitConnectors?_iff_cutAtOffsets {line token : List Char}
    {links : List (Connector × List Char)} :
    splitConnectors? line = some (token, links) ↔
      links ≠ [] ∧ CutAtOffsets (maskBytes line) (bytes line) 0 token links := by
  have hchars : (cells line).map Cell.char = line := char_cellsFrom .neutral line
  have hoffsets {token : List Char} {links : List (Connector × List Char)}
      (hcut : Cut (cells line) token links) :
      CutAtOffsets (maskBytes line) (bytes line) 0 token links := by
    have hcut := hcut.atOffsets [] [] rfl
    rwa [hchars] at hcut
  rw [splitConnectors?_eq_some_iff]
  refine and_congr_right fun _ => ⟨hoffsets, fun h => ?_⟩
  have hcut := cut_cutConnectors (cells line)
  obtain ⟨htoken, hlinks⟩ := (hoffsets hcut).unique h
  rwa [htoken, hlinks] at hcut

end Flowchart.Source
