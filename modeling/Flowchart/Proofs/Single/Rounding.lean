import Flowchart.Proofs.Single.Value

/-! The mantissa is cut off at 24 bits, two further bits saying where between two mantissas the
number lies; the nearer mantissa is taken; and a mantissa that has grown to 25 bits is halved. -/
namespace Flowchart.Single

open Float.Model (Format UnpackedFloat totalExponent)
open Float.Model.UnpackedFloat (Sign Accuracy ExtendedMantissa)

/-- The mantissa is the whole part of a number, the round bit says if the rest is a half or more, and
the sticky bit if there is something beyond that. -/
structure Describes (em : ExtendedMantissa) (y : ℝ) : Prop where
  le : (2 * em.mantissa + em.roundBit.toNat : ℝ) ≤ 2 * y
  lt : 2 * y < 2 * em.mantissa + em.roundBit.toNat + 1
  sticky : em.stickyBit = true ↔ (2 * em.mantissa + em.roundBit.toNat : ℝ) < 2 * y

theorem describes_exact (m : ℕ) : Describes (.ofMantissaAndAccuracy m .exact) m := by
  refine ⟨?_, ?_, ?_⟩ <;> simp [ExtendedMantissa.ofMantissaAndAccuracy]

theorem describes_lt {m : ℕ} {y : ℝ} (hlow : m < y) (hhigh : 2 * y < 2 * m + 1) :
    Describes (.ofMantissaAndAccuracy m (.inexact .lt)) y := by
  refine ⟨?_, ?_, ?_⟩ <;> simp [ExtendedMantissa.ofMantissaAndAccuracy] <;> linarith

theorem describes_eq {m : ℕ} {y : ℝ} (h : 2 * y = 2 * m + 1) :
    Describes (.ofMantissaAndAccuracy m (.inexact .eq)) y := by
  refine ⟨?_, ?_, ?_⟩ <;> simp [ExtendedMantissa.ofMantissaAndAccuracy] <;> linarith

theorem describes_gt {m : ℕ} {y : ℝ} (hlow : 2 * m + 1 < 2 * y) (hhigh : y < m + 1) :
    Describes (.ofMantissaAndAccuracy m (.inexact .gt)) y := by
  refine ⟨?_, ?_, ?_⟩ <;> simp [ExtendedMantissa.ofMantissaAndAccuracy] <;> linarith

theorem Describes.shiftRightOne {em : ExtendedMantissa} {y : ℝ} (h : Describes em y) :
    Describes em.shiftRightOne (y / 2) := by
  obtain ⟨m, r, s⟩ := em
  obtain ⟨hle, hlt, hsticky⟩ := h
  -- the last bit of the mantissa becomes the round bit
  have hhalves : (2 * ((m / 2 : ℕ) : ℝ) + (m % 2 != 0).toNat : ℝ) = m := by
    have hnat : 2 * (m / 2) + (m % 2 != 0).toNat = m := by
      rcases Nat.mod_two_eq_zero_or_one m with hm | hm <;> simp [hm] <;> omega
    exact_mod_cast hnat
  have hr : (0 : ℝ) ≤ r.toNat ∧ (r.toNat : ℝ) ≤ 1 := by
    cases r <;> simp
  dsimp only at hle hlt hsticky
  refine ⟨?_, ?_, ?_⟩
  · change (2 * ((m / 2 : ℕ) : ℝ) + (m % 2 != 0).toNat : ℝ) ≤ 2 * (y / 2)
    rw [hhalves]
    linarith
  · change 2 * (y / 2) < (2 * ((m / 2 : ℕ) : ℝ) + (m % 2 != 0).toNat : ℝ) + 1
    rw [hhalves]
    linarith
  · change (r || s) = true ↔ (2 * ((m / 2 : ℕ) : ℝ) + (m % 2 != 0).toNat : ℝ) < 2 * (y / 2)
    rw [hhalves, Bool.or_eq_true, hsticky]
    cases r with
    | false =>
      simp only [Bool.false_eq_true, Bool.toNat_false, false_or]
      constructor <;> intro h <;> push_cast at * <;> linarith
    | true =>
      simp only [Bool.toNat_true, Nat.cast_one, true_or, true_iff] at hle ⊢
      linarith

theorem Describes.shiftRight {em : ExtendedMantissa} {y : ℝ} (h : Describes em y) (k : ℕ) :
    Describes (em >>> k) (y / 2 ^ k) := by
  induction k with
  | zero =>
    change Describes em (y / 2 ^ 0)
    rwa [pow_zero, div_one]
  | succ k ih =>
    have hpower : y / 2 ^ (k + 1) = y / 2 ^ k / 2 := by
      rw [pow_succ, div_div]
    rw [hpower]
    exact ih.shiftRightOne

/-- The rounded mantissa is nearest to the number, and half-way between two it is even. -/
theorem Describes.roundedMantissa_cases {em : ExtendedMantissa} {y : ℝ} (h : Describes em y) :
    |(em.roundedMantissa : ℝ) - y| < 1 / 2 ∨
      |(em.roundedMantissa : ℝ) - y| = 1 / 2 ∧ Even em.roundedMantissa := by
  obtain ⟨m, r, s⟩ := em
  obtain ⟨hle, hlt, hsticky⟩ := h
  dsimp only at hle hlt hsticky
  cases r with
  | false =>
    have hdown : ExtendedMantissa.roundedMantissa ⟨m, false, s⟩ = m := by
      cases s <;> rfl
    left
    rw [hdown, abs_lt]
    simp only [Bool.toNat_false, Nat.cast_zero, add_zero] at hle hlt
    constructor <;> linarith
  | true =>
    simp only [Bool.toNat_true, Nat.cast_one] at hle hlt hsticky
    cases s with
    | false =>
      have hhalf : 2 * y = 2 * m + 1 := by
        have hnot : ¬ ((2 * m + 1 : ℝ) < 2 * y) := fun h => Bool.false_ne_true (hsticky.2 h)
        linarith
      have heven : ExtendedMantissa.roundedMantissa ⟨m, true, false⟩ = m + m % 2 := rfl
      right
      rw [heven]
      refine ⟨?_, by rw [Nat.even_iff]; omega⟩
      rcases Nat.mod_two_eq_zero_or_one m with hm | hm
      · rw [hm, abs_of_nonpos] <;> push_cast <;> linarith
      · rw [hm, abs_of_nonneg] <;> push_cast <;> linarith
    | true =>
      have hup : ExtendedMantissa.roundedMantissa ⟨m, true, true⟩ = m + 1 := rfl
      have hbeyond := hsticky.1 rfl
      left
      rw [hup, abs_lt]
      push_cast
      constructor <;> linarith

theorem Describes.abs_roundedMantissa_sub_le {em : ExtendedMantissa} {y : ℝ} (h : Describes em y) :
    |(em.roundedMantissa : ℝ) - y| ≤ 1 / 2 :=
  h.roundedMantissa_cases.elim le_of_lt fun htie => htie.1.le

def settle (s : Sign) (n : ℕ) (e : ℤ) : UnpackedFloat :=
  if h : n = 0 then .zero s
  else if n < 2 ^ 24 then .finite s n e (Nat.pos_of_ne_zero h)
  else .finite s (2 ^ 23) (e + 1) (by norm_num)

/-- The exponent at which a mantissa has 24 bits, or the least one. -/
def target (m : ℕ) (e : ℤ) : ℤ := Format.binary32.targetExponent (totalExponent m e)

theorem target_eq (m : ℕ) (e : ℤ) : target m e = max (m.log2 + e - 23) (-149) := by
  unfold target Format.targetExponent totalExponent
  change max ((m.log2 + 1 + e : ℤ) - 24) (-149) = _
  congr 1
  ring

/-- A mantissa of at most 24 bits is not cut off. -/
theorem shiftToTargetExponent_of_lt {n : ℕ} {e : ℤ} (hn : n < 2 ^ 24) (he : -149 ≤ e) :
    UnpackedFloat.shiftToTargetExponent Format.binary32 n e .exact = (⟨n, false, false⟩, e) := by
  have hlog : n.log2 ≤ 23 := by
    rcases Nat.eq_zero_or_pos n with rfl | hpos
    · simp
    · have hlt := (Nat.log2_lt hpos.ne').2 hn
      omega
  have htarget : (target n e - e).toNat = 0 := by
    rw [target_eq]
    omega
  change UnpackedFloat.shiftToExponent n e .exact (target n e) = _
  unfold UnpackedFloat.shiftToExponent
  rw [htarget]
  simp
  rfl

theorem shiftToTargetExponent_of_eq {e : ℤ} (he : -149 ≤ e) :
    UnpackedFloat.shiftToTargetExponent Format.binary32 (2 ^ 24) e .exact =
      (⟨2 ^ 23, false, false⟩, e + 1) := by
  have htarget : (target (2 ^ 24) e - e).toNat = 1 := by
    rw [target_eq, Nat.log2_two_pow]
    omega
  change UnpackedFloat.shiftToExponent (2 ^ 24) e .exact (target (2 ^ 24) e) = _
  unfold UnpackedFloat.shiftToExponent
  rw [htarget]
  rfl

theorem roundWithAccuracy_eq_settle {s : Sign} {m : ℕ} {e : ℤ} {accuracy : Accuracy} {n : ℕ}
    (he : e ≤ target m e)
    (hn : (ExtendedMantissa.ofMantissaAndAccuracy m accuracy >>>
      (target m e - e).toNat).roundedMantissa = n) (hlt : n ≤ 2 ^ 24) :
    UnpackedFloat.roundWithAccuracy Format.binary32 s m e accuracy = settle s n (target m e) := by
  have hleast : -149 ≤ target m e := by
    rw [target_eq]
    omega
  have hfirst : UnpackedFloat.shiftToTargetExponent Format.binary32 m e accuracy =
      (ExtendedMantissa.ofMantissaAndAccuracy m accuracy >>> (target m e - e).toNat, target m e) := by
    have hsum : e + ((target m e - e).toNat : ℤ) = target m e := by omega
    exact congrArg (Prod.mk _) hsum
  unfold UnpackedFloat.roundWithAccuracy settle
  rw [hfirst]
  dsimp only
  rw [hn]
  by_cases hsmall : n < 2 ^ 24
  · rw [shiftToTargetExponent_of_lt hsmall hleast]
    dsimp only
    split <;> simp
  · obtain rfl : n = 2 ^ 24 := by omega
    rw [shiftToTargetExponent_of_eq hleast]
    rfl

theorem amount_settle (s : Sign) (n : ℕ) (e : ℤ) (hn : n ≤ 2 ^ 24) :
    amount (settle s n e) = signed s (n * 2 ^ e) := by
  rw [signed_mul, ← cast_apply]
  unfold settle
  split_ifs with hzero hlt
  · subst hzero
    cases s <;> simp [amount, Sign.apply]
  · rfl
  · obtain rfl : n = 2 ^ 24 := by omega
    have hpower : (2 : ℝ) ^ (e + 1) = 2 * 2 ^ e := by
      rw [zpow_add₀ (by norm_num), zpow_one, mul_comm]
    change ((s.apply (2 ^ 23 : ℕ) : ℤ) : ℝ) * 2 ^ (e + 1) = _
    rw [hpower]
    cases s <;> simp only [Sign.apply] <;> push_cast <;> ring

theorem canonical_settle {s : Sign} {n : ℕ} {e : ℤ} (he : -149 ≤ e)
    (hbits : e = -149 ∨ 2 ^ 23 ≤ n) : Canonical (settle s n e) := by
  unfold settle
  split_ifs with hzero hlt
  · trivial
  · exact ⟨hlt, he, hbits⟩
  · exact ⟨by norm_num, by omega, .inr le_rfl⟩

/-- A number on the grid is a multiple of a unit, or it does not need all bits of it. -/
theorem OnGrid.multiple_or_small {a : ℝ} (h : OnGrid a) (e : ℤ) :
    (∃ j : ℤ, a = j * 2 ^ e) ∨ e ≠ -149 ∧ a ≤ 2 ^ 23 * 2 ^ e := by
  obtain ⟨n, d, hn, hd, rfl⟩ := h
  by_cases hde : e ≤ d
  · left
    obtain ⟨k, rfl⟩ := Int.le.dest hde
    refine ⟨n * 2 ^ k, ?_⟩
    rw [zpow_add₀ (by norm_num), zpow_natCast]
    push_cast
    ring
  · right
    have hnreal : (n : ℝ) ≤ 2 ^ 24 := mod_cast (le_abs_self n).trans hn
    have hpowers : (2 : ℝ) ^ (d + 1) ≤ 2 ^ e := zpow_le_zpow_right₀ (by norm_num) (by omega)
    refine ⟨by omega, ?_⟩
    calc (n : ℝ) * 2 ^ d ≤ 2 ^ 24 * 2 ^ d := mul_le_mul_of_nonneg_right hnreal (by positivity)
      _ = 2 ^ 23 * 2 ^ (d + 1) := by
        rw [zpow_add₀ (by norm_num), zpow_one]
        ring
      _ ≤ 2 ^ 23 * 2 ^ e := mul_le_mul_of_nonneg_left hpowers (by positivity)

/-- Where a whole number is nearest, the others are at least a half away. -/
theorem half_le_abs_sub {n : ℕ} {y : ℝ} (hnearest : |(n : ℝ) - y| ≤ 1 / 2) {j : ℤ} (hj : j ≠ n) :
    1 / 2 ≤ |(j : ℝ) - y| := by
  have hapart : (1 : ℝ) ≤ |(j : ℝ) - n| := by
    have hint : 1 ≤ |j - (n : ℤ)| := Int.one_le_abs (sub_ne_zero.2 hj)
    exact_mod_cast hint
  have htriangle := abs_sub_le (j : ℝ) y n
  rw [abs_sub_comm y] at htriangle
  linarith

/-- No number on the grid is nearer than the multiple of a unit that is nearest, if the number is
large enough to need all bits of this unit. -/
theorem abs_settle_sub_le {n : ℕ} {e : ℤ} {y a : ℝ} (hnearest : |(n : ℝ) - y| ≤ 1 / 2)
    (hbits : e = -149 ∨ 2 ^ 23 ≤ y) (ha : OnGrid a) :
    |(n : ℝ) * 2 ^ e - y * 2 ^ e| ≤ |a - y * 2 ^ e| := by
  have hunit : (0 : ℝ) < 2 ^ e := by positivity
  have hinteger : ∀ j : ℤ, |(n : ℝ) * 2 ^ e - y * 2 ^ e| ≤ |(j : ℝ) * 2 ^ e - y * 2 ^ e| := by
    intro j
    rw [← sub_mul, ← sub_mul, abs_mul, abs_mul]
    refine mul_le_mul_of_nonneg_right ?_ (abs_nonneg _)
    by_cases hj : j = n
    · rw [hj, Int.cast_natCast]
    · exact hnearest.trans (half_le_abs_sub hnearest hj)
  rcases ha.multiple_or_small e with ⟨j, rfl⟩ | ⟨hleast, hsmall⟩
  · exact hinteger j
  · -- below the least number that needs all bits
    have hlarge : (2 : ℝ) ^ 23 ≤ y := hbits.resolve_left hleast
    have hcast : ((2 ^ 23 : ℤ) : ℝ) = 2 ^ 23 := by norm_num
    have hover : (2 : ℝ) ^ 23 * 2 ^ e ≤ y * 2 ^ e := mul_le_mul_of_nonneg_right hlarge hunit.le
    refine (hinteger (2 ^ 23)).trans ?_
    rw [hcast, abs_of_nonpos (by linarith), abs_of_nonpos (by linarith)]
    linarith

/-- Two multiples of a unit are equally near only half-way between them, where the even one is
taken. -/
theorem settle_tiesToEven {n : ℕ} {e : ℤ} {y : ℝ}
    (hcases : |(n : ℝ) - y| < 1 / 2 ∨ |(n : ℝ) - y| = 1 / 2 ∧ Even n) (hn : n ≤ 2 ^ 24)
    (he : -149 ≤ e) (hbits : e = -149 ∨ 2 ^ 23 ≤ y) : TiesToEven (n * 2 ^ e) (y * 2 ^ e) := by
  have hunit : (0 : ℝ) < 2 ^ e := by positivity
  have hnearest : |(n : ℝ) - y| ≤ 1 / 2 := hcases.elim le_of_lt fun htie => htie.1.le
  have hmultiple (j : ℤ) (htie : |(j : ℝ) * 2 ^ e - y * 2 ^ e| = |(n : ℝ) * 2 ^ e - y * 2 ^ e|) :
      (j : ℝ) * 2 ^ e = n * 2 ^ e ∨ OnEvenGrid (n * 2 ^ e) := by
    rw [← sub_mul, ← sub_mul, abs_mul, abs_mul] at htie
    have htie := mul_right_cancel₀ (abs_pos.2 hunit.ne').ne' htie
    by_cases hj : j = n
    · exact .inl (by rw [hj, Int.cast_natCast])
    · have hhalf := half_le_abs_sub hnearest hj
      obtain ⟨-, k, rfl⟩ := hcases.resolve_left (htie ▸ hhalf).not_gt
      refine .inr ⟨k, e + 1, ?_, by omega, ?_⟩
      · rw [Nat.abs_cast]
        omega
      · rw [zpow_add_one₀ (by norm_num)]
        push_cast
        ring
  intro a ha htie
  rcases ha.multiple_or_small e with ⟨j, rfl⟩ | ⟨hleast, hsmall⟩
  · exact hmultiple j htie
  · -- below the least number that needs all bits, that number itself is nearer
    have hlarge : (2 : ℝ) ^ 23 ≤ y := hbits.resolve_left hleast
    have hover : (2 : ℝ) ^ 23 * 2 ^ e ≤ y * 2 ^ e := mul_le_mul_of_nonneg_right hlarge hunit.le
    have hcast : ((2 ^ 23 : ℤ) : ℝ) = 2 ^ 23 := by norm_num
    have hbound := abs_settle_sub_le hnearest hbits
      (⟨2 ^ 23, e, by norm_num, he, rfl⟩ : OnGrid ((2 ^ 23 : ℤ) * 2 ^ e))
    rw [hcast, abs_of_nonpos (by linarith : (2 : ℝ) ^ 23 * 2 ^ e - y * 2 ^ e ≤ 0), ← htie,
      abs_of_nonpos (by linarith)] at hbound
    obtain rfl : a = ((2 ^ 23 : ℤ) : ℝ) * 2 ^ e := by
      rw [hcast]
      linarith
    exact hmultiple _ htie

/-- What a single of some parts is taken apart into again. -/
theorem unpack_ofModel_pack (u : UnpackedFloat) :
    (Float32.ofModel (.pack u)).toModel.unpack =
      UnpackedFloat.unpack Format.binary32 (UnpackedFloat.pack Format.binary32 u) := rfl

theorem mantissa_ofMantissaAndAccuracy (m : ℕ) (accuracy : Accuracy) :
    (ExtendedMantissa.ofMantissaAndAccuracy m accuracy).mantissa = m := by
  cases accuracy with
  | exact => rfl
  | inexact o => cases o <;> rfl

theorem Describes.mantissa_le {em : ExtendedMantissa} {y : ℝ} (h : Describes em y) :
    (em.mantissa : ℝ) ≤ y := by
  have hround : (0 : ℝ) ≤ em.roundBit.toNat := Nat.cast_nonneg _
  have hle := h.le
  linarith

theorem Describes.lt_mantissa_add_one {em : ExtendedMantissa} {y : ℝ} (h : Describes em y) :
    y < em.mantissa + 1 := by
  have hround : (em.roundBit.toNat : ℝ) ≤ 1 := by
    cases em.roundBit <;> simp
  have hlt := h.lt
  linarith

/-- In units of the last bit that is kept, the number has no more than 24 bits, and not fewer if the
exponent can still be made smaller. -/
theorem bits_of_target {m k : ℕ} {e : ℤ} {y : ℝ} (hlow : m ≤ y) (hhigh : y < m + 1)
    (hk : e + k = target m e) :
    y / 2 ^ k < 2 ^ 24 ∧ (target m e = -149 ∨ 2 ^ 23 ≤ y / 2 ^ k) := by
  have htarget := target_eq m e
  have hpower : (0 : ℝ) < 2 ^ k := by positivity
  constructor
  · have hlog : (m + 1 : ℝ) ≤ 2 ^ (m.log2 + 1) := by exact_mod_cast Nat.lt_log2_self
    have hexponents : (2 : ℝ) ^ (m.log2 + 1) ≤ 2 ^ (24 + k) :=
      pow_le_pow_right₀ (by norm_num) (by omega)
    rw [div_lt_iff₀ hpower, ← pow_add]
    linarith
  · by_cases hleast : target m e = -149
    · exact .inl hleast
    · right
      have hbits : 23 + k = m.log2 := by omega
      have hm : m ≠ 0 := by
        rintro rfl
        simp at hbits
      have hlog : (2 : ℝ) ^ m.log2 ≤ m := by exact_mod_cast Nat.log2_self_le hm
      rw [le_div_iff₀ hpower, ← pow_add, hbits]
      linarith

/-- The number of units after rounding fits if the number itself does not exceed a bound. -/
theorem fits_settle {s : Sign} {n : ℕ} {e : ℤ} {y : ℝ} (hnearest : |(n : ℝ) - y| ≤ 1 / 2)
    (hbits : e = -149 ∨ 2 ^ 23 ≤ y) (hbound : y * 2 ^ e ≤ 2 ^ 127) : Fits (settle s n e) := by
  have hle {d : ℤ} {z : ℝ} (hd : d ≤ e) (hzero : 0 ≤ z) (hz : z ≤ y) : z * 2 ^ d ≤ 2 ^ 127 :=
    (mul_le_mul hz (zpow_le_zpow_right₀ (by norm_num) hd) (by positivity) (hzero.trans hz)).trans
      hbound
  unfold settle
  split_ifs with hzero hlt
  · trivial
  · rw [fits_finite_iff]
    by_contra hlarge
    rcases hbits with rfl | hbits
    · omega
    · have hover := hle (d := 105) (by omega) (by norm_num) hbits
      norm_num at hover
  · rw [fits_finite_iff]
    by_contra hlarge
    have hn : (2 ^ 24 : ℝ) ≤ n := by
      have hnat : 2 ^ 24 ≤ n := by omega
      exact_mod_cast hnat
    have hy := (abs_le.1 hnearest).2
    have hover := hle (d := 104) (z := 2 ^ 24 - 1 / 2) (by omega) (by norm_num) (by linarith)
    norm_num at hover

/-- What does not fit is infinity once it is packed. -/
theorem unpack_pack_settle {s : Sign} {n : ℕ} {e : ℤ} (h : ¬ Fits (settle s n e)) :
    UnpackedFloat.unpack Format.binary32 (UnpackedFloat.pack Format.binary32 (settle s n e)) =
      .infinity s := by
  unfold settle at h ⊢
  by_cases hzero : n = 0
  · rw [dif_pos hzero] at h
    exact absurd trivial h
  · rw [dif_neg hzero] at h ⊢
    by_cases hlt : n < 2 ^ 24
    · rw [if_pos hlt] at h ⊢
      rw [fits_finite_iff, not_le] at h
      exact unpack_pack_of_lt h
    · rw [if_neg hlt] at h ⊢
      rw [fits_finite_iff, not_le] at h
      exact unpack_pack_of_lt h

/-- A mantissa that is rounded has all bits, and at most one more. -/
theorem bits_of_nearest {n : ℕ} {t : ℤ} {y : ℝ} (hnearest : |(n : ℝ) - y| ≤ 1 / 2)
    (hlt : y < 2 ^ 24) (hbits : t = -149 ∨ 2 ^ 23 ≤ y) :
    n < 2 ^ 24 + 1 ∧ (t = -149 ∨ 2 ^ 23 ≤ n) := by
  obtain ⟨hdown, hup⟩ := abs_le.1 hnearest
  constructor
  · have hreal : (n : ℝ) < ((2 ^ 24 + 1 : ℕ) : ℝ) := by
      push_cast
      linarith
    exact_mod_cast hreal
  · refine hbits.imp_right fun hlarge => ?_
    have hreal : ((2 ^ 23 : ℕ) : ℝ) < ((n + 1 : ℕ) : ℝ) := by
      push_cast
      linarith
    have hnat : 2 ^ 23 < n + 1 := by exact_mod_cast hreal
    omega

/-- Rounding gives a nearest single, or infinity for a number that is too large. -/
theorem nearest_or_infinity_of_describes {s : Sign} {m : ℕ} {e : ℤ} {accuracy : Accuracy} {y : ℝ}
    (h : Describes (.ofMantissaAndAccuracy m accuracy) y) (he : e ≤ target m e) {x : Float32}
    (hx : x = .ofModel (.pack (UnpackedFloat.roundWithAccuracy Format.binary32 s m e accuracy))) :
    Nearest (signed s (y * 2 ^ e)) x ∨
      (2 : ℝ) ^ 127 < y * 2 ^ e ∧ x.toModel.unpack = .infinity s := by
  obtain ⟨k, hk⟩ := Int.le.dest he
  have hshift : (target m e - e).toNat = k := by omega
  have hlow := h.mantissa_le
  have hhigh := h.lt_mantissa_add_one
  rw [mantissa_ofMantissaAndAccuracy] at hlow hhigh
  obtain ⟨hlt, hbits⟩ := bits_of_target hlow hhigh hk
  have hcases := (h.shiftRight k).roundedMantissa_cases
  have hnearest := (h.shiftRight k).abs_roundedMantissa_sub_le
  obtain ⟨n, hn⟩ : ∃ n,
      (ExtendedMantissa.ofMantissaAndAccuracy m accuracy >>> k).roundedMantissa = n := ⟨_, rfl⟩
  rw [hn] at hnearest hcases
  have hunits : y * 2 ^ e = y / 2 ^ k * 2 ^ target m e := by
    rw [← hk, zpow_add₀ (by norm_num), zpow_natCast]
    field_simp
  obtain ⟨hnle, hnbits⟩ := bits_of_nearest hnearest hlt hbits
  have hleast : -149 ≤ target m e := by
    rw [target_eq]
    omega
  rw [roundWithAccuracy_eq_settle he (hshift ▸ hn) (by omega)] at hx
  have hcanonical : Canonical (settle s n (target m e)) := canonical_settle hleast hnbits
  -- rounding up can carry into a bit more, which `settle` moves to the exponent
  by_cases hfits : Fits (settle s n (target m e))
  · left
    have hunpack : x.toModel.unpack = settle s n (target m e) := by
      rw [hx, unpack_ofModel_pack, unpack_pack hcanonical hfits]
    have hvalue : value x = signed s (n * 2 ^ target m e) := by
      rw [value, hunpack, amount_settle s n _ (by omega)]
    refine ⟨?_, ?_, ?_⟩
    · change x.toModel.unpack.isFinite = true
      rw [hunpack]
      unfold settle
      split_ifs <;> rfl
    · rw [hvalue, hunits]
      exact IsNearest.signed (fun a ha => abs_settle_sub_le hnearest hbits ha) s
    · rw [hvalue, hunits]
      exact (settle_tiesToEven hcases (by omega) hleast hbits).signed s
  · right
    refine ⟨?_, ?_⟩
    · by_contra hbound
      rw [not_lt, hunits] at hbound
      exact hfits (fits_settle hnearest hbits hbound)
    · rw [hx, unpack_ofModel_pack]
      exact unpack_pack_settle hfits

end Flowchart.Single
