import Flowchart.Proofs.Single.Rounding

namespace Flowchart.Single

open Float.Model (Format UnpackedFloat totalExponent)
open Float.Model.UnpackedFloat (Sign Accuracy ExtendedMantissa)

theorem log2_shiftLeft {m : ℕ} (k : ℕ) (hm : 0 < m) : (m <<< k).log2 = m.log2 + k := by
  rw [Nat.shiftLeft_eq, Nat.log2_eq_iff (by positivity), pow_succ, pow_add, mul_right_comm, ← pow_succ]
  have hpower : 0 < 2 ^ k := Nat.two_pow_pos k
  exact ⟨Nat.mul_le_mul_right _ (Nat.log2_self_le hm.ne'),
    Nat.mul_lt_mul_of_pos_right Nat.lt_log2_self hpower⟩

theorem nearest_or_infinity_round {s : Sign} {m : ℕ} {e : ℤ} (hm : 0 < m) {x : Float32}
    (hx : x = .ofModel (.pack (UnpackedFloat.round Format.binary32 s m e))) :
    Nearest (signed s (m * 2 ^ e)) x ∨
      (2 : ℝ) ^ 127 < m * 2 ^ e ∧ x.toModel.unpack = .infinity s := by
  obtain ⟨k, hk⟩ : ∃ k, k = (e - target m e).toNat := ⟨_, rfl⟩
  have hround : UnpackedFloat.round Format.binary32 s m e =
      UnpackedFloat.roundWithAccuracy Format.binary32 s (m <<< k) (e - k) .exact := by
    rw [hk]
    rfl
  have htarget : target (m <<< k) (e - k) = target m e := by
    rw [target_eq, target_eq, log2_shiftLeft k hm]
    push_cast
    congr 1
    ring
  have hnumber : ((m <<< k : ℕ) : ℝ) * 2 ^ (e - k) = m * 2 ^ e := by
    rw [Nat.shiftLeft_eq, zpow_sub₀ (by norm_num), zpow_natCast]
    push_cast
    field_simp
  rw [hround] at hx
  have hresult := nearest_or_infinity_of_describes (describes_exact (m <<< k))
    (by rw [htarget]; omega) hx
  rwa [hnumber] at hresult

/-- The sum of whole numbers of units is rounded, and none of them is zero. -/
theorem nearest_normalize {n e : ℤ} (hbound : |(n : ℝ) * 2 ^ e| ≤ 2 ^ 127) :
    Nearest (n * 2 ^ e)
      (.ofModel (.pack (UnpackedFloat.normalize Format.binary32 n e .positive))) := by
  have hunit : (0 : ℝ) < 2 ^ e := by positivity
  rw [abs_mul, abs_of_pos hunit] at hbound
  unfold UnpackedFloat.normalize
  rcases lt_trichotomy n 0 with hneg | rfl | hpos
  · rw [compare_lt_iff_lt.2 hneg]
    have hcast : (((-n).toNat : ℕ) : ℝ) = -n := by
      have hint : (((-n).toNat : ℕ) : ℤ) = -n := Int.toNat_of_nonneg (by omega)
      exact_mod_cast hint
    have hreal : (n : ℝ) < 0 := mod_cast hneg
    have hmantissa : 0 < (-n).toNat := by omega
    rw [abs_of_neg hreal] at hbound
    rcases nearest_or_infinity_round (s := .negative) hmantissa rfl with hnearest | ⟨hlarge, -⟩
    · rw [hcast] at hnearest
      simpa [signed] using hnearest
    · rw [hcast] at hlarge
      exact absurd hlarge hbound.not_gt
  · rw [compare_eq_iff_eq.2 rfl]
    have hzero : ((0 : ℤ) : ℝ) * 2 ^ e = amount (.zero .positive) := by
      simp [amount]
    rw [hzero]
    exact (proper_zero .positive).nearest
  · rw [compare_gt_iff_gt.2 hpos]
    have hcast : ((n.toNat : ℕ) : ℝ) = n := by
      have hint : ((n.toNat : ℕ) : ℤ) = n := Int.toNat_of_nonneg (by omega)
      exact_mod_cast hint
    have hreal : (0 : ℝ) < n := mod_cast hpos
    have hmantissa : 0 < n.toNat := by omega
    rw [abs_of_pos hreal] at hbound
    rcases nearest_or_infinity_round (s := .positive) hmantissa rfl with hnearest | ⟨hlarge, -⟩
    · rwa [hcast] at hnearest
    · rw [hcast] at hlarge
      exact absurd hlarge hbound.not_gt

variable {x y : Float32}

theorem decreaseExponent_fst (m : ℕ) (e d : ℤ) (h : d ≤ e) :
    ((UnpackedFloat.decreaseExponent m e d).1 : ℝ) * 2 ^ d = m * 2 ^ e := by
  obtain ⟨k, rfl⟩ := Int.le.dest h
  have hshift : (d + k - d).toNat = k := by omega
  unfold UnpackedFloat.decreaseExponent
  dsimp only
  rw [hshift, Nat.shiftLeft_eq, zpow_add₀ (by norm_num), zpow_natCast]
  push_cast
  ring

/-- A number in units of a smaller power of two. -/
theorem amount_eq_decreaseExponent {s : Sign} {m : ℕ} {e d : ℤ} {hm : 0 < m} (h : d ≤ e) :
    amount (.finite s m e hm) = (s.apply (UnpackedFloat.decreaseExponent m e d).1 : ℤ) * 2 ^ d := by
  rw [amount_finite, ← decreaseExponent_fst m e d h, cast_apply, signed_mul]

theorem nearest_add_unpacked {u v : UnpackedFloat} (hu : Proper u) (hv : Proper v)
    (hbound : |amount u + amount v| ≤ 2 ^ 127) :
    Nearest (amount u + amount v) (.ofModel (.pack (UnpackedFloat.add Format.binary32 u v))) := by
  obtain ⟨s, rfl⟩ | ⟨s, m, e, hm, rfl⟩ := hu.zero_or_finite
  · obtain ⟨t, rfl⟩ | ⟨t, n, d, hn, rfl⟩ := hv.zero_or_finite
    · have hsum : UnpackedFloat.add Format.binary32 (.zero s) (.zero t) =
          .zero (if s == t then s else .positive) := by
        cases s <;> cases t <;> rfl
      rw [hsum, amount_zero, amount_zero, add_zero]
      exact (proper_zero _).nearest
    · rw [amount_zero, zero_add]
      exact hv.nearest
  · obtain ⟨t, rfl⟩ | ⟨t, n, d, hn, rfl⟩ := hv.zero_or_finite
    · rw [amount_zero, add_zero]
      exact hu.nearest
    · rw [amount_eq_decreaseExponent (min_le_left e d), amount_eq_decreaseExponent (min_le_right e d),
        ← add_mul, ← Int.cast_add] at hbound ⊢
      exact nearest_normalize hbound

theorem nearest_add (hx : x.isFinite = true) (hy : y.isFinite = true)
    (hbound : |value x + value y| ≤ 2 ^ 127) : Nearest (value x + value y) (x + y) :=
  nearest_add_unpacked (proper_unpack hx) (proper_unpack hy) hbound

theorem nearest_sub_unpacked {u v : UnpackedFloat} (hu : Proper u) (hv : Proper v)
    (hbound : |amount u - amount v| ≤ 2 ^ 127) :
    Nearest (amount u - amount v) (.ofModel (.pack (UnpackedFloat.sub Format.binary32 u v))) := by
  obtain ⟨s, rfl⟩ | ⟨s, m, e, hm, rfl⟩ := hu.zero_or_finite
  · obtain ⟨t, rfl⟩ | ⟨t, n, d, hn, rfl⟩ := hv.zero_or_finite
    · have hdifference : UnpackedFloat.sub Format.binary32 (.zero s) (.zero t) =
          .zero (if s == -t then s else .positive) := by
        cases s <;> cases t <;> rfl
      rw [hdifference, amount_zero, amount_zero, sub_zero]
      exact (proper_zero _).nearest
    · have hneg : Proper (.finite (-t) n d hn) := ⟨hv.canonical, hv.fits, rfl⟩
      rw [amount_zero, zero_sub, amount_finite, ← signed_neg, ← amount_finite (-t) n d hn]
      exact hneg.nearest
  · obtain ⟨t, rfl⟩ | ⟨t, n, d, hn, rfl⟩ := hv.zero_or_finite
    · rw [amount_zero, sub_zero]
      exact hu.nearest
    · rw [amount_eq_decreaseExponent (min_le_left e d), amount_eq_decreaseExponent (min_le_right e d),
        ← sub_mul, ← Int.cast_sub] at hbound ⊢
      exact nearest_normalize hbound

theorem nearest_sub (hx : x.isFinite = true) (hy : y.isFinite = true)
    (hbound : |value x - value y| ≤ 2 ^ 127) : Nearest (value x - value y) (x - y) :=
  nearest_sub_unpacked (proper_unpack hx) (proper_unpack hy) hbound

theorem signed_mul_signed (s t : Sign) (a b : ℝ) :
    signed s a * signed t b = signed (s * t) (a * b) := by
  cases s <;> cases t
  · exact neg_mul_neg a b
  · exact neg_mul a b
  · exact mul_neg a b
  · rfl

theorem signed_div_signed (s t : Sign) (a b : ℝ) :
    signed s a / signed t b = signed (s / t) (a / b) := by
  cases s <;> cases t
  · exact neg_div_neg_eq a b
  · exact neg_div b a
  · exact div_neg a
  · rfl

theorem abs_signed (s : Sign) (r : ℝ) : |signed s r| = |r| := by
  cases s with
  | negative => exact abs_neg r
  | positive => rfl

/-- The product of two mantissas has more bits than it keeps. -/
theorem target_mul {s t : Sign} {m n : ℕ} {d e : ℤ} (hm : 0 < m) (hn : 0 < n)
    (hx : Canonical (.finite s m d hm)) (hy : Canonical (.finite t n e hn)) :
    d + e ≤ target (m * n) (d + e) := by
  obtain ⟨-, hdleast, hdbits⟩ := hx
  obtain ⟨-, heleast, hebits⟩ := hy
  have hmle : m ≤ m * n := Nat.le_mul_of_pos_right m hn
  have hnle : n ≤ m * n := Nat.le_mul_of_pos_left n hm
  rw [target_eq]
  by_cases hbits : 2 ^ 23 ≤ m * n
  · have hlog : 23 ≤ (m * n).log2 := (Nat.le_log2 (by omega)).2 hbits
    omega
  · have hd : d = -149 := by omega
    have he : e = -149 := by omega
    omega

theorem nearest_or_infinity_mul {s t : Sign} {m n : ℕ} {d e : ℤ} {hm : 0 < m} {hn : 0 < n}
    (hx : x.toModel.unpack = .finite s m d hm) (hy : y.toModel.unpack = .finite t n e hn) :
    Nearest (value x * value y) (x * y) ∨
      (2 : ℝ) ^ 127 < |value x * value y| ∧ (x * y).toModel.unpack = .infinity (s * t) := by
  have hcx := canonical_unpack x.toModel.toBits.toBitVec
  have hcy := canonical_unpack y.toModel.toBits.toBitVec
  change Canonical x.toModel.unpack at hcx
  change Canonical y.toModel.unpack at hcy
  rw [hx] at hcx
  rw [hy] at hcy
  have hproduct : x * y = .ofModel (.pack (UnpackedFloat.roundWithAccuracy Format.binary32 (s * t)
      (m * n) (d + e) .exact)) := by
    change Float32.ofModel (.pack (UnpackedFloat.mul Format.binary32 x.toModel.unpack
      y.toModel.unpack)) = _
    rw [hx, hy]
    rfl
  have hvalue : value x * value y = signed (s * t) ((m * n : ℕ) * 2 ^ (d + e)) := by
    rw [value, value, hx, hy, amount_finite, amount_finite, signed_mul_signed,
      zpow_add₀ (by norm_num)]
    push_cast
    congr 1
    ring
  have hresult := nearest_or_infinity_of_describes (describes_exact (m * n))
    (target_mul hm hn hcx hcy) hproduct
  rw [hvalue, abs_signed, abs_of_nonneg (by positivity)]
  exact hresult

theorem nearest_mul (hx : x.isFinite = true) (hy : y.isFinite = true)
    (hbound : |value x * value y| ≤ 2 ^ 127) : Nearest (value x * value y) (x * y) := by
  have hzero {s : Sign} (h : UnpackedFloat.mul Format.binary32 x.toModel.unpack y.toModel.unpack =
      .zero s) (hvalue : value x * value y = 0) : Nearest (value x * value y) (x * y) := by
    rw [hvalue, ← amount_zero s]
    have hproduct : x * y = .ofModel (.pack (.zero s)) := by
      rw [← h]
      rfl
    rw [hproduct]
    exact (proper_zero s).nearest
  obtain ⟨s, hs⟩ | ⟨s, m, d, hm, hs⟩ := (proper_unpack hx).zero_or_finite
  · have hvalue : value x = 0 := by
      rw [value, hs, amount_zero]
    obtain ⟨t, ht⟩ | ⟨t, n, e, hn, ht⟩ := (proper_unpack hy).zero_or_finite
    · exact hzero (s := s * t) (by rw [hs, ht]; rfl) (by rw [hvalue, zero_mul])
    · exact hzero (s := s * t) (by rw [hs, ht]; rfl) (by rw [hvalue, zero_mul])
  · obtain ⟨t, ht⟩ | ⟨t, n, e, hn, ht⟩ := (proper_unpack hy).zero_or_finite
    · have hvalue : value y = 0 := by
        rw [value, ht, amount_zero]
      exact hzero (s := s * t) (by rw [hs, ht]; rfl) (by rw [hvalue, mul_zero])
    · rcases nearest_or_infinity_mul hs ht with hnearest | ⟨hlarge, -⟩
      · exact hnearest
      · exact absurd hlarge hbound.not_gt

/-- The whole part of a quotient, and what the rest says of the bits behind it. -/
theorem describes_fraction (m : ℕ) {n : ℕ} (hn : 0 < n) :
    Describes (.ofMantissaAndAccuracy (m / n) (UnpackedFloat.accuracyOfFraction (m % n) n))
      ((m : ℝ) / n) := by
  have hreal : (0 : ℝ) < n := mod_cast hn
  obtain ⟨q, hq⟩ : ∃ q, m / n = q := ⟨_, rfl⟩
  obtain ⟨r, hr⟩ : ∃ r, m % n = r := ⟨_, rfl⟩
  have hlt : r < n := hr ▸ Nat.mod_lt m hn
  have hm : m = n * q + r := by
    rw [← hq, ← hr, Nat.div_add_mod]
  have hquotient : (m : ℝ) / n = q + r / n := by
    rw [hm]
    push_cast
    field_simp
  have hless : (r : ℝ) / n < 1 := (div_lt_one hreal).2 (mod_cast hlt)
  rw [hq, hr, hquotient]
  unfold UnpackedFloat.accuracyOfFraction
  by_cases hzero : r = 0
  · rw [if_pos hzero, hzero, Nat.cast_zero, zero_div, add_zero]
    exact describes_exact q
  · have hpos : (0 : ℝ) < r / n := div_pos (mod_cast Nat.pos_of_ne_zero hzero) hreal
    have htwice : 2 * ((r : ℝ) / n) * n = 2 * r := by field_simp
    rw [if_neg hzero]
    rcases lt_trichotomy (2 * r) n with hhalf | hhalf | hhalf
    · rw [compare_lt_iff_lt.2 hhalf]
      have hcast : (2 * r : ℝ) < n := mod_cast hhalf
      have hbelow : 2 * ((r : ℝ) / n) < 1 := by
        rw [← mul_lt_mul_iff_of_pos_right hreal, htwice, one_mul]
        exact hcast
      exact describes_lt (by linarith) (by linarith)
    · rw [compare_eq_iff_eq.2 hhalf]
      have hcast : (2 * r : ℝ) = n := mod_cast hhalf
      have hequal : 2 * ((r : ℝ) / n) = 1 := by
        rw [← mul_left_inj' hreal.ne', htwice, one_mul]
        exact hcast
      exact describes_eq (by linarith)
    · rw [compare_gt_iff_gt.2 hhalf]
      have hcast : (n : ℝ) < 2 * r := mod_cast hhalf
      have habove : 1 < 2 * ((r : ℝ) / n) := by
        rw [← mul_lt_mul_iff_of_pos_right hreal, htwice, one_mul]
        exact hcast
      exact describes_gt (by linarith) (by linarith)

/-- The quotient is taken with so many bits that it keeps them all. -/
theorem target_div {m n : ℕ} {d e : ℤ} (hm : 0 < m) (hn : 0 < n) {t : ℤ} {k : ℕ}
    (ht : t = min (d - e) (Format.binary32.targetExponent (totalExponent m d - totalExponent n e)))
    (hk : (d - e - t).toNat = k) : t ≤ target (m <<< k / n) t := by
  change t = min (d - e) (max (m.log2 + 1 + d - (n.log2 + 1 + e) - 24 : ℤ) (-149)) at ht
  rw [target_eq]
  by_cases hleast : t ≤ -149
  · omega
  · have hbits : 23 + (n.log2 + 1) ≤ m.log2 + k := by omega
    have hquotient : 2 ^ 23 ≤ m <<< k / n := by
      rw [Nat.le_div_iff_mul_le hn, Nat.shiftLeft_eq]
      calc 2 ^ 23 * n ≤ 2 ^ 23 * 2 ^ (n.log2 + 1) := Nat.mul_le_mul_left _ Nat.lt_log2_self.le
        _ = 2 ^ (23 + (n.log2 + 1)) := (pow_add _ _ _).symm
        _ ≤ 2 ^ (m.log2 + k) := Nat.pow_le_pow_right (by norm_num) hbits
        _ = 2 ^ m.log2 * 2 ^ k := pow_add _ _ _
        _ ≤ m * 2 ^ k := Nat.mul_le_mul_right _ (Nat.log2_self_le hm.ne')
    have hlog : 23 ≤ (m <<< k / n).log2 := (Nat.le_log2 (by omega)).2 hquotient
    omega

theorem nearest_div (hx : x.isFinite = true) (hy : y.isFinite = true) (hne : value y ≠ 0)
    (hbound : |value x / value y| ≤ 2 ^ 127) : Nearest (value x / value y) (x / y) := by
  obtain ⟨t, ht⟩ | ⟨t, n, e, hn, ht⟩ := (proper_unpack hy).zero_or_finite
  · rw [value, ht] at hne
    exact absurd (amount_zero t) hne
  obtain ⟨s, hs⟩ | ⟨s, m, d, hm, hs⟩ := (proper_unpack hx).zero_or_finite
  · have hquotient : x / y = .ofModel (.pack (.zero (s / t))) := by
      change Float32.ofModel (.pack (UnpackedFloat.div Format.binary32 x.toModel.unpack
        y.toModel.unpack)) = _
      rw [hs, ht]
      rfl
    have hvalue : value x = 0 := by
      rw [value, hs, amount_zero]
    rw [hvalue, zero_div, hquotient, ← amount_zero (s / t)]
    exact (proper_zero _).nearest
  · obtain ⟨least, hleast⟩ : ∃ least, least = min (d - e)
        (Format.binary32.targetExponent (totalExponent m d - totalExponent n e)) := ⟨_, rfl⟩
    obtain ⟨k, hk⟩ : ∃ k, (d - e - least).toNat = k := ⟨_, rfl⟩
    have hquotient : x / y = .ofModel (.pack (UnpackedFloat.roundWithAccuracy Format.binary32 (s / t)
        (m <<< k / n) least (UnpackedFloat.accuracyOfFraction (m <<< k % n) n))) := by
      change Float32.ofModel (.pack (UnpackedFloat.div Format.binary32 x.toModel.unpack
        y.toModel.unpack)) = _
      rw [hs, ht, ← hk, hleast]
      rfl
    -- after the shift the unit of the quotient is no larger than that of the result
    have hexponents : d - e = k + least := by omega
    have hvalue : value x / value y =
        signed (s / t) (((m <<< k : ℕ) : ℝ) / n * 2 ^ least) := by
      have hreal : (n : ℝ) ≠ 0 := mod_cast hn.ne'
      have hpowers : (2 : ℝ) ^ d = 2 ^ k * 2 ^ least * 2 ^ e := by
        rw [← zpow_natCast, ← zpow_add₀ (by norm_num), ← hexponents, ← zpow_add₀ (by norm_num)]
        congr 1
        ring
      rw [value, value, hs, ht, amount_finite, amount_finite, signed_div_signed, hpowers,
        Nat.shiftLeft_eq]
      push_cast
      congr 1
      field_simp
    have hresult := nearest_or_infinity_of_describes (describes_fraction (m <<< k) hn)
      (target_div hm hn hleast hk) hquotient
    rw [hvalue] at hbound ⊢
    rw [abs_signed, abs_of_nonneg (by positivity)] at hbound
    rcases hresult with hnearest | ⟨hlarge, -⟩
    · exact hnearest
    · exact absurd hlarge hbound.not_gt

/-- The whole part of a root, and what the rest says of the bits behind it. A root is never half-way
between two whole numbers. -/
theorem describes_sqrt (m : ℕ) :
    Describes (.ofMantissaAndAccuracy (Nat.sqrt m)
      (if m - Nat.sqrt m * Nat.sqrt m = 0 then .exact
        else .inexact (if m - Nat.sqrt m * Nat.sqrt m ≤ Nat.sqrt m then .lt else .gt)))
      (Real.sqrt m) := by
  obtain ⟨q, hq⟩ : ∃ q, Nat.sqrt m = q := ⟨_, rfl⟩
  have hle := Nat.sqrt_le m
  have hlt := Nat.lt_succ_sqrt m
  rw [hq] at hle hlt ⊢
  obtain ⟨r, rfl⟩ := Nat.exists_eq_add_of_le hle
  have hrest : r ≤ 2 * q := by
    have hsquare : (q + 1) * (q + 1) = q * q + 2 * q + 1 := by ring
    have hlt : q * q + r < (q + 1) * (q + 1) := hlt
    omega
  rw [Nat.add_sub_cancel_left]
  have hroot := Real.sq_sqrt (show (0 : ℝ) ≤ ((q * q + r : ℕ) : ℝ) by positivity)
  have hnonneg := Real.sqrt_nonneg ((q * q + r : ℕ) : ℝ)
  set y := Real.sqrt ((q * q + r : ℕ) : ℝ)
  push_cast at hroot
  by_cases hzero : r = 0
  · rw [if_pos hzero]
    have hy : y = q := by
      rw [hzero, Nat.cast_zero, add_zero] at hroot
      nlinarith
    rw [hy]
    exact describes_exact q
  · rw [if_neg hzero]
    have hpos : (1 : ℝ) ≤ r := mod_cast Nat.one_le_iff_ne_zero.2 hzero
    have hbelow : (q : ℝ) < y := by
      by_contra hge
      nlinarith
    -- `m` is below the square of `q + 1/2` just when it is at most `q * q + q`
    by_cases hhalf : r ≤ q
    · rw [if_pos hhalf]
      have hcast : (r : ℝ) ≤ q := mod_cast hhalf
      refine describes_lt hbelow ?_
      by_contra hge
      nlinarith
    · rw [if_neg hhalf]
      have hcast : (q + 1 : ℝ) ≤ r := by
        have hnat : q + 1 ≤ r := by omega
        exact_mod_cast hnat
      have hcastrest : (r : ℝ) ≤ 2 * q := mod_cast hrest
      refine describes_gt ?_ ?_
      · by_contra hge
        nlinarith
      · by_contra hge
        nlinarith

/-- The root is taken with so many bits that it keeps them all. -/
theorem target_sqrt {m : ℕ} {e : ℤ} (hm : 0 < m) {t : ℤ} {k : ℕ}
    (ht : t = min (e.ediv 2) (Format.binary32.targetExponent ((totalExponent m e + 1).ediv 2)))
    (hk : (e - 2 * t).toNat = k) : t ≤ target (Nat.sqrt (m <<< k)) t := by
  change t = min (e / 2) (max ((m.log2 + 1 + e + 1) / 2 - 24 : ℤ) (-149)) at ht
  rw [target_eq]
  by_cases hleast : t ≤ -149
  · omega
  · have hbits : 46 ≤ m.log2 + k := by omega
    have hroot : 2 ^ 23 ≤ Nat.sqrt (m <<< k) := by
      rw [Nat.le_sqrt, ← pow_add, Nat.shiftLeft_eq]
      calc 2 ^ (23 + 23) ≤ 2 ^ (m.log2 + k) := Nat.pow_le_pow_right (by norm_num) hbits
        _ = 2 ^ m.log2 * 2 ^ k := pow_add _ _ _
        _ ≤ m * 2 ^ k := Nat.mul_le_mul_right _ (Nat.log2_self_le hm.ne')
    have hlog : 23 ≤ (Nat.sqrt (m <<< k)).log2 := (Nat.le_log2 (by omega)).2 hroot
    omega

theorem nearest_sqrt (hx : x.isFinite = true) (hnonneg : 0 ≤ value x)
    (hbound : Real.sqrt (value x) ≤ 2 ^ 127) : Nearest (Real.sqrt (value x)) x.sqrt := by
  obtain ⟨s, hs⟩ | ⟨s, m, e, hm, hs⟩ := (proper_unpack hx).zero_or_finite
  · have hroot : x.sqrt = .ofModel (.pack (.zero s)) := by
      change Float32.ofModel (.pack (UnpackedFloat.sqrt Format.binary32 x.toModel.unpack)) = _
      rw [hs]
      rfl
    have hvalue : value x = 0 := by
      rw [value, hs, amount_zero]
    rw [hvalue, Real.sqrt_zero, hroot, ← amount_zero s]
    exact (proper_zero s).nearest
  · have hvalue : value x = signed s (m * 2 ^ e) := by
      rw [value, hs, amount_finite]
    have hpos : (0 : ℝ) < m * 2 ^ e := by positivity
    cases s with
    | negative =>
      rw [hvalue] at hnonneg
      exact absurd (neg_nonneg.1 hnonneg) hpos.not_ge
    | positive =>
      obtain ⟨least, hleast⟩ : ∃ least, least = min (e.ediv 2)
          (Format.binary32.targetExponent ((totalExponent m e + 1).ediv 2)) := ⟨_, rfl⟩
      obtain ⟨k, hk⟩ : ∃ k, (e - 2 * least).toNat = k := ⟨_, rfl⟩
      have hroot : x.sqrt = .ofModel (.pack (UnpackedFloat.roundWithAccuracy Format.binary32
          .positive (Nat.sqrt (m <<< k)) least
          (if m <<< k - Nat.sqrt (m <<< k) * Nat.sqrt (m <<< k) = 0 then .exact
            else .inexact (if m <<< k - Nat.sqrt (m <<< k) * Nat.sqrt (m <<< k) ≤ Nat.sqrt (m <<< k)
              then .lt else .gt)))) := by
        change Float32.ofModel (.pack (UnpackedFloat.sqrt Format.binary32 x.toModel.unpack)) = _
        rw [hs, ← hk, hleast]
        rfl
      -- the shift leaves an even exponent, half of which is the exponent of the root
      have hexponents : e = k + 2 * least := by
        have hhalf : least ≤ e / 2 := by
          rw [hleast]
          exact min_le_left _ _
        omega
      have hnumber : Real.sqrt (value x) = Real.sqrt ((m <<< k : ℕ) : ℝ) * 2 ^ least := by
        have hsquare : value x = ((m <<< k : ℕ) : ℝ) * (2 ^ least * 2 ^ least) := by
          rw [hvalue, hexponents, Nat.shiftLeft_eq, ← zpow_add₀ (by norm_num), ← two_mul,
            zpow_add₀ (by norm_num), zpow_natCast]
          push_cast
          exact (mul_assoc _ _ _).symm
        rw [hsquare, Real.sqrt_mul (by positivity), Real.sqrt_mul_self (by positivity)]
      have hresult := nearest_or_infinity_of_describes (describes_sqrt (m <<< k))
        (target_sqrt hm hleast hk) hroot
      rw [hnumber] at hbound ⊢
      rcases hresult with hnearest | ⟨hlarge, -⟩
      · exact hnearest
      · exact absurd hlarge hbound.not_gt

end Flowchart.Single
