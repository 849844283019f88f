import Flowchart.Proofs.Single.Spacing

/-! A number taken away and added again. Each time one unit may be lost, but since ties go to even
mantissas, what has an even mantissa is never lost, however often this is done. -/
namespace Flowchart.Single

variable {x y : Float32} {r : ℝ}

theorem not_onEvenGrid_of_odd {i e : ℤ} (hodd : Odd i) (hi : 2 ^ 23 < i) : ¬ OnEvenGrid (i * 2 ^ e) := by
  rintro ⟨n, d, hn, -, heq⟩
  by_cases hde : d ≤ e
  · obtain ⟨k, rfl⟩ := Int.le.dest hde
    have hreal : (i : ℝ) * 2 ^ k = n := by
      have hunit : (2 : ℝ) ^ d ≠ 0 := by positivity
      rw [zpow_add₀ (by norm_num), zpow_natCast] at heq
      apply mul_right_cancel₀ hunit
      linarith
    have hint : i * 2 ^ k = n := by exact_mod_cast hreal
    have hgrows : i * 1 ≤ i * 2 ^ k := mul_le_mul_of_nonneg_left (one_le_pow₀ (by norm_num)) (by omega)
    have hle := (le_abs_self n).trans hn
    omega
  · obtain ⟨k, hk⟩ := Int.le.dest (by omega : e + 1 ≤ d)
    have hreal : (i : ℝ) = n * 2 ^ (k + 1) := by
      have hunit : (2 : ℝ) ^ e ≠ 0 := by positivity
      have hexponent : d = e + (k + 1 : ℕ) := by
        push_cast
        omega
      rw [hexponent, zpow_add₀ (by norm_num), zpow_natCast] at heq
      apply mul_right_cancel₀ hunit
      linarith
    have hint : i = 2 * (n * 2 ^ k) := by
      have hcast : i = n * 2 ^ (k + 1) := by exact_mod_cast hreal
      rw [hcast, pow_succ]
      ring
    rw [hint] at hodd
    exact absurd (even_two_mul _) (Int.not_even_iff_odd.2 hodd)

/-- What is at most half a unit below a number with an even mantissa is not rounded below it. -/
theorem Nearest.le_value_of_half_below {m e : ℤ} (h : Nearest r x) (hm : 2 ^ 22 < m)
    (hm' : m ≤ 2 ^ 23) (he : -149 ≤ e) (hle : (2 * m : ℤ) * 2 ^ e - 2 ^ e / 2 ≤ r) :
    (2 * m : ℤ) * 2 ^ e ≤ value x := by
  have hgrid : OnGrid ((2 * m : ℤ) * 2 ^ e) := ⟨2 * m, e, by rw [abs_le]; omega, he, rfl⟩
  by_contra hless
  rw [not_le] at hless
  have hbelow : r < (2 * m : ℤ) * 2 ^ e := by
    by_contra hover
    exact hless.not_ge (h.le_value hgrid (not_lt.1 hover))
  have hpred := (onGrid_value x).le_pred (by omega) hless
  have hnear := h.isNearest _ hgrid
  have hsplit : ((2 * m - 1 : ℤ) : ℝ) * 2 ^ e = (2 * m : ℤ) * 2 ^ e - 2 ^ e := by
    push_cast
    ring
  have hunit : (0 : ℝ) < 2 ^ e := by positivity
  rw [hsplit] at hpred
  rw [abs_of_nonpos (by linarith), abs_of_pos (by linarith)] at hnear
  -- both are half a unit away, so this is a tie
  have hvalue : value x = (2 * m : ℤ) * 2 ^ e - 2 ^ e := by linarith
  have htie : |(2 * m : ℤ) * 2 ^ e - r| = |value x - r| := by
    rw [abs_of_pos (by linarith), abs_of_nonpos (by linarith)]
    linarith
  rcases h.tiesToEven _ hgrid htie with heq | heven
  · linarith
  · rw [hvalue, ← hsplit] at heven
    exact not_onEvenGrid_of_odd ⟨m - 1, by ring⟩ (by omega) heven

/-- A number of at most 23 bits has an even mantissa of 24 bits. -/
theorem exists_even_bits {n : ℕ} (hpos : 0 < n) (hn : n ≤ 2 ^ 23) (e : ℤ) :
    ∃ m k : ℤ, 2 ^ 22 < m ∧ m ≤ 2 ^ 23 ∧ e - 24 ≤ k ∧ (n : ℝ) * 2 ^ e = (2 * m : ℤ) * 2 ^ k := by
  obtain ⟨j, hj, hlow, hhigh⟩ : ∃ j ≤ 23, 2 ^ 22 < n * 2 ^ j ∧ n * 2 ^ j ≤ 2 ^ 23 := by
    by_cases hone : n = 1
    · exact ⟨23, le_rfl, by rw [hone]; norm_num, by rw [hone]; norm_num⟩
    · have hclog : Nat.clog 2 n ≤ 23 := Nat.clog_le_of_le_pow hn
      have hclogpos : 0 < Nat.clog 2 n := Nat.clog_pos (by norm_num) (by omega)
      have hlow := Nat.pow_pred_clog_lt_self (by norm_num : 1 < 2) (by omega : 1 < n)
      have hhigh := Nat.le_pow_clog (by norm_num : 1 < 2) n
      refine ⟨23 - Nat.clog 2 n, Nat.sub_le _ _, ?_, ?_⟩
      · calc 2 ^ 22 = 2 ^ (Nat.clog 2 n).pred * 2 ^ (23 - Nat.clog 2 n) := by
              rw [← pow_add, Nat.pred_eq_sub_one]
              congr 1
              omega
          _ < n * 2 ^ (23 - Nat.clog 2 n) := Nat.mul_lt_mul_of_pos_right hlow (by positivity)
      · calc n * 2 ^ (23 - Nat.clog 2 n) ≤ 2 ^ Nat.clog 2 n * 2 ^ (23 - Nat.clog 2 n) :=
              Nat.mul_le_mul_right _ hhigh
          _ = 2 ^ 23 := by
              rw [← pow_add]
              congr 1
              omega
  refine ⟨(n * 2 ^ j : ℕ), e - (j + 1), by exact_mod_cast hlow, by exact_mod_cast hhigh, by omega, ?_⟩
  rw [zpow_sub₀ (by norm_num), zpow_add_one₀ (by norm_num), zpow_natCast]
  push_cast
  field_simp

/-- Every multiple of 16, up to 2^27, that the first single reaches is reached by the second. -/
def Reaches (x y : Float32) : Prop :=
  ∀ n : ℕ, n ≤ 2 ^ 23 → (n * 16 : ℕ) ≤ value x → (n * 16 : ℕ) ≤ value y

theorem reaches_of_le (h : value x ≤ value y) : Reaches x y := fun _ _ hn => hn.trans h

theorem Reaches.trans {z : Float32} (h : Reaches x y) (h' : Reaches y z) : Reaches x z :=
  fun n hn hle => h' n hn (h n hn hle)

/-- What has an even mantissa and is no more than a number is no more than what this becomes when
another number is taken away and added again. -/
theorem reaches_add_sub (hx : x.isFinite = true) (hy : y.isFinite = true) (hnonneg : 0 ≤ value x)
    (hxy : value x ≤ value y) (hbound : value y ≤ 2 ^ 126) : Reaches y (x + (y - x)) := by
  intro n hn hle
  have hmultiple : ((n * 16 : ℕ) : ℝ) = n * 2 ^ (4 : ℤ) := by norm_num
  rw [hmultiple] at hle ⊢
  have hlimit : (2 : ℝ) ^ 126 + 2 ^ 126 ≤ 2 ^ 127 := by norm_num
  have hrest : 0 ≤ value y - value x := sub_nonneg.2 hxy
  have hdifference := nearest_sub hy hx (by
    rw [abs_of_nonneg hrest]
    linarith)
  have hz := hdifference.le_value onGrid_zero hrest
  have hzle := hdifference.value_le (onGrid_two_pow 126) (by linarith)
  have hsum := nearest_add hx hdifference.isFinite (by
    rw [abs_of_nonneg (by linarith)]
    linarith)
  rcases Nat.eq_zero_or_pos n with rfl | hpos
  · rw [Nat.cast_zero, zero_mul]
    exact hsum.le_value onGrid_zero (by linarith)
  obtain ⟨m, k, hm, hm', hk, hparts⟩ := exists_even_bits hpos hn 4
  rw [hparts] at hle ⊢
  have hunit : (0 : ℝ) < 2 ^ k := by positivity
  have hfull : ((2 * m : ℤ) : ℝ) * 2 ^ k ≤ 2 ^ 24 * 2 ^ k := by
    have hint : ((2 * m : ℤ) : ℝ) ≤ 2 ^ 24 := by exact_mod_cast (by omega : 2 * m ≤ 2 ^ 24)
    exact mul_le_mul_of_nonneg_right hint hunit.le
  refine hsum.le_value_of_half_below hm hm' (by omega) ?_
  -- a small difference is at most half a unit off, a larger one alone reaches `2 * m` units
  by_cases hlarge : value y - value x ≤ 2 ^ 24 * 2 ^ k
  · have herror := (abs_le.1 (hdifference.isNearest.abs_sub_le (by omega) hrest hlarge)).1
    linarith
  · have hgrid : OnGrid ((2 ^ 24 : ℤ) * 2 ^ k) := ⟨2 ^ 24, k, by norm_num, by omega, rfl⟩
    have hcast : ((2 ^ 24 : ℤ) : ℝ) = 2 ^ 24 := by norm_num
    rw [hcast] at hgrid
    have hdifference_le := hdifference.le_value hgrid (not_le.1 hlarge).le
    linarith

/-- A margin of 24 makes up for what is lost, as long as units are no larger than 16. -/
theorem le_value_add_margin {margin : Float32} (hmargin : Is 24 margin) (hx : Within 0 (2 ^ 126) x)
    (hy : Within 0 (2 ^ 126) y) (hreaches : Reaches x y)
    (hsmall : value (y + margin) < 2 ^ 27) : value x ≤ value (y + margin) := by
  have hlimit : (2 : ℝ) ^ 126 + 24 ≤ 2 ^ 127 := by norm_num
  have hsum := nearest_add hy.isFinite hmargin.isFinite (by
    rw [hmargin.value_eq, abs_of_nonneg (by linarith [hy.le])]
    linarith [hy.ge])
  rw [hmargin.value_eq] at hsum
  have hgrows := hsum.le_value (onGrid_value y) (by linarith)
  have hxsmall : value x < 2 ^ 27 := by
    by_contra hlarge
    have hreached := hreaches (2 ^ 23) le_rfl (by
      push_cast
      norm_num at hlarge ⊢
      linarith)
    push_cast at hreached
    norm_num at hreached hsmall
    linarith
  obtain ⟨n, hn⟩ : ∃ n, n = ⌊value x / 16⌋₊ := ⟨_, rfl⟩
  have hlow : (n : ℝ) ≤ value x / 16 := hn ▸ Nat.floor_le (by linarith [hx.le])
  have hhigh : value x / 16 < n + 1 := hn ▸ Nat.lt_floor_add_one _
  have hbits : n ≤ 2 ^ 23 := by
    have hreal : (n : ℝ) ≤ ((2 ^ 23 : ℕ) : ℝ) := by
      push_cast
      linarith
    exact_mod_cast hreal
  have hreached := hreaches n hbits (by push_cast; linarith)
  refine hsum.le_value (onGrid_value x) ?_
  push_cast at hreached
  linarith

end Flowchart.Single
