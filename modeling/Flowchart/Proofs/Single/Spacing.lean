import Flowchart.Proofs.Single.Within

namespace Flowchart.Single

open Float.Model (Format UnpackedFloat)
open Float.Model.UnpackedFloat (Sign)

variable {x y : Float32} {a b r v : ℝ}

/-- Beyond the least number that needs all bits of a unit, only multiples of the unit follow. -/
theorem OnGrid.exists_multiple {e : ℤ} (h : OnGrid a) (hlt : 2 ^ 23 * 2 ^ e < a) :
    ∃ j : ℤ, a = j * 2 ^ e :=
  (h.multiple_or_small e).resolve_right fun hsmall => hsmall.2.not_gt hlt

theorem lt_of_mul_lt_mul_unit {i j : ℤ} {e : ℤ} (h : (i : ℝ) * 2 ^ e < j * 2 ^ e) : i < j := by
  have hunit : (0 : ℝ) < 2 ^ e := by positivity
  exact_mod_cast lt_of_mul_lt_mul_right h hunit.le

/-- The number after one that needs all bits. -/
theorem OnGrid.succ_le {m e : ℤ} (h : OnGrid a) (hm : 2 ^ 23 ≤ m) (hlt : m * 2 ^ e < a) :
    (m + 1 : ℤ) * 2 ^ e ≤ a := by
  have hunit : (0 : ℝ) < 2 ^ e := by positivity
  have hmreal : (2 : ℝ) ^ 23 ≤ m := mod_cast hm
  obtain ⟨j, rfl⟩ := h.exists_multiple ((mul_le_mul_of_nonneg_right hmreal hunit.le).trans_lt hlt)
  have hsucc : m + 1 ≤ j := lt_of_mul_lt_mul_unit hlt
  exact mul_le_mul_of_nonneg_right (mod_cast hsucc) hunit.le

/-- The number before one that needs all bits, and is not the least such. -/
theorem OnGrid.le_pred {m e : ℤ} (h : OnGrid a) (hm : 2 ^ 23 < m) (hlt : a < m * 2 ^ e) :
    a ≤ (m - 1 : ℤ) * 2 ^ e := by
  have hunit : (0 : ℝ) < 2 ^ e := by positivity
  by_cases hall : 2 ^ 23 * 2 ^ e < a
  · obtain ⟨j, rfl⟩ := h.exists_multiple hall
    have hpred : j ≤ m - 1 := Int.le_sub_one_of_lt (lt_of_mul_lt_mul_unit hlt)
    exact mul_le_mul_of_nonneg_right (mod_cast hpred) hunit.le
  · have hpred : (2 : ℝ) ^ 23 ≤ (m - 1 : ℤ) := by
      have hint : (2 : ℤ) ^ 23 ≤ m - 1 := by omega
      exact_mod_cast hint
    exact (not_lt.1 hall).trans (mul_le_mul_of_nonneg_right hpred hunit.le)

/-- The nearest number is at most half a unit away. -/
theorem IsNearest.abs_sub_le {e : ℤ} (h : IsNearest v r) (he : -149 ≤ e) (hr : 0 ≤ r)
    (hle : r ≤ 2 ^ 24 * 2 ^ e) : |v - r| ≤ 2 ^ e / 2 := by
  have hunit : (0 : ℝ) < 2 ^ e := by positivity
  obtain ⟨t, rfl⟩ : ∃ t, r = t * 2 ^ e := ⟨r / 2 ^ e, by field_simp⟩
  have ht : 0 ≤ t := nonneg_of_mul_nonneg_left hr hunit
  have htle : t ≤ 2 ^ 24 := le_of_mul_le_mul_right hle hunit
  have hround := abs_sub_round t
  have hgrid : OnGrid (round t * 2 ^ e) := by
    refine ⟨round t, e, ?_, he, rfl⟩
    obtain ⟨hlow, hhigh⟩ := abs_le.1 hround
    have hupper : (round t : ℝ) < (2 ^ 24 + 1 : ℤ) := by
      push_cast
      linarith
    have hlower : ((-1 : ℤ) : ℝ) < round t := by
      push_cast
      linarith
    have hupper : round t < 2 ^ 24 + 1 := by exact_mod_cast hupper
    have hlower : -1 < round t := by exact_mod_cast hlower
    rw [abs_le]
    omega
  refine (h _ hgrid).trans ?_
  rw [← sub_mul, abs_mul, abs_of_pos hunit, abs_sub_comm]
  calc |t - round t| * 2 ^ e ≤ 1 / 2 * 2 ^ e := mul_le_mul_of_nonneg_right hround hunit.le
    _ = 2 ^ e / 2 := by ring

/-- What is less than half a unit above a number is not rounded beyond it. -/
theorem IsNearest.le_of_lt_half {m e : ℤ} (h : IsNearest v r) (hv : OnGrid v) (hm : 2 ^ 23 ≤ m)
    (hgrid : OnGrid (m * 2 ^ e)) (hr : r < m * 2 ^ e + 2 ^ e / 2) : v ≤ m * 2 ^ e := by
  by_contra hover
  rw [not_le] at hover
  have hnext := hv.succ_le hm hover
  have hdist := h _ hgrid
  push_cast at hnext
  by_cases hle : r ≤ m * 2 ^ e
  · exact absurd (h.ge hgrid hle) hover.not_ge
  · have hunit : (0 : ℝ) < 2 ^ e := by positivity
    rw [abs_of_nonneg (by linarith), abs_of_nonpos (by linarith)] at hdist
    linarith

/-- Beyond a certain sum, numbers of at most one are no longer seen. -/
theorem Within.add_one (hx : Within 0 (2 ^ 25) x) (hy : Within 0 1 y) :
    Within 0 (2 ^ 25) (x + y) := by
  have hsum : value x + value y ≤ 2 ^ 25 + 1 := by linarith [hx.ge, hy.ge]
  have hnonneg : 0 ≤ value x + value y := by linarith [hx.le, hy.le]
  have hnearest := nearest_add hx.isFinite hy.isFinite (by
    rw [abs_of_nonneg hnonneg]
    exact hsum.trans (by norm_num))
  refine ⟨hnearest.isFinite, hnearest.le_value onGrid_zero hnonneg, ?_⟩
  -- the next number is four more
  have hbound : ((2 ^ 23 : ℤ) : ℝ) * 2 ^ (2 : ℤ) = 2 ^ 25 := by norm_num
  rw [← hbound]
  refine hnearest.isNearest.le_of_lt_half (onGrid_value _) le_rfl ?_ ?_
  · rw [hbound]
    exact onGrid_two_pow 25
  · rw [hbound]
    norm_num at hsum ⊢
    linarith

/-- A number taken away and added again does not lead beyond a power of two. -/
theorem value_add_sub_le {k : ℕ} (hx : x.isFinite = true) (hy : y.isFinite = true)
    (hnonneg : 0 ≤ value x) (hle : value x ≤ value y) (hk : 24 ≤ k) (hk' : k ≤ 126)
    (hbound : value y ≤ 2 ^ k) : Within (value x) (2 ^ k) (x + (y - x)) := by
  have hpower : (2 : ℝ) ^ k ≤ 2 ^ 126 := pow_le_pow_right₀ (by norm_num) hk'
  have hrest : 0 ≤ value y - value x := by linarith
  have hdifference := nearest_sub hy hx (by
    rw [abs_of_nonneg hrest]
    linarith [(by norm_num : (2 : ℝ) ^ 126 ≤ 2 ^ 127)])
  have hz := hdifference.le_value onGrid_zero hrest
  have hzle := hdifference.value_le (onGrid_two_pow k) (by linarith)
  obtain ⟨j, rfl⟩ := Nat.exists_eq_add_of_le hk
  have hunits : (2 : ℝ) ^ (24 + j) = 2 ^ 24 * 2 ^ (j : ℤ) := by
    rw [pow_add, zpow_natCast]
  have herror := hdifference.isNearest.abs_sub_le (e := j) (by omega) hrest (by
    rw [← hunits]
    linarith)
  obtain ⟨-, herror⟩ := abs_le.1 herror
  have hsum := nearest_add hx hdifference.isFinite (by
    rw [abs_of_nonneg (by linarith)]
    linarith [(by norm_num : (2 : ℝ) ^ 126 + 2 ^ 126 ≤ 2 ^ 127)])
  refine ⟨hsum.isFinite, hsum.le_value (onGrid_value x) (by linarith), ?_⟩
  have hlast : ((2 ^ 23 : ℤ) : ℝ) * 2 ^ (j + 1 : ℤ) = 2 ^ (24 + j) := by
    rw [hunits, zpow_add₀ (by norm_num)]
    norm_num
    ring
  rw [← hlast]
  refine hsum.isNearest.le_of_lt_half (onGrid_value _) le_rfl ?_ ?_
  · rw [hlast]
    exact onGrid_two_pow _
  · have hunit : (0 : ℝ) < 2 ^ (j : ℤ) := by positivity
    rw [hlast, zpow_add₀ (by norm_num), zpow_one]
    linarith

/-- Numbers on the grid are whole multiples of the least unit. -/
theorem OnGrid.exists_multiple_of_least (h : OnGrid a) : ∃ j : ℤ, a = j * 2 ^ (-149 : ℤ) :=
  (h.multiple_or_small (-149)).resolve_right fun hsmall => hsmall.1 rfl

theorem Nearest.nonneg_iff (h : Nearest (a - b) x) (ha : OnGrid a) (hb : OnGrid b) :
    0 ≤ value x ↔ b ≤ a := by
  constructor
  · intro hnonneg
    by_contra hless
    rw [not_le] at hless
    obtain ⟨i, rfl⟩ := ha.exists_multiple_of_least
    obtain ⟨j, rfl⟩ := hb.exists_multiple_of_least
    have hij : i - j ≤ -1 := by
      have hlt := lt_of_mul_lt_mul_unit hless
      omega
    have hgrid : OnGrid (-1 * 2 ^ (-149 : ℤ)) := ⟨-1, -149, by norm_num, le_rfl, by norm_num⟩
    have hunit : (0 : ℝ) < 2 ^ (-149 : ℤ) := by positivity
    have hstep : (i : ℝ) * 2 ^ (-149 : ℤ) - j * 2 ^ (-149 : ℤ) ≤ -1 * 2 ^ (-149 : ℤ) := by
      rw [← sub_mul]
      exact mul_le_mul_of_nonneg_right (mod_cast hij) hunit.le
    have hvalue := h.value_le hgrid hstep
    linarith
  · intro hle
    exact h.le_value onGrid_zero (sub_nonneg.2 hle)

theorem OnGrid.half (h : OnGrid a) (hone : 1 ≤ a) : OnGrid (a / 2) := by
  obtain ⟨n, e, hn, he, rfl⟩ := h
  have hleast : -149 ≤ e - 1 := by
    by_contra hsmall
    obtain rfl : e = -149 := by omega
    have hnreal : (n : ℝ) ≤ 2 ^ 24 := mod_cast (le_abs_self n).trans hn
    have hunit : (0 : ℝ) < 2 ^ (-149 : ℤ) := by positivity
    have hproduct := mul_le_mul_of_nonneg_right hnreal hunit.le
    norm_num at hproduct hone
    linarith
  refine ⟨n, e - 1, hn, hleast, ?_⟩
  rw [zpow_sub_one₀ (by norm_num)]
  ring

theorem OnGrid.double (h : OnGrid a) : OnGrid (2 * a) := by
  obtain ⟨n, e, hn, he, rfl⟩ := h
  refine ⟨n, e + 1, hn, by omega, ?_⟩
  rw [zpow_add_one₀ (by norm_num)]
  ring

/-- Roots are as far apart as the squares, divided by the sum of the roots. -/
theorem abs_sub_sqrt_mul {p : ℝ} (ha : 0 < a) (hp : 0 ≤ p) :
    |a - Real.sqrt p| * (a + Real.sqrt p) = |p - a ^ 2| := by
  have hpos : 0 < a + Real.sqrt p := add_pos_of_pos_of_nonneg ha (Real.sqrt_nonneg p)
  have hfactors : (a - Real.sqrt p) * (a + Real.sqrt p) = a ^ 2 - p := by
    rw [mul_comm, ← sq_sub_sq, Real.sq_sqrt hp]
  rw [abs_sub_comm p, ← hfactors, abs_mul, abs_of_pos hpos]

/-- The number nearest to a square has a root that is less than half a unit away. -/
theorem abs_sub_sqrt_lt {m : ℕ} {e : ℤ} {p : ℝ} (hm : 2 ^ 23 < m) (hmlt : m < 2 ^ 24)
    (he : -149 ≤ 2 * e) (hp : IsNearest p ((m * 2 ^ e) ^ 2)) :
    |(m : ℝ) * 2 ^ e - Real.sqrt p| < 2 ^ e / 2 := by
  have hunit : (0 : ℝ) < 2 ^ e := by positivity
  have hmreal : (2 : ℝ) ^ 23 < m := mod_cast hm
  have hmupper : (m : ℝ) < 2 ^ 24 := mod_cast hmlt
  set u : ℝ := 2 ^ e with hu
  have hsquare : ∀ k : ℕ, (2 : ℝ) ^ (2 * e + k) = 2 ^ k * u ^ 2 := by
    intro k
    rw [zpow_add₀ (by norm_num), two_mul, zpow_add₀ (by norm_num), zpow_natCast, hu]
    ring
  have hpnonneg : 0 ≤ p := hp.le onGrid_zero (by positivity)
  have hroot := Real.sq_sqrt hpnonneg
  have hrootnonneg := Real.sqrt_nonneg p
  have hproduct := abs_sub_sqrt_mul (mul_pos (by positivity : (0 : ℝ) < m) hunit) hpnonneg
  set w := Real.sqrt p
  have huw : 0 ≤ u * w := by positivity
  suffices hless : |p - (m * u) ^ 2| < u / 2 * (m * u + w) by
    rw [← hproduct] at hless
    exact lt_of_mul_lt_mul_right hless (by positivity)
  by_cases hhalf : m ^ 2 < 2 ^ 47
  · have hreal : (m : ℝ) ^ 2 ≤ 2 ^ 47 := by exact_mod_cast hhalf.le
    have hle : ((m : ℝ) * u) ^ 2 ≤ 2 ^ 24 * 2 ^ (2 * e + (23 : ℕ)) := by
      rw [hsquare, mul_pow]
      linarith [mul_le_mul_of_nonneg_right hreal (sq_nonneg u)]
    have herror := hp.abs_sub_le (by omega) (by positivity) hle
    rw [hsquare] at herror
    have hmu := mul_lt_mul_of_pos_right hmreal (by positivity : 0 < u ^ 2)
    linarith
  · have hreal : (2 : ℝ) ^ 47 ≤ (m : ℝ) ^ 2 := by exact_mod_cast not_lt.1 hhalf
    have hle : ((m : ℝ) * u) ^ 2 ≤ 2 ^ 24 * 2 ^ (2 * e + (24 : ℕ)) := by
      have hupper : (m : ℝ) ^ 2 ≤ (2 ^ 24) ^ 2 := pow_le_pow_left₀ (Nat.cast_nonneg m) hmupper.le 2
      rw [hsquare, mul_pow]
      linarith [mul_le_mul_of_nonneg_right hupper (sq_nonneg u)]
    have herror := hp.abs_sub_le (by omega) (by positivity) hle
    rw [hsquare] at herror
    -- now both roots are greater by a factor of nearly the root of two
    have hplarge : (2 : ℝ) ^ (2 * e + (47 : ℕ)) ≤ p := by
      refine hp.le (onGrid_two_zpow (by omega)) ?_
      rw [hsquare, mul_pow]
      exact mul_le_mul_of_nonneg_right hreal (sq_nonneg u)
    rw [hsquare, ← hroot] at hplarge
    have hwlarge : 11000000 * u < w := by
      refine lt_of_pow_lt_pow_left₀ 2 hrootnonneg ?_
      have hu2 : 0 < u ^ 2 := by positivity
      rw [mul_pow]
      linarith
    have hmlarge : 11000000 < (m : ℝ) := by
      refine lt_of_pow_lt_pow_left₀ 2 (Nat.cast_nonneg m) ?_
      linarith
    have hmu := mul_lt_mul_of_pos_right hmlarge (by positivity : 0 < u ^ 2)
    have hwu := mul_lt_mul_of_pos_left hwlarge hunit
    linarith

/-- A number that is not very small has all its bits. -/
theorem exists_bits {d : Float32} (hd : d.isFinite = true) (hlarge : 2 ^ (-24 : ℤ) < |value d|) :
    ∃ (m : ℕ) (e : ℤ), 2 ^ 23 ≤ m ∧ m < 2 ^ 24 ∧ -48 < e ∧ |value d| = m * 2 ^ e := by
  obtain ⟨s, hs⟩ | ⟨s, m, e, hm, hs⟩ := (proper_unpack hd).zero_or_finite
  · rw [value, hs, amount_zero, abs_zero] at hlarge
    exact absurd hlarge (by positivity : (0 : ℝ) ≤ 2 ^ (-24 : ℤ)).not_gt
  · have hcanonical := (proper_unpack hd).canonical
    rw [hs] at hcanonical
    obtain ⟨hlt, hleast, hbits⟩ := hcanonical
    have habs : |value d| = m * 2 ^ e := by
      rw [value, hs, amount_finite, abs_signed, abs_of_pos (by positivity)]
    have hmreal : (m : ℝ) < 2 ^ (24 : ℤ) := mod_cast hlt
    have hexponent : (2 : ℝ) ^ (-24 : ℤ) < 2 ^ (24 + e) := by
      rw [habs] at hlarge
      rw [zpow_add₀ (by norm_num)]
      exact hlarge.trans (mul_lt_mul_of_pos_right hmreal (by positivity))
    have he : -24 < 24 + e := (zpow_lt_zpow_iff_right₀ (by norm_num)).1 hexponent
    exact ⟨m, e, by omega, hlt, by omega, habs⟩

/-- The root of the square of a number is the number again, if it is not very small. -/
theorem value_root_of_square {d q l : Float32} (hd : d.isFinite = true)
    (hq : IsNearest (value q) (value d ^ 2)) (hl : IsNearest (value l) (Real.sqrt (value q)))
    (hlarge : 2 ^ (-23 : ℤ) < value l) : value l = |value d| := by
  have hsmall : 2 ^ (-24 : ℤ) < |value d| := by
    by_contra hle
    rw [not_lt] at hle
    have hsquare : value d ^ 2 ≤ 2 ^ (-48 : ℤ) := by
      rw [← sq_abs]
      calc |value d| ^ 2 ≤ (2 ^ (-24 : ℤ)) ^ 2 := pow_le_pow_left₀ (abs_nonneg _) hle 2
        _ = 2 ^ (-48 : ℤ) := by norm_num
    have hqle := hq.ge (onGrid_two_zpow (by norm_num)) hsquare
    have hroot : Real.sqrt (value q) ≤ 2 ^ (-24 : ℤ) := by
      rw [Real.sqrt_le_left (by positivity)]
      exact hqle.trans (by norm_num)
    have hlle := hl.ge (onGrid_two_zpow (by norm_num)) hroot
    norm_num at hlle hlarge
    linarith
  -- a normal number: its mantissa `m` has all 24 bits
  obtain ⟨m, e, hm, hmlt, he, habs⟩ := exists_bits hd hsmall
  rw [← sq_abs, habs] at hq
  have hgrid : OnGrid (m * 2 ^ e) := habs ▸ (onGrid_value d).abs
  rw [habs]
  rcases hm.eq_or_lt with heq | hlt
  · -- the square of a power of two is exact
    have hpower : ((m : ℝ) * 2 ^ e) ^ 2 = 2 ^ (2 * (23 + e)) := by
      rw [← heq, two_mul, zpow_add₀ (by norm_num), zpow_add₀ (by norm_num)]
      push_cast
      norm_num
      ring
    have hexact : value q = (m * 2 ^ e) ^ 2 := by
      have hsquare : OnGrid ((m * 2 ^ e) ^ 2) := hpower ▸ onGrid_two_zpow (by omega)
      exact le_antisymm (hq.ge hsquare le_rfl) (hq.le hsquare le_rfl)
    rw [hexact, Real.sqrt_sq (by positivity)] at hl
    exact le_antisymm (hl.ge hgrid le_rfl) (hl.le hgrid le_rfl)
  · have hclose := abs_sub_sqrt_lt hlt hmlt (by omega) hq
    have hnear := (hl _ hgrid).trans_lt hclose
    have hapart : |value l - m * 2 ^ e| < 2 ^ e := by
      have htriangle := abs_sub_le (value l) (Real.sqrt (value q)) (m * 2 ^ e)
      rw [abs_sub_comm (Real.sqrt _)] at htriangle
      linarith
    obtain ⟨hlow, hhigh⟩ := abs_lt.1 hapart
    have hcast : ((m : ℤ) : ℝ) = m := Int.cast_natCast m
    by_contra hne
    rcases lt_or_gt_of_ne hne with hless | hgreater
    · have hpred := (onGrid_value l).le_pred (m := m) (e := e) (by omega) (by rwa [hcast])
      push_cast at hpred
      linarith
    · have hsucc := (onGrid_value l).succ_le (m := m) (e := e) (by omega) (by rwa [hcast])
      push_cast at hsucc
      linarith

theorem exists_unpack_of_pos (hx : x.isFinite = true) (hpos : 0 < value x) :
    ∃ m e hm, x.toModel.unpack = .finite .positive m e hm ∧ value x = m * 2 ^ e := by
  obtain ⟨s, hs⟩ | ⟨s, m, e, hm, hs⟩ := (proper_unpack hx).zero_or_finite
  · rw [(is_of_unpack_zero hs).value_eq] at hpos
    exact absurd hpos (lt_irrefl 0)
  · have hvalue : value x = signed s (m * 2 ^ e) := by rw [value, hs, amount_finite]
    cases s with
    | positive => exact ⟨m, e, hm, hs, hvalue⟩
    | negative =>
      have hneg : signed .negative ((m : ℝ) * 2 ^ e) < 0 := neg_lt_zero.2 (by positivity)
      rw [hvalue] at hpos
      exact absurd hpos hneg.not_gt

/-- A positive number has one single. -/
theorem eq_of_value_eq (hx : x.isFinite = true) (hy : y.isFinite = true) (hpos : 0 < value x)
    (h : value x = value y) : x = y := by
  have hunpack : x.toModel.unpack = y.toModel.unpack := by
    obtain ⟨m, d, hm, hxparts, hxvalue⟩ := exists_unpack_of_pos hx hpos
    obtain ⟨n, e, hn, hyparts, hyvalue⟩ := exists_unpack_of_pos hy (h ▸ hpos)
    have hcx := (proper_unpack hx).canonical
    have hcy := (proper_unpack hy).canonical
    rw [hxparts] at hcx
    rw [hyparts] at hcy
    have hcompare := compare_exponents_eq_cmp hm hn hcx hcy
    rw [← hxvalue, ← hyvalue, h, cmp_self_eq_eq, Ordering.then_eq_eq, compare_eq_iff_eq,
      compare_eq_iff_eq] at hcompare
    obtain ⟨rfl, rfl⟩ := hcompare
    rw [hxparts, hyparts]
  obtain ⟨⟨bits, hvalid⟩⟩ := x
  obtain ⟨⟨bits', hvalid'⟩⟩ := y
  have hbits := (UnpackedFloat.unpack_inj_of_valid hvalid hvalid').1 hunpack
  have hbits : bits = bits' := UInt32.toBitVec_inj.1 hbits
  subst hbits
  rfl

theorem Is.exists_zero (h : Is 0 x) : ∃ s, x.toModel.unpack = .zero s := by
  obtain ⟨s, hs⟩ | ⟨s, m, e, hm, hs⟩ := (proper_unpack h.isFinite).zero_or_finite
  · exact ⟨s, hs⟩
  · have hvalue := congrArg abs h.value_eq
    rw [value, hs, amount_finite, abs_signed, abs_zero, abs_of_pos (by positivity)] at hvalue
    exact absurd hvalue (by positivity : (0 : ℝ) < m * 2 ^ e).ne'

/-- Nothing is lost when zero is added, be the number as large as it may. -/
theorem unpack_add_zero {z : Float32} (hz : Is 0 z) (hx : ∀ s, x.toModel.unpack ≠ .zero s) :
    (x + z).toModel.unpack = x.toModel.unpack ∧ (z + x).toModel.unpack = x.toModel.unpack := by
  obtain ⟨t, ht⟩ := hz.exists_zero
  have hagain : UnpackedFloat.unpack Format.binary32
      (UnpackedFloat.pack Format.binary32 x.toModel.unpack) = x.toModel.unpack :=
    unpack_pack (canonical_unpack _) (fits_unpack _)
  have hright : UnpackedFloat.add Format.binary32 x.toModel.unpack (.zero t) = x.toModel.unpack := by
    cases h : x.toModel.unpack with
    | zero s => exact absurd h (hx s)
    | notANumber | infinity | finite => rfl
  have hleft : UnpackedFloat.add Format.binary32 (.zero t) x.toModel.unpack = x.toModel.unpack := by
    cases h : x.toModel.unpack with
    | zero s => exact absurd h (hx s)
    | notANumber | infinity | finite => rfl
  constructor
  · change UnpackedFloat.unpack Format.binary32 (UnpackedFloat.pack Format.binary32
      (UnpackedFloat.add Format.binary32 x.toModel.unpack z.toModel.unpack)) = _
    rw [ht, hright, hagain]
  · change UnpackedFloat.unpack Format.binary32 (UnpackedFloat.pack Format.binary32
      (UnpackedFloat.add Format.binary32 z.toModel.unpack x.toModel.unpack)) = _
    rw [ht, hleft, hagain]

theorem squares_mul_self (hx : x.isFinite = true) : Squares x (x * x) := by
  unfold Squares
  rw [sq]
  obtain ⟨s, hs⟩ | ⟨s, m, e, hm, hs⟩ := (proper_unpack hx).zero_or_finite
  · left
    have hzero := (is_of_unpack_zero hs).value_eq
    exact nearest_mul hx hx (by rw [hzero]; norm_num)
  · have hsign : s * s = .positive := by
      cases s <;> rfl
    have hresult := nearest_or_infinity_mul hs hs
    rwa [hsign, abs_mul_self] at hresult

theorem squares_add_zero {d q z : Float32} (h : Squares d q) (hz : Is 0 z) :
    Squares d (q + z) ∧ Squares d (z + q) := by
  by_cases hq : ∃ s, q.toModel.unpack = .zero s
  · obtain ⟨s, hs⟩ := hq
    have hvalue := (is_of_unpack_zero hs).value_eq
    rcases h with hnearest | ⟨-, hinfinity⟩
    · have hsum {y : Float32} (hy : Nearest (0 : ℝ) y) : Squares d y := by
        have hzero := hy.value_eq onGrid_zero
        exact .inl (hnearest.of_value_eq hy.isFinite (hzero.trans hvalue.symm))
      have hright := nearest_add hnearest.isFinite hz.isFinite (by rw [hvalue, hz.value_eq]; norm_num)
      have hleft := nearest_add hz.isFinite hnearest.isFinite (by rw [hvalue, hz.value_eq]; norm_num)
      rw [hvalue, hz.value_eq, add_zero] at hright hleft
      exact ⟨hsum hright, hsum hleft⟩
    · rw [hs] at hinfinity
      exact absurd hinfinity (by simp)
  · have hkept {y : Float32} (hy : y.toModel.unpack = q.toModel.unpack) : Squares d y := by
      have hvalue : value y = value q := by rw [value, hy, ← value]
      refine h.imp (fun hnearest => hnearest.of_value_eq ?_ hvalue)
        (And.imp_right fun hinfinity => hy.trans hinfinity)
      have hfinite := hnearest.isFinite
      change q.toModel.unpack.isFinite = true at hfinite
      change y.toModel.unpack.isFinite = true
      rwa [hy]
    have hsum := unpack_add_zero hz (fun s hs => hq ⟨s, hs⟩)
    exact ⟨hkept hsum.1, hkept hsum.2⟩

/-- No finite single is greater than infinity. -/
theorem le_of_infinity (hx : x.isFinite = true) (hy : y.toModel.unpack = .infinity .positive) :
    x ≤ y := by
  have hmodel : x ≤ y ↔ x.toModel.unpack.le y.toModel.unpack = true := decide_eq_true_iff
  rw [hmodel, hy]
  obtain ⟨s, hs⟩ | ⟨s, m, e, hm, hs⟩ := (proper_unpack hx).zero_or_finite
  · rw [hs]
    rfl
  · rw [hs]
    cases s <;> rfl

/-- The root of a square gives the number again, unless this is very small, or it is infinity. -/
theorem root_of_squares {d q : Float32} (hd : d.isFinite = true) (h : Squares d q) :
    (q.sqrt.isFinite = true ∧ (2 ^ (-23 : ℤ) < value q.sqrt → value q.sqrt = |value d|)) ∨
      (2 : ℝ) ^ 63 < |value d| ∧ q.sqrt.toModel.unpack = .infinity .positive := by
  rcases h with hnearest | ⟨hlarge, hinfinity⟩
  · left
    have hnonneg : 0 ≤ value q := hnearest.le_value onGrid_zero (sq_nonneg _)
    have hbound : Real.sqrt (value q) ≤ 2 ^ 127 := by
      rw [Real.sqrt_le_left (by positivity)]
      exact ((le_abs_self _).trans (abs_value_le hnearest.isFinite)).trans (by norm_num)
    have hroot := nearest_sqrt hnearest.isFinite hnonneg hbound
    exact ⟨hroot.isFinite, value_root_of_square hd hnearest.isNearest hroot.isNearest⟩
  · right
    refine ⟨?_, ?_⟩
    · rw [← sq_abs] at hlarge
      refine lt_of_pow_lt_pow_left₀ 2 (abs_nonneg _) (lt_trans ?_ hlarge)
      norm_num
    · change UnpackedFloat.unpack Format.binary32 (UnpackedFloat.pack Format.binary32
        (UnpackedFloat.sqrt Format.binary32 q.toModel.unpack)) = _
      rw [hinfinity]
      rfl

end Flowchart.Single
