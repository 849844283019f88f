import Flowchart.Proofs.Single.Arithmetic

/-! Rounding keeps to bounds that are themselves singles, so bounds are carried through a
computation as if it were made with real numbers. -/
namespace Flowchart.Single

open Float.Model (Format UnpackedFloat totalExponent)
open Float.Model.UnpackedFloat (Sign)

variable {x y : Float32} {a b c d r lo hi : ℝ}

theorem IsNearest.le {v : ℝ} (h : IsNearest v r) (ha : OnGrid a) (hle : a ≤ r) : a ≤ v := by
  have hnear := h a ha
  rw [abs_of_nonpos (by linarith : a - r ≤ 0)] at hnear
  have hlower := neg_abs_le (v - r)
  linarith

theorem IsNearest.ge {v : ℝ} (h : IsNearest v r) (ha : OnGrid a) (hle : r ≤ a) : v ≤ a := by
  have hnear := h a ha
  rw [abs_of_nonneg (by linarith : 0 ≤ a - r)] at hnear
  have hupper := le_abs_self (v - r)
  linarith

theorem Nearest.le_value (h : Nearest r x) (ha : OnGrid a) (hle : a ≤ r) : a ≤ value x :=
  h.isNearest.le ha hle

theorem Nearest.value_le (h : Nearest r x) (ha : OnGrid a) (hle : r ≤ a) : value x ≤ a :=
  h.isNearest.ge ha hle

theorem Nearest.value_eq (h : Nearest r x) (hr : OnGrid r) : value x = r :=
  le_antisymm (h.value_le hr le_rfl) (h.le_value hr le_rfl)

structure Is (r : ℝ) (x : Float32) : Prop where
  isFinite : x.isFinite = true
  value_eq : value x = r

theorem Nearest.is (h : Nearest r x) (hr : OnGrid r) : Is r x := ⟨h.isFinite, h.value_eq hr⟩

structure Within (lo hi : ℝ) (x : Float32) : Prop where
  isFinite : x.isFinite = true
  le : lo ≤ value x
  ge : value x ≤ hi

/-- A number that a single can have, and so a bound that rounding keeps to. -/
structure IsBound (r : ℝ) : Prop where
  onGrid : OnGrid r
  abs_le : |r| ≤ 2 ^ 127

theorem isBound_natCast {n : ℕ} (h : n ≤ 2 ^ 24) : IsBound n := by
  have hreal : (n : ℝ) ≤ 2 ^ 24 := mod_cast h
  refine ⟨?_, ?_⟩
  · have hint : |(n : ℤ)| ≤ 2 ^ 24 := by
      rw [Nat.abs_cast]
      exact_mod_cast h
    exact_mod_cast onGrid_intCast hint
  · rw [abs_of_nonneg (Nat.cast_nonneg n)]
    exact hreal.trans (by norm_num)

theorem isBound_ofNat (n : ℕ) [n.AtLeastTwo] (h : n ≤ 2 ^ 24) : IsBound (OfNat.ofNat n) := by
  have hcast : (OfNat.ofNat n : ℝ) = n := (Nat.cast_ofNat (n := n)).symm
  rw [hcast]
  exact isBound_natCast h

theorem isBound_zero : IsBound 0 := by
  simpa using isBound_natCast (n := 0) (by norm_num)

theorem isBound_one : IsBound 1 := by
  simpa using isBound_natCast (n := 1) (by norm_num)

theorem isBound_two_pow {k : ℕ} (h : k ≤ 127) : IsBound (2 ^ k) := by
  refine ⟨onGrid_two_pow k, ?_⟩
  rw [abs_of_pos (by positivity)]
  exact pow_le_pow_right₀ (by norm_num) h

theorem IsBound.neg (h : IsBound r) : IsBound (-r) := ⟨h.onGrid.neg, by rw [abs_neg]; exact h.abs_le⟩

theorem Nearest.within (h : Nearest r x) (hlo : IsBound lo) (hhi : IsBound hi) (hle : lo ≤ r)
    (hge : r ≤ hi) : Within lo hi x :=
  ⟨h.isFinite, h.le_value hlo.onGrid hle, h.value_le hhi.onGrid hge⟩

theorem abs_le_of_bounds (hlo : IsBound lo) (hhi : IsBound hi) (hle : lo ≤ r) (hge : r ≤ hi) :
    |r| ≤ 2 ^ 127 :=
  abs_le.2 ⟨(abs_le.1 hlo.abs_le).1.trans hle, hge.trans (abs_le.1 hhi.abs_le).2⟩

theorem Is.within (h : Is r x) : Within r r x := ⟨h.isFinite, h.value_eq.ge, h.value_eq.le⟩

theorem Within.mono (h : Within a b x) (hle : lo ≤ a) (hge : b ≤ hi) : Within lo hi x :=
  ⟨h.isFinite, hle.trans h.le, h.ge.trans hge⟩

theorem Within.add (hx : Within a b x) (hy : Within c d y) (hlo : IsBound lo) (hhi : IsBound hi)
    (hle : lo ≤ a + c) (hge : b + d ≤ hi) : Within lo hi (x + y) := by
  have hlow : lo ≤ value x + value y := by linarith [hx.le, hy.le]
  have hhigh : value x + value y ≤ hi := by linarith [hx.ge, hy.ge]
  exact (nearest_add hx.isFinite hy.isFinite (abs_le_of_bounds hlo hhi hlow hhigh)).within hlo hhi
    hlow hhigh

theorem Within.sub (hx : Within a b x) (hy : Within c d y) (hlo : IsBound lo) (hhi : IsBound hi)
    (hle : lo ≤ a - d) (hge : b - c ≤ hi) : Within lo hi (x - y) := by
  have hlow : lo ≤ value x - value y := by linarith [hx.le, hy.ge]
  have hhigh : value x - value y ≤ hi := by linarith [hx.ge, hy.le]
  exact (nearest_sub hx.isFinite hy.isFinite (abs_le_of_bounds hlo hhi hlow hhigh)).within hlo hhi
    hlow hhigh

theorem Within.mul (hx : Within a b x) (hy : Within c d y) (ha : 0 ≤ a) (hc : 0 ≤ c)
    (hlo : IsBound lo) (hhi : IsBound hi) (hle : lo ≤ a * c) (hge : b * d ≤ hi) :
    Within lo hi (x * y) := by
  have hlow : lo ≤ value x * value y := hle.trans (mul_le_mul hx.le hy.le hc (ha.trans hx.le))
  have hhigh : value x * value y ≤ hi :=
    (mul_le_mul hx.ge hy.ge (hc.trans hy.le) (ha.trans (hx.le.trans hx.ge))).trans hge
  exact (nearest_mul hx.isFinite hy.isFinite (abs_le_of_bounds hlo hhi hlow hhigh)).within hlo hhi
    hlow hhigh

theorem Within.div (hx : Within a b x) (hy : Within c d y) (ha : 0 ≤ a) (hc : 0 < c)
    (hlo : IsBound lo) (hhi : IsBound hi) (hle : lo ≤ a / d) (hge : b / c ≤ hi) :
    Within lo hi (x / y) := by
  have hpos : 0 < value y := hc.trans_le hy.le
  have hlow : lo ≤ value x / value y := hle.trans (div_le_div₀ (ha.trans hx.le) hx.le hpos hy.ge)
  have hhigh : value x / value y ≤ hi :=
    (div_le_div₀ (ha.trans (hx.le.trans hx.ge)) hx.ge hc hy.le).trans hge
  exact (nearest_div hx.isFinite hy.isFinite hpos.ne'
    (abs_le_of_bounds hlo hhi hlow hhigh)).within hlo hhi hlow hhigh

/-- A sum with a number that is not negative is not smaller. -/
theorem Within.le_add_left (hx : Within a b x) (hy : Within c d y) (hc : 0 ≤ c) (hlo : IsBound lo)
    (hhi : IsBound hi) (hle : lo ≤ a + c) (hge : b + d ≤ hi) : value x ≤ value (x + y) := by
  have hlow : lo ≤ value x + value y := by linarith [hx.le, hy.le]
  have hhigh : value x + value y ≤ hi := by linarith [hx.ge, hy.ge]
  exact (nearest_add hx.isFinite hy.isFinite (abs_le_of_bounds hlo hhi hlow hhigh)).le_value
    (onGrid_value x) (by linarith [hy.le])

theorem Within.le_add_right (hx : Within a b x) (hy : Within c d y) (ha : 0 ≤ a) (hlo : IsBound lo)
    (hhi : IsBound hi) (hle : lo ≤ a + c) (hge : b + d ≤ hi) : value y ≤ value (x + y) := by
  have hlow : lo ≤ value x + value y := by linarith [hx.le, hy.le]
  have hhigh : value x + value y ≤ hi := by linarith [hx.ge, hy.ge]
  exact (nearest_add hx.isFinite hy.isFinite (abs_le_of_bounds hlo hhi hlow hhigh)).le_value
    (onGrid_value y) (by linarith [hx.le])

theorem larger_eq (hx : x.isFinite = true) (hy : y.isFinite = true) :
    (larger x y = x ∨ larger x y = y) ∧ value (larger x y) = max (value x) (value y) := by
  unfold larger
  rw [isNaN_of_isFinite hx]
  by_cases hle : x ≤ y
  · rw [if_pos (by simp [hle])]
    exact ⟨.inr rfl, (max_eq_right ((le_iff hx hy).1 hle)).symm⟩
  · rw [if_neg (by simp [hle])]
    rw [le_iff hx hy, not_le] at hle
    exact ⟨.inl rfl, (max_eq_left hle.le).symm⟩

theorem smaller_eq (hx : x.isFinite = true) (hy : y.isFinite = true) :
    (smaller x y = x ∨ smaller x y = y) ∧ value (smaller x y) = min (value x) (value y) := by
  unfold smaller
  rw [isNaN_of_isFinite hx]
  by_cases hle : y ≤ x
  · rw [if_pos (by simp [hle])]
    exact ⟨.inr rfl, (min_eq_right ((le_iff hy hx).1 hle)).symm⟩
  · rw [if_neg (by simp [hle])]
    rw [le_iff hy hx, not_le] at hle
    exact ⟨.inl rfl, (min_eq_left hle.le).symm⟩

theorem isFinite_larger (hx : x.isFinite = true) (hy : y.isFinite = true) :
    (larger x y).isFinite = true := by
  rcases (larger_eq hx hy).1 with h | h <;> rwa [h]

theorem isFinite_smaller (hx : x.isFinite = true) (hy : y.isFinite = true) :
    (smaller x y).isFinite = true := by
  rcases (smaller_eq hx hy).1 with h | h <;> rwa [h]

theorem Within.larger (hx : Within a b x) (hy : Within c d y) :
    Within (max a c) (max b d) (larger x y) := by
  refine ⟨isFinite_larger hx.isFinite hy.isFinite, ?_, ?_⟩ <;>
    rw [(larger_eq hx.isFinite hy.isFinite).2]
  · exact max_le_max hx.le hy.le
  · exact max_le_max hx.ge hy.ge

theorem Within.smaller (hx : Within a b x) (hy : Within c d y) :
    Within (min a c) (min b d) (smaller x y) := by
  refine ⟨isFinite_smaller hx.isFinite hy.isFinite, ?_, ?_⟩ <;>
    rw [(smaller_eq hx.isFinite hy.isFinite).2]
  · exact min_le_min hx.le hy.le
  · exact min_le_min hx.ge hy.ge

theorem is_toFloat32 {n : ℕ} (h : n < 2 ^ 23) : Is n n.toUInt64.toFloat32 := by
  have htoNat : n.toUInt64.toNat = n := by
    rw [Nat.toUInt64_eq, UInt64.toNat_ofNat']
    omega
  have hbound := isBound_natCast (h.le.trans (by norm_num : 2 ^ 23 ≤ 2 ^ 24))
  have hnearest := nearest_normalize (n := n) (e := 0) (by simpa using hbound.abs_le)
  rw [zpow_zero, mul_one, Int.cast_natCast] at hnearest
  have hcount : n.toUInt64.toFloat32 =
      .ofModel (.pack (UnpackedFloat.normalize Format.binary32 n 0 .positive)) := by
    change Float32.ofModel (.pack (UnpackedFloat.normalize Format.binary32
      (n.toUInt64.toNat : ℤ) 0 .positive)) = _
    rw [htoNat]
  rw [hcount]
  exact hnearest.is hbound.onGrid

theorem is_of_unpack {m : ℕ} {e : ℤ} {hm : 0 < m} (h : x.toModel.unpack = .finite .positive m e hm) :
    Is (m * 2 ^ e) x := by
  refine ⟨?_, ?_⟩
  · change x.toModel.unpack.isFinite = true
    rw [h]
    rfl
  · rw [value, h, amount_finite]
    rfl

theorem is_of_unpack_zero {s : Sign} (h : x.toModel.unpack = .zero s) : Is 0 x := by
  refine ⟨?_, ?_⟩
  · change x.toModel.unpack.isFinite = true
    rw [h]
    rfl
  · rw [value, h, amount_zero]

theorem abs_value_le (hx : x.isFinite = true) : |value x| ≤ 2 ^ 128 := by
  obtain ⟨s, hs⟩ | ⟨s, m, e, hm, hs⟩ := (proper_unpack hx).zero_or_finite
  · rw [(is_of_unpack_zero hs).value_eq, abs_zero]
    positivity
  · have hparts := proper_unpack hx
    rw [hs] at hparts
    have hmantissa : (m : ℝ) ≤ 2 ^ 24 := mod_cast hparts.canonical.1.le
    have hexponent : (2 : ℝ) ^ e ≤ 2 ^ (104 : ℤ) :=
      zpow_le_zpow_right₀ (by norm_num) (fits_finite_iff.1 hparts.fits)
    rw [value, hs, amount_finite, abs_signed, abs_of_pos (by positivity)]
    calc (m : ℝ) * 2 ^ e ≤ 2 ^ 24 * 2 ^ (104 : ℤ) :=
          mul_le_mul hmantissa hexponent (by positivity) (by positivity)
      _ = 2 ^ 128 := by norm_num

/-- A decimal number with one digit behind the point. -/
theorem is_ofScientific {m : ℕ} (hm : m < 2 ^ 23) (hr : IsBound r) (hmr : (m : ℝ) = 10 * r) :
    Is r (OfScientific.ofScientific m true 1) := by
  have hten : Is 10 Float32.exactlyRepresentablePowersOfTen[1] := by
    have hparts : Float32.exactlyRepresentablePowersOfTen[1].toModel.unpack =
        .finite .positive (5 * 2 ^ 21) (-20) (by norm_num) := rfl
    have hamount : ((5 * 2 ^ 21 : ℕ) : ℝ) * 2 ^ (-20 : ℤ) = 10 := by norm_num
    exact hamount ▸ is_of_unpack hparts
  have hcount := is_toFloat32 hm
  have hquotient :
      value m.toUInt64.toFloat32 / value Float32.exactlyRepresentablePowersOfTen[1] = r := by
    rw [hcount.value_eq, hten.value_eq, hmr]
    ring
  have hnearest := nearest_div hcount.isFinite hten.isFinite (by rw [hten.value_eq]; norm_num)
    (by rw [hquotient]; exact hr.abs_le)
  have hliteral : (OfScientific.ofScientific m true 1 : Float32) =
      m.toUInt64.toFloat32 / Float32.exactlyRepresentablePowersOfTen[1] :=
    dif_pos ⟨hm, by norm_num⟩
  rw [hliteral]
  rw [hquotient] at hnearest
  exact hnearest.is hr.onGrid

theorem is_literal (k : ℕ) [k.AtLeastTwo] (h : 10 * k < 2 ^ 23) :
    Is (OfNat.ofNat k) (OfScientific.ofScientific (10 * k) true 1) := by
  refine is_ofScientific h (isBound_ofNat k (by omega)) ?_
  push_cast
  rfl

theorem is_zero : Is 0 (0.0 : Float32) := is_ofScientific (by norm_num) isBound_zero (by norm_num)

theorem is_one : Is 1 (1.0 : Float32) := is_ofScientific (by norm_num) isBound_one (by norm_num)

theorem is_two : Is 2 (2.0 : Float32) := is_literal 2 (by norm_num)

theorem nearest_half (hx : x.isFinite = true) : Nearest (value x / 2) (x / 2.0) := by
  have hbound : |value x / 2| ≤ 2 ^ 127 := by
    rw [abs_div, abs_of_pos (by norm_num : (0 : ℝ) < 2), div_le_iff₀ (by norm_num)]
    exact (abs_value_le hx).trans (by norm_num)
  have hnearest := nearest_div hx is_two.isFinite (by rw [is_two.value_eq]; norm_num)
    (by rwa [is_two.value_eq])
  rwa [is_two.value_eq] at hnearest

theorem Within.half (hx : Within a b x) (hlo : IsBound lo) (hhi : IsBound hi) (hle : lo ≤ a / 2)
    (hge : b / 2 ≤ hi) : Within lo hi (x / 2.0) :=
  (nearest_half hx.isFinite).within hlo hhi (by linarith [hx.le]) (by linarith [hx.ge])

theorem isBound_three_halves : IsBound (3 / 2) := by
  refine ⟨⟨3, -1, by norm_num, by norm_num, by norm_num⟩, ?_⟩
  rw [abs_of_nonneg (by norm_num)]
  norm_num

/-- Counting goes to a nearest single. -/
theorem nearest_ofCount {n : ℕ} (h : (n : ℝ) ≤ 2 ^ 127) : Nearest n (ofCount n) := by
  -- below 2^23 the count is converted and multiplied by one, else rounded as a decimal is
  by_cases hsmall : n < 2 ^ 23
  · have hone : Is 1 Float32.exactlyRepresentablePowersOfTen[0] := by
      have hparts : Float32.exactlyRepresentablePowersOfTen[0].toModel.unpack =
          .finite .positive (2 ^ 23) (-23) (by norm_num) := rfl
      have hamount : ((2 ^ 23 : ℕ) : ℝ) * 2 ^ (-23 : ℤ) = 1 := by norm_num
      exact hamount ▸ is_of_unpack hparts
    have hcount := is_toFloat32 hsmall
    have hproduct :
        value n.toUInt64.toFloat32 * value Float32.exactlyRepresentablePowersOfTen[0] = n := by
      rw [hcount.value_eq, hone.value_eq, mul_one]
    have hnearest := nearest_mul hcount.isFinite hone.isFinite
      (by rwa [hproduct, abs_of_nonneg (Nat.cast_nonneg n)])
    rw [hproduct] at hnearest
    have hofCount : ofCount n =
        n.toUInt64.toFloat32 * Float32.exactlyRepresentablePowersOfTen[0] :=
      dif_pos ⟨hsmall, by norm_num⟩
    rwa [hofCount]
  · have hpos : 0 < n := by omega
    have hofCount : ofCount n = .ofModel (.pack (UnpackedFloat.roundWithAccuracy Format.binary32
        .positive (n <<< 24 * 1) (-24 + 0) .exact)) := by
      have hlarge : ofCount n =
          .ofModel (.pack (UnpackedFloat.ofScientific Format.binary32 n (Int.ofNat 0))) :=
        dif_neg fun h => hsmall h.1
      rw [hlarge]
      unfold UnpackedFloat.ofScientific
      rw [dif_neg hpos.ne', if_neg (by decide), if_neg (by simp), if_pos (by decide)]
      rfl
    have hlog : (n <<< 24 * 1).log2 = n.log2 + 24 := by
      rw [Nat.mul_one, log2_shiftLeft 24 hpos]
    have htarget : (-24 + 0 : ℤ) ≤ target (n <<< 24 * 1) (-24 + 0) := by
      rw [target_eq, hlog]
      push_cast
      omega
    have hnumber : ((n <<< 24 * 1 : ℕ) : ℝ) * 2 ^ (-24 + 0 : ℤ) = n := by
      rw [Nat.mul_one, Nat.shiftLeft_eq]
      push_cast
      norm_num
      ring
    have hresult := nearest_or_infinity_of_describes (describes_exact (n <<< 24 * 1)) htarget hofCount
    rw [hnumber] at hresult
    rcases hresult with hnearest | ⟨hover, -⟩
    · exact hnearest
    · exact absurd hover h.not_gt

theorem within_ofCount {n k : ℕ} (h : n ≤ 2 ^ k) (hk : k ≤ 127) : Within 0 (2 ^ k) (ofCount n) := by
  have hreal : (n : ℝ) ≤ 2 ^ k := mod_cast h
  have hpower := (isBound_two_pow hk).abs_le
  rw [abs_of_pos (by positivity)] at hpower
  exact (nearest_ofCount (hreal.trans hpower)).within isBound_zero (isBound_two_pow hk)
    (Nat.cast_nonneg n) hreal

/-- The largest of some singles is between bounds for all, and below none. -/
theorem Within.foldl_larger {xs : List Float32} (hx : Within lo hi x)
    (hxs : ∀ y ∈ xs, Within lo hi y) :
    Within lo hi (xs.foldl Single.larger x) ∧ value x ≤ value (xs.foldl Single.larger x) ∧
      ∀ y ∈ xs, value y ≤ value (xs.foldl Single.larger x) := by
  induction xs generalizing x with
  | nil => exact ⟨hx, le_rfl, fun y hy => absurd hy (List.not_mem_nil)⟩
  | cons y ys ih =>
    have hy := hxs y List.mem_cons_self
    have hlarger : Within lo hi (Single.larger x y) := by
      simpa only [max_self] using hx.larger hy
    have hmax := (larger_eq hx.isFinite hy.isFinite).2
    obtain ⟨hwithin, hfirst, hrest⟩ := ih hlarger fun z hz => hxs z (List.mem_cons_of_mem y hz)
    rw [hmax] at hfirst
    refine ⟨hwithin, (le_max_left _ _).trans hfirst, ?_⟩
    intro z hz
    rcases List.mem_cons.1 hz with rfl | hz
    · exact (le_max_right _ _).trans hfirst
    · exact hrest z hz

end Flowchart.Single
