import Mathlib
import Flowchart.Single

namespace Flowchart.Single

open Float.Model (Format UnpackedFloat)
open Float.Model.UnpackedFloat (Sign)

noncomputable def amount : UnpackedFloat → ℝ
  | .finite s m e _ => (s.apply m : ℤ) * 2 ^ e
  | _ => 0

noncomputable def value (x : Float32) : ℝ := amount x.toModel.unpack

def Canonical : UnpackedFloat → Prop
  | .finite _ m e _ => m < 2 ^ 24 ∧ -149 ≤ e ∧ (e = -149 ∨ 2 ^ 23 ≤ m)
  | _ => True

def Fits : UnpackedFloat → Prop
  | .finite _ _ e _ => e ≤ 104
  | _ => True

theorem fits_finite_iff {s : Sign} {m : ℕ} {e : ℤ} {hm : 0 < m} :
    Fits (.finite s m e hm) ↔ e ≤ 104 := Iff.rfl

theorem toNat_one_append {n : Nat} (b : BitVec n) : (1#1 ++ b).toNat = 2 ^ n + b.toNat := by
  have hor := Nat.two_pow_add_eq_or_of_lt b.isLt 1
  rw [Nat.mul_one] at hor
  rw [BitVec.toNat_append, Nat.shiftLeft_eq, hor]
  simp

theorem canonical_unpack (b : BitVec 32) : Canonical (UnpackedFloat.unpack Format.binary32 b) := by
  unfold UnpackedFloat.unpack
  extract_lets mantissa exponent e signs sign
  have hmantissa : mantissa.toNat < 2 ^ 23 := mantissa.isLt
  have he : e = (exponent.toNat : ℤ) - 150 := rfl
  split_ifs with hones hnone hzero hnil
  · trivial
  · trivial
  · trivial
  · have hexponent : exponent.toNat = 0 := by
      rw [hzero]
      rfl
    refine ⟨?_, ?_, .inl ?_⟩ <;> omega
  · -- the implicit bit is the 24th
    have hpos : exponent.toNat ≠ 0 := fun h => hzero (BitVec.eq_of_toNat_eq h)
    have hm : (1#1 ++ mantissa).toNat = 2 ^ 23 + mantissa.toNat := toNat_one_append mantissa
    change (1#1 ++ mantissa).toNat < 2 ^ 24 ∧ -149 ≤ e ∧ (e = -149 ∨ 2 ^ 23 ≤ (1#1 ++ mantissa).toNat)
    rw [hm]
    refine ⟨?_, ?_, .inr ?_⟩ <;> omega

theorem fits_unpack (b : BitVec 32) : Fits (UnpackedFloat.unpack Format.binary32 b) := by
  unfold UnpackedFloat.unpack
  extract_lets mantissa exponent e signs sign
  have hlt : exponent.toNat < 2 ^ 8 := exponent.isLt
  have he : e = (exponent.toNat : ℤ) - 150 := rfl
  split_ifs with hones hnone hzero hnil
  · trivial
  · trivial
  · trivial
  · have hexponent : exponent.toNat = 0 := by
      rw [hzero]
      rfl
    change e + 1 ≤ 104
    omega
  · have hne : exponent.toNat ≠ 255 := fun h => hones (BitVec.eq_of_toNat_eq h)
    change e ≤ 104
    omega

/-- What is packed with an exponent that is neither none nor all ones has the implicit bit. -/
theorem unpack_packComponents_normal (s : Sign) (exponent : BitVec 8) {m : ℕ}
    (hzero : exponent.toNat ≠ 0) (hones : exponent.toNat ≠ 255) (hlow : 2 ^ 23 ≤ m)
    (hhigh : m < 2 ^ 24) :
    UnpackedFloat.unpack Format.binary32
        (UnpackedFloat.packComponents Format.binary32 s exponent (BitVec.ofNat 23 m)) =
      .finite s m (exponent.toNat - 150) (by omega) := by
  have hones : exponent ≠ -1#8 := fun h => hones (congrArg BitVec.toNat h)
  have hzero : exponent ≠ 0#8 := fun h => hzero (congrArg BitVec.toNat h)
  have hm : (1#1 ++ BitVec.ofNat 23 m).toNat = m := by
    rw [toNat_one_append, BitVec.toNat_ofNat]
    omega
  unfold UnpackedFloat.unpack
  simp only [UnpackedFloat.unpackExponent_packComponents,
    UnpackedFloat.unpackMantissa_packComponents, UnpackedFloat.unpackSign_packComponents,
    UnpackedFloat.Sign.ofBitVec_toBitVec]
  rw [if_neg hones, if_neg hzero]
  simp only [hm]
  rfl

theorem unpack_packComponents_subnormal (s : Sign) {m : ℕ} (hm : 0 < m) (hhigh : m < 2 ^ 23) :
    UnpackedFloat.unpack Format.binary32
        (UnpackedFloat.packComponents Format.binary32 s 0#8 (BitVec.ofNat 23 m)) =
      .finite s m (-149) hm := by
  have htoNat : (BitVec.ofNat 23 m).toNat = m := by
    rw [BitVec.toNat_ofNat]
    omega
  have hne : BitVec.ofNat 23 m ≠ 0#23 := by
    intro h
    have hzero := congrArg BitVec.toNat h
    rw [htoNat] at hzero
    exact hm.ne' hzero
  unfold UnpackedFloat.unpack
  simp only [UnpackedFloat.unpackExponent_packComponents,
    UnpackedFloat.unpackMantissa_packComponents, UnpackedFloat.unpackSign_packComponents,
    UnpackedFloat.Sign.ofBitVec_toBitVec]
  rw [if_neg (by decide), if_pos trivial, dif_neg hne]
  simp only [htoNat]
  rfl

theorem unpack_pack {u : UnpackedFloat} (hcanonical : Canonical u) (hfits : Fits u) :
    UnpackedFloat.unpack Format.binary32 (UnpackedFloat.pack Format.binary32 u) = u := by
  cases u with
  | notANumber => exact UnpackedFloat.unpack_packedNaN
  | infinity s => cases s <;> rfl
  | zero s => cases s <;> rfl
  | finite s m e hm =>
    obtain ⟨hlt, hleast, hbits⟩ := hcanonical
    rw [fits_finite_iff] at hfits
    have hexponent : (BitVec.ofNat 8 (e + 127 + 23).toNat).toNat = (e + 150).toNat := by
      rw [BitVec.toNat_ofNat]
      omega
    change UnpackedFloat.unpack Format.binary32 (if 2 ^ 8 ≤ (e + 127 + 23).toNat + 1 then _ else
      if m.log2 + 1 = 24 then UnpackedFloat.packComponents Format.binary32 s (BitVec.ofNat 8 _) _
        else _) = _
    rw [if_neg (by omega)]
    by_cases hnormal : 2 ^ 23 ≤ m
    · have hlog : m.log2 = 23 := (Nat.log2_eq_iff hm.ne').2 ⟨hnormal, hlt⟩
      rw [if_pos (by rw [hlog])]
      have hpacked := unpack_packComponents_normal s (BitVec.ofNat 8 (e + 127 + 23).toNat)
        (by omega) (by omega) hnormal hlt
      refine hpacked.trans ?_
      congr 1
      omega
    · have hlog : m.log2 < 23 := (Nat.log2_lt hm.ne').2 (by omega)
      have hleast : e = -149 := by omega
      rw [if_neg (by omega), hleast]
      exact unpack_packComponents_subnormal s hm (by omega)

/-- A number too large for a single is packed as infinity. -/
theorem unpack_pack_of_lt {s : Sign} {m : ℕ} {e : ℤ} {hm : 0 < m} (h : 104 < e) :
    UnpackedFloat.unpack Format.binary32
      (UnpackedFloat.pack Format.binary32 (.finite s m e hm)) = .infinity s := by
  have hlarge : UnpackedFloat.pack Format.binary32 (.finite s m e hm) =
      UnpackedFloat.packedInfinity Format.binary32 s := by
    apply if_pos
    change 2 ^ 8 ≤ (e + 127 + 23).toNat + 1
    omega
  rw [hlarge]
  cases s <;> rfl

theorem amount_positive (m : ℕ) (e : ℤ) (hm : 0 < m) :
    amount (.finite .positive m e hm) = m * 2 ^ e := by
  simp [amount, Sign.apply]

theorem amount_negative (m : ℕ) (e : ℤ) (hm : 0 < m) :
    amount (.finite .negative m e hm) = -(m * 2 ^ e) := by
  simp [amount, Sign.apply]

/-- A number with a greater exponent is greater, for its mantissa has all its bits. -/
theorem mul_zpow_lt_mul_zpow {m n : ℕ} {d e : ℤ} (hm : m < 2 ^ 24) (hn : 2 ^ 23 ≤ n) (h : d < e) :
    (m : ℝ) * 2 ^ d < n * 2 ^ e := by
  have hmantissa : (m : ℝ) < 2 ^ 24 := mod_cast hm
  have hbits : (2 : ℝ) ^ 23 ≤ n := mod_cast hn
  have hexponent : (2 : ℝ) ^ (d + 1) ≤ 2 ^ e := zpow_le_zpow_right₀ (by norm_num) (by omega)
  calc (m : ℝ) * 2 ^ d < 2 ^ 24 * 2 ^ d := mul_lt_mul_of_pos_right hmantissa (by positivity)
    _ = 2 ^ 23 * 2 ^ (d + 1) := by
      rw [zpow_add₀ (by norm_num), zpow_one]
      ring
    _ ≤ n * 2 ^ e := mul_le_mul hbits hexponent (by positivity) (by positivity)

theorem compare_exponents_eq_cmp {m n : ℕ} {d e : ℤ} (hm : 0 < m) (hn : 0 < n)
    (hx : Canonical (.finite .positive m d hm)) (hy : Canonical (.finite .positive n e hn)) :
    (compare d e).then (compare m n) = cmp ((m : ℝ) * 2 ^ d) (n * 2 ^ e) := by
  obtain ⟨hmlt, hdleast, hdbits⟩ := hx
  obtain ⟨hnlt, heleast, hebits⟩ := hy
  rcases lt_trichotomy d e with hlt | rfl | hlt
  · have hless := mul_zpow_lt_mul_zpow hmlt (by omega : 2 ^ 23 ≤ n) hlt
    rw [compare_lt_iff_lt.2 hlt, (cmp_eq_lt_iff _ _).2 hless]
    rfl
  · have hpower : (0 : ℝ) < 2 ^ d := by positivity
    have hcast : cmp (m : ℝ) n = cmp m n := StrictMono.cmp_map_eq Nat.strictMono_cast m n
    rw [compare_eq_iff_eq.2 rfl, cmp_mul_pos_right hpower, hcast, cmp_eq_compare]
    rfl
  · have hless := mul_zpow_lt_mul_zpow hnlt (by omega : 2 ^ 23 ≤ m) hlt
    rw [compare_gt_iff_gt.2 hlt, (cmp_eq_gt_iff _ _).2 hless]
    rfl

/-- Finite numbers compare as real numbers do. -/
theorem compare_eq_cmp {u v : UnpackedFloat} (hu : Canonical u) (hv : Canonical v)
    (hufinite : u.isFinite = true) (hvfinite : v.isFinite = true) :
    u.compare v = some (cmp (amount u) (amount v)) := by
  have hpos {m : ℕ} (e : ℤ) (hm : 0 < m) : 0 < amount (.finite .positive m e hm) := by
    rw [amount_positive]
    positivity
  have hneg {m : ℕ} (e : ℤ) (hm : 0 < m) : amount (.finite .negative m e hm) < 0 := by
    rw [amount_negative, neg_lt_zero]
    positivity
  cases u with
  | notANumber => exact absurd hufinite (by decide)
  | infinity s => exact absurd hufinite (Bool.false_ne_true)
  | zero s =>
    cases v with
    | notANumber => exact absurd hvfinite (by decide)
    | infinity t => exact absurd hvfinite (Bool.false_ne_true)
    | zero t => exact congrArg some (cmp_self_eq_eq 0).symm
    | finite t n e hn =>
      cases t with
      | positive => exact congrArg some ((cmp_eq_lt_iff _ _).2 (hpos e hn)).symm
      | negative => exact congrArg some ((cmp_eq_gt_iff _ _).2 (hneg e hn)).symm
  | finite s m d hm =>
    cases v with
    | notANumber => exact absurd hvfinite (by decide)
    | infinity t => exact absurd hvfinite (Bool.false_ne_true)
    | zero t =>
      cases s with
      | positive => exact congrArg some ((cmp_eq_gt_iff _ _).2 (hpos d hm)).symm
      | negative => exact congrArg some ((cmp_eq_lt_iff _ _).2 (hneg d hm)).symm
    | finite t n e hn =>
      have hcmp := compare_exponents_eq_cmp hm hn hu hv
      cases s with
      | positive =>
        cases t with
        | positive =>
          rw [amount_positive, amount_positive]
          exact congrArg some hcmp
        | negative => exact congrArg some ((cmp_eq_gt_iff _ _).2 ((hneg e hn).trans (hpos d hm))).symm
      | negative =>
        cases t with
        | positive => exact congrArg some ((cmp_eq_lt_iff _ _).2 ((hneg d hm).trans (hpos e hn))).symm
        | negative =>
          have hanti : StrictAnti fun r : ℝ => -r := fun _ _ h => neg_lt_neg h
          rw [amount_negative, amount_negative, hanti.cmp_map_eq, ← cmp_swap, ← hcmp]
          rfl

variable {x y : Float32}

theorem compare_unpack (hx : x.isFinite = true) (hy : y.isFinite = true) :
    x.toModel.unpack.compare y.toModel.unpack = some (cmp (value x) (value y)) :=
  compare_eq_cmp (canonical_unpack _) (canonical_unpack _) hx hy

theorem le_iff (hx : x.isFinite = true) (hy : y.isFinite = true) : x ≤ y ↔ value x ≤ value y := by
  have hmodel : x ≤ y ↔ x.toModel.unpack.le y.toModel.unpack = true := decide_eq_true_iff
  rw [hmodel, UnpackedFloat.le, compare_unpack hx hy, Option.any_some, ← not_lt, ← cmp_eq_gt_iff]
  cases cmp (value x) (value y) <;> decide

theorem lt_iff (hx : x.isFinite = true) (hy : y.isFinite = true) : x < y ↔ value x < value y := by
  have hmodel : x < y ↔ x.toModel.unpack.lt y.toModel.unpack = true := decide_eq_true_iff
  rw [hmodel, UnpackedFloat.lt, compare_unpack hx hy, beq_iff_eq, Option.some_inj]
  exact cmp_eq_lt_iff _ _

theorem isNaN_of_isFinite (hx : x.isFinite = true) : x.isNaN = false := by
  change x.toModel.unpack.isNaN = false
  change x.toModel.unpack.isFinite = true at hx
  cases h : x.toModel.unpack with
  | notANumber =>
    rw [h] at hx
    exact absurd hx (by decide)
  | infinity | zero | finite => rfl

/-- A whole number of at most 24 bits in units of a power of two that is not too small. Numbers too
large for a single are among these. -/
def OnGrid (r : ℝ) : Prop := ∃ n e : ℤ, |n| ≤ 2 ^ 24 ∧ -149 ≤ e ∧ r = n * 2 ^ e

theorem onGrid_amount {u : UnpackedFloat} (h : Canonical u) : OnGrid (amount u) := by
  cases u with
  | notANumber | infinity | zero => exact ⟨0, 0, by norm_num, by norm_num, by simp [amount]⟩
  | finite s m e hm =>
    obtain ⟨hlt, hleast, -⟩ := h
    refine ⟨s.apply m, e, ?_, hleast, rfl⟩
    have habs : |s.apply (m : ℤ)| = m := by
      cases s <;> simp [Sign.apply]
    rw [habs]
    omega

theorem onGrid_value (x : Float32) : OnGrid (value x) :=
  onGrid_amount (canonical_unpack x.toModel.toBits.toBitVec)

theorem onGrid_intCast {n : ℤ} (h : |n| ≤ 2 ^ 24) : OnGrid n :=
  ⟨n, 0, h, by norm_num, by simp⟩

theorem onGrid_zero : OnGrid 0 := ⟨0, 0, by norm_num, by norm_num, by norm_num⟩

theorem OnGrid.neg {r : ℝ} (h : OnGrid r) : OnGrid (-r) := by
  obtain ⟨n, e, hn, he, rfl⟩ := h
  refine ⟨-n, e, by rwa [abs_neg], he, ?_⟩
  push_cast
  ring

theorem OnGrid.abs {r : ℝ} (h : OnGrid r) : OnGrid |r| := by
  rcases abs_choice r with hr | hr
  · rwa [hr]
  · rw [hr]
    exact h.neg

theorem onGrid_two_zpow {k : ℤ} (h : -149 ≤ k) : OnGrid (2 ^ k) :=
  ⟨1, k, by norm_num, h, by norm_num⟩

theorem onGrid_two_pow (k : ℕ) : OnGrid (2 ^ k) := by
  rw [← zpow_natCast]
  exact onGrid_two_zpow (by omega)

theorem onGrid_one : OnGrid 1 := by simpa using onGrid_two_pow 0

/-- No number that a single can have is nearer. -/
def IsNearest (v r : ℝ) : Prop := ∀ a, OnGrid a → |v - r| ≤ |a - r|

/-- A number that a single with an even mantissa can have: it needs one bit less. -/
def OnEvenGrid (r : ℝ) : Prop := ∃ n e : ℤ, |n| ≤ 2 ^ 23 ∧ -148 ≤ e ∧ r = n * 2 ^ e

/-- Where another number is as near, the one that is taken has the even mantissa. -/
def TiesToEven (v r : ℝ) : Prop := ∀ a, OnGrid a → |a - r| = |v - r| → a = v ∨ OnEvenGrid v

/-- A single is finite, and what a number is rounded to. -/
structure Nearest (r : ℝ) (x : Float32) : Prop where
  isFinite : x.isFinite = true
  isNearest : IsNearest (value x) r
  tiesToEven : TiesToEven (value x) r

/-- A nearest single to the square of a number, or infinity for a square that is too large. -/
def Squares (d q : Float32) : Prop :=
  Nearest (value d ^ 2) q ∨ (2 : ℝ) ^ 127 < value d ^ 2 ∧ q.toModel.unpack = .infinity .positive

theorem IsNearest.refl (r : ℝ) : IsNearest r r := by
  intro a _
  rw [sub_self, abs_zero]
  exact abs_nonneg _

theorem TiesToEven.refl (r : ℝ) : TiesToEven r r := by
  intro a _ htie
  rw [sub_self, abs_zero, abs_eq_zero, sub_eq_zero] at htie
  exact .inl htie

theorem Nearest.of_value_eq {r : ℝ} (h : Nearest r x) (hy : y.isFinite = true)
    (hvalue : value y = value x) : Nearest r y :=
  ⟨hy, hvalue ▸ h.isNearest, hvalue ▸ h.tiesToEven⟩

structure Proper (u : UnpackedFloat) : Prop where
  canonical : Canonical u
  fits : Fits u
  isFinite : u.isFinite = true

theorem proper_unpack {x : Float32} (hx : x.isFinite = true) : Proper x.toModel.unpack where
  canonical := canonical_unpack x.toModel.toBits.toBitVec
  fits := fits_unpack x.toModel.toBits.toBitVec
  isFinite := hx

/-- What is packed without loss is a nearest single to its own number. -/
theorem Proper.nearest {u : UnpackedFloat} (h : Proper u) :
    Nearest (amount u) (.ofModel (.pack u)) := by
  have hunpack : (Float32.ofModel (.pack u)).toModel.unpack = u := unpack_pack h.canonical h.fits
  have hvalue : value (.ofModel (.pack u)) = amount u := by rw [value, hunpack]
  refine ⟨?_, hvalue ▸ IsNearest.refl _, hvalue ▸ TiesToEven.refl _⟩
  change (Float32.ofModel (.pack u)).toModel.unpack.isFinite = true
  rw [hunpack, h.isFinite]

theorem Proper.zero_or_finite {u : UnpackedFloat} (h : Proper u) :
    (∃ s, u = .zero s) ∨ ∃ s m e hm, u = .finite s m e hm := by
  have hfinite := h.isFinite
  cases u with
  | notANumber => exact absurd hfinite (by decide)
  | infinity s => exact absurd hfinite Bool.false_ne_true
  | zero s => exact .inl ⟨s, rfl⟩
  | finite s m e hm => exact .inr ⟨s, m, e, hm, rfl⟩

theorem amount_zero (s : Sign) : amount (.zero s) = 0 := rfl

theorem proper_zero (s : Sign) : Proper (.zero s) := ⟨trivial, trivial, rfl⟩

def signed : Sign → ℝ → ℝ
  | .negative, r => -r
  | .positive, r => r

theorem cast_apply (s : Sign) (n : ℕ) : ((s.apply n : ℤ) : ℝ) = signed s n := by
  cases s <;> simp [Sign.apply, signed]

theorem signed_mul (s : Sign) (r t : ℝ) : signed s (r * t) = signed s r * t := by
  cases s <;> simp [signed]

theorem signed_neg (s : Sign) (r : ℝ) : signed (-s) r = -signed s r := by
  cases s with
  | negative => exact (neg_neg r).symm
  | positive => rfl

theorem amount_finite (s : Sign) (m : ℕ) (e : ℤ) (hm : 0 < m) :
    amount (.finite s m e hm) = signed s (m * 2 ^ e) := by
  rw [signed_mul, ← cast_apply]
  rfl

theorem IsNearest.signed {v r : ℝ} (h : IsNearest v r) (s : Sign) :
    IsNearest (signed s v) (signed s r) := by
  cases s with
  | positive => exact h
  | negative =>
    intro a ha
    have hneg := h (-a) ha.neg
    change |-v - -r| ≤ |a - -r|
    rw [← abs_neg (-v - -r), ← abs_neg (a - -r)]
    have hleft : -(-v - -r) = v - r := by ring
    have hright : -(a - -r) = -a - r := by ring
    rwa [hleft, hright]

theorem OnEvenGrid.neg {r : ℝ} (h : OnEvenGrid r) : OnEvenGrid (-r) := by
  obtain ⟨n, e, hn, he, rfl⟩ := h
  refine ⟨-n, e, by rwa [abs_neg], he, ?_⟩
  push_cast
  ring

theorem TiesToEven.signed {v r : ℝ} (h : TiesToEven v r) (s : Sign) :
    TiesToEven (signed s v) (signed s r) := by
  cases s with
  | positive => exact h
  | negative =>
    intro a ha htie
    change |a - -r| = |-v - -r| at htie
    have hneg : |-a - r| = |v - r| := by
      rw [← abs_neg, ← abs_neg (v - r)]
      have hleft : -(-a - r) = a - -r := by ring
      have hright : -(v - r) = -v - -r := by ring
      rwa [hleft, hright]
    exact (h (-a) ha.neg hneg).imp (fun heq => neg_eq_iff_eq_neg.1 heq) OnEvenGrid.neg

end Flowchart.Single
