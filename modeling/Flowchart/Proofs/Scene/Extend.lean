import Flowchart.Proofs.Single.Spacing
import Flowchart.Scene.Route

namespace Flowchart

open Single

variable {a b c d z l least half m : Float32}

theorem is_epsilon : Is (2 ^ (-23 : ℤ)) epsilon := by
  have hparts : epsilon.toModel.unpack = .finite .positive (2 ^ 23) (-46) (by norm_num) := rfl
  have hamount : ((2 ^ 23 : ℕ) : ℝ) * 2 ^ (-46 : ℤ) = 2 ^ (-23 : ℤ) := by norm_num
  exact hamount ▸ is_of_unpack hparts

/-- A length along one axis is the distance, or so large that no more is asked for. -/
structure IsLength (d l : Float32) : Prop where
  distance : l.isFinite = true → 2 ^ (-23 : ℤ) < value l → value l = |value d|
  infinity : l.isFinite = false → 2 ^ 63 < |value d| ∧ l.toModel.unpack = .infinity .positive

theorem isLength_of_squares {q : Float32} (hd : d.isFinite = true) (h : Squares d q) :
    IsLength d q.sqrt := by
  rcases root_of_squares hd h with ⟨hfinite, hvalue⟩ | ⟨hlarge, hinfinity⟩
  · exact ⟨fun _ => hvalue, fun hnot => absurd (hfinite.symm.trans hnot) (by decide)⟩
  · refine ⟨fun hfinite => ?_, fun _ => ⟨hlarge, hinfinity⟩⟩
    change q.sqrt.toModel.unpack.isFinite = true at hfinite
    rw [hinfinity] at hfinite
    exact absurd hfinite Bool.false_ne_true

/-- The same number twice has no distance. -/
theorem is_sub_self (hc : c.isFinite = true) : Is 0 (c - c) := by
  have hnearest := nearest_sub hc hc (by rw [sub_self, abs_zero]; positivity)
  rw [sub_self] at hnearest
  exact hnearest.is onGrid_zero

theorem is_mul_self_zero (hz : Is 0 z) : Is 0 (z * z) := by
  have hzero : value z * value z = 0 := by rw [hz.value_eq, mul_zero]
  have hnearest := nearest_mul hz.isFinite hz.isFinite (by rw [hzero, abs_zero]; positivity)
  rw [hzero] at hnearest
  exact hnearest.is onGrid_zero

theorem isLength_level (hd : (b - a).isFinite = true) (hc : c.isFinite = true) :
    IsLength (b - a) (Segment.length ⟨⟨a, c⟩, ⟨b, c⟩⟩) :=
  isLength_of_squares hd
    (squares_add_zero (squares_mul_self hd) (is_mul_self_zero (is_sub_self hc))).1

theorem isLength_upright (hd : (b - a).isFinite = true) (hc : c.isFinite = true) :
    IsLength (b - a) (Segment.length ⟨⟨c, a⟩, ⟨c, b⟩⟩) :=
  isLength_of_squares hd
    (squares_add_zero (squares_mul_self hd) (is_mul_self_zero (is_sub_self hc))).2

/-- A distance divided by its length is a direction. -/
theorem is_direction (hd : d.isFinite = true) (hl : l.isFinite = true) (hpos : 0 < value l)
    (h : value l = |value d|) : Is 1 (d / l) ∨ Is (-1) (d / l) := by
  have hquotient : value d / value l = 1 ∨ value d / value l = -1 := by
    rcases abs_choice (value d) with habs | habs
    · rw [habs] at h
      exact .inl ((div_eq_one_iff_eq hpos.ne').2 h.symm)
    · rw [habs] at h
      right
      rw [div_eq_iff hpos.ne', h]
      ring
  rcases hquotient with hone | hone
  · have hnearest := nearest_div hd hl hpos.ne' (by rw [hone]; norm_num)
    rw [hone] at hnearest
    exact .inl (hnearest.is onGrid_one)
  · have hnearest := nearest_div hd hl hpos.ne' (by rw [hone]; norm_num)
    rw [hone] at hnearest
    exact .inr (hnearest.is onGrid_one.neg)

/-- Across an axis there is no direction. -/
theorem is_noDirection (hz : Is 0 z) (hl : l.isFinite = true) (hpos : 0 < value l) :
    Is 0 (z / l) := by
  have hquotient : value z / value l = 0 := by rw [hz.value_eq, zero_div]
  have hnearest := nearest_div hz.isFinite hl hpos.ne' (by rw [hquotient, abs_zero]; positivity)
  rw [hquotient] at hnearest
  exact hnearest.is onGrid_zero

/-- A direction times a length, where it is exact. -/
theorem is_step {r : ℝ} (hd : Is r d) (hr : |r| ≤ 1) (hhalf : Within 4 (2 ^ 30) half)
    (hgrid : OnGrid (r * value half)) : Is (r * value half) (d * half) := by
  have hhalfabs : |value half| ≤ 2 ^ 127 := by
    rw [abs_of_nonneg (by linarith [hhalf.le])]
    exact hhalf.ge.trans (by norm_num)
  have hbound : |value d * value half| ≤ 2 ^ 127 := by
    rw [hd.value_eq, abs_mul]
    exact (mul_le_of_le_one_left (abs_nonneg _) hr).trans hhalfabs
  have hnearest := nearest_mul hd.isFinite hhalf.isFinite hbound
  rw [hd.value_eq] at hnearest
  exact hnearest.is hgrid

/-- A step to both sides of the middle. -/
theorem nearest_ends {r : ℝ} (hm : Within 24 (2 ^ 124) m) (hstep : Is r z) (hr : |r| ≤ 2 ^ 124) :
    Nearest (value m - r) (m - z) ∧ Nearest (value m + r) (m + z) := by
  obtain ⟨hlow, hhigh⟩ := abs_le.1 hr
  have hdouble : (2 : ℝ) ^ 124 + 2 ^ 124 ≤ 2 ^ 127 := by norm_num
  have hbefore := nearest_sub hm.isFinite hstep.isFinite (by
    rw [hstep.value_eq, abs_le]
    constructor <;> linarith [hm.le, hm.ge])
  have hbehind := nearest_add hm.isFinite hstep.isFinite (by
    rw [hstep.value_eq, abs_le]
    constructor <;> linarith [hm.le, hm.ge])
  rw [hstep.value_eq] at hbefore hbehind
  exact ⟨hbefore, hbehind⟩

/-- Along the axis, the ends are half of the length before and behind the middle, in this order or in
the other. -/
theorem ends_along (hm : Within 24 (2 ^ 124) m) (hhalf : Within 4 (2 ^ 30) half)
    (hdirection : Is 1 d ∨ Is (-1) d) :
    (Nearest (value m - value half) (m - d * half) ∧
        Nearest (value m + value half) (m + d * half)) ∨
      (Nearest (value m + value half) (m - d * half) ∧
        Nearest (value m - value half) (m + d * half)) := by
  have hhalfabs : |value half| ≤ 2 ^ 124 := by
    rw [abs_of_nonneg (by linarith [hhalf.le])]
    exact hhalf.ge.trans (by norm_num)
  have hgrid := onGrid_value half
  rcases hdirection with hone | hone
  · left
    have hstep := is_step hone (by norm_num) hhalf (by rwa [one_mul])
    rw [one_mul] at hstep
    exact nearest_ends hm hstep hhalfabs
  · right
    have hstep := is_step hone (by norm_num) hhalf (by rw [neg_one_mul]; exact hgrid.neg)
    rw [neg_one_mul] at hstep
    have hends := nearest_ends hm hstep (by rwa [abs_neg])
    rwa [sub_neg_eq_add, ← sub_eq_add_neg] at hends

structure EndsReach (half m p q : Float32) : Prop where
  start : Within (-2 ^ 31) (2 ^ 125) p
  finish : Within (-2 ^ 31) (2 ^ 125) q
  nonneg_iff : 0 ≤ value p ∧ 0 ≤ value q ↔ value half ≤ value m
  sum : value half ≤ value m → 2 * value half ≤ value p + value q

theorem endsReach_of_nearest {p q : Float32} (hm : Within 24 (2 ^ 124) m)
    (hhalf : Within 4 (2 ^ 30) half) (hp : Nearest (value m - value half) p)
    (hq : Nearest (value m + value half) q) : EndsReach half m p q := by
  have hlow : IsBound (-2 ^ 31) := (isBound_two_pow (by norm_num)).neg
  have hhigh : IsBound (2 ^ 125) := isBound_two_pow (by norm_num)
  have hm₁ := hm.le
  have hm₂ := hm.ge
  have hh₁ := hhalf.le
  have hh₂ := hhalf.ge
  have hq₀ : 0 ≤ value q := hq.le_value onGrid_zero (by linarith)
  refine ⟨hp.within hlow hhigh (by linarith) (by linarith),
    hq.within hlow hhigh (by linarith) (by linarith), ?_, ?_⟩
  · rw [hp.nonneg_iff (onGrid_value m) (onGrid_value half)]
    exact ⟨And.left, fun h => ⟨h, hq₀⟩⟩
  · intro hle
    have hp₀ := (hp.nonneg_iff (onGrid_value m) (onGrid_value half)).2 hle
    have hfar := hq.le_value (onGrid_value half).double (by linarith)
    linarith

theorem EndsReach.symm {p q : Float32} (h : EndsReach half m p q) : EndsReach half m q p where
  start := h.finish
  finish := h.start
  nonneg_iff := and_comm.trans h.nonneg_iff
  sum hle := by
    rw [add_comm]
    exact h.sum hle

theorem endsReach (hm : Within 24 (2 ^ 124) m) (hhalf : Within 4 (2 ^ 30) half)
    (hdirection : Is 1 d ∨ Is (-1) d) : EndsReach half m (m - d * half) (m + d * half) := by
  rcases ends_along hm hhalf hdirection with ⟨hp, hq⟩ | ⟨hp, hq⟩
  · exact endsReach_of_nearest hm hhalf hp hq
  · exact (endsReach_of_nearest hm hhalf hq hp).symm

/-- Across the axis, the ends are where the middle is. -/
theorem ends_across (hm : Within 24 (2 ^ 124) m) (hhalf : Within 4 (2 ^ 30) half) (hz : Is 0 z) :
    Is (value m) (m - z * half) ∧ Is (value m) (m + z * half) := by
  have hstep := is_step hz (by norm_num) hhalf (by rw [zero_mul]; exact onGrid_zero)
  rw [zero_mul] at hstep
  obtain ⟨hbefore, hbehind⟩ := nearest_ends hm hstep (by rw [abs_zero]; positivity)
  rw [sub_zero] at hbefore
  rw [add_zero] at hbehind
  exact ⟨hbefore.is (onGrid_value m), hbehind.is (onGrid_value m)⟩

namespace Direction

def across : Direction → Point → Float32
  | leftRight, p => p.y
  | topDown, p => p.x

def onward : Direction → Point → Float32
  | leftRight, p => p.x
  | topDown, p => p.y

def level : Direction → Float32 → Float32 → Float32 → Segment
  | leftRight, a, b, c => ⟨⟨c, a⟩, ⟨c, b⟩⟩
  | topDown, a, b, c => ⟨⟨a, c⟩, ⟨b, c⟩⟩

theorem middle_elbowRoute (d : Direction) (start finish : Point) :
    (elbowRoute start finish d).middle =
      d.level (d.across start) (d.across finish) ((d.onward start + d.onward finish) / 2.0) := by
  cases d <;> rfl

end Direction

theorem Segment.extend_cases (s : Segment) (least : Float32) (axis : Point) :
    (least ≤ s.length ∧ s.extend least axis = s) ∨
      ¬ least ≤ s.length ∧ ∃ along : Point,
        (along = axis ∨ epsilon < s.length ∧
          along = ⟨(s.finish.x - s.start.x) / s.length, (s.finish.y - s.start.y) / s.length⟩) ∧
        s.extend least axis =
          ⟨⟨s.midpoint.x - along.x * (least / 2.0), s.midpoint.y - along.y * (least / 2.0)⟩,
            ⟨s.midpoint.x + along.x * (least / 2.0), s.midpoint.y + along.y * (least / 2.0)⟩⟩ := by
  unfold Segment.extend
  dsimp only
  by_cases hlong : least ≤ s.length
  · exact .inl ⟨hlong, if_pos hlong⟩
  · rw [if_neg hlong]
    refine .inr ⟨hlong, _, ?_, rfl⟩
    by_cases hdirected : epsilon < s.length
    · rw [if_pos hdirected]
      exact .inr ⟨hdirected, rfl⟩
    · rw [if_neg hdirected]
      exact .inl rfl

section

variable {dir : Direction}

theorem within_distance (ha : Within 24 (2 ^ 124) a) (hb : Within 24 (2 ^ 124) b) :
    Within (-2 ^ 124) (2 ^ 124) (b - a) :=
  hb.sub ha (isBound_two_pow (by norm_num)).neg (isBound_two_pow (by norm_num)) (by norm_num)
    (by norm_num)

theorem isLength_level_of_direction (ha : Within 24 (2 ^ 124) a) (hb : Within 24 (2 ^ 124) b)
    (hc : c.isFinite = true) : IsLength (b - a) (dir.level a b c).length := by
  have hd := (within_distance ha hb).isFinite
  cases dir with
  | leftRight => exact isLength_upright hd hc
  | topDown => exact isLength_level hd hc

/-- A segment that is long enough reaches far from the origin at one of its ends. -/
theorem value_le_of_le_length (ha : Within 24 (2 ^ 124) a) (hb : Within 24 (2 ^ 124) b)
    (hleast : Within 8 (2 ^ 30) least) (hl : IsLength (b - a) l) (hle : least ≤ l) :
    value least ≤ max (value a) (value b) := by
  have hbound : |value b - value a| ≤ 2 ^ 127 := by
    refine (abs_le.2 ⟨?_, ?_⟩).trans (by norm_num : (2 : ℝ) ^ 124 ≤ 2 ^ 127)
    · linarith [ha.ge, hb.le]
    · linarith [ha.le, hb.ge]
  have hdistance := nearest_sub hb.isFinite ha.isFinite hbound
  have hreach : |value (b - a)| ≤ max (value a) (value b) := by
    refine abs_le.2 ⟨?_, ?_⟩
    · have hlow := hdistance.le_value (onGrid_value a).neg (by linarith [hb.le])
      linarith [le_max_left (value a) (value b)]
    · have hhigh := hdistance.value_le (onGrid_value b) (by linarith [ha.le])
      linarith [le_max_right (value a) (value b)]
  cases hfinite : l.isFinite with
  | true =>
    rw [le_iff hleast.isFinite hfinite] at hle
    have hlarge : 2 ^ (-23 : ℤ) < value l := by
      have hsmall : (2 : ℝ) ^ (-23 : ℤ) < 8 := by norm_num
      linarith [hleast.le]
    rw [← hl.distance hfinite hlarge] at hreach
    exact hle.trans hreach
  | false =>
    have hlarge := (hl.infinity hfinite).1
    have hpowers : (2 : ℝ) ^ 30 ≤ 2 ^ 63 := by norm_num
    linarith [hleast.ge]

/-- What a segment runs along when it is made longer: its axis in one direction or the other. -/
theorem direction_of_extend (ha : Within 24 (2 ^ 124) a) (hb : Within 24 (2 ^ 124) b)
    (hc : c.isFinite = true) (hleast : Within 8 (2 ^ 30) least)
    (hshort : ¬ least ≤ (dir.level a b c).length) {along : Point}
    (halong : along = dir.crossAxis ∨ epsilon < (dir.level a b c).length ∧
      along = ⟨((dir.level a b c).finish.x - (dir.level a b c).start.x) / (dir.level a b c).length,
        ((dir.level a b c).finish.y - (dir.level a b c).start.y) / (dir.level a b c).length⟩) :
    (Is 1 (dir.across along) ∨ Is (-1) (dir.across along)) ∧ Is 0 (dir.onward along) := by
  have hd := (within_distance ha hb).isFinite
  have hl : IsLength (b - a) (dir.level a b c).length := isLength_level_of_direction ha hb hc
  have hfinite : (dir.level a b c).length.isFinite = true := by
    by_contra hnot
    rw [Bool.not_eq_true] at hnot
    exact hshort (le_of_infinity hleast.isFinite (hl.infinity hnot).2)
  rcases halong with rfl | ⟨hdirected, rfl⟩
  · cases dir with
    | leftRight => exact ⟨.inl is_one, is_zero⟩
    | topDown => exact ⟨.inl is_one, is_zero⟩
  · rw [lt_iff is_epsilon.isFinite hfinite, is_epsilon.value_eq] at hdirected
    have hdistance := hl.distance hfinite hdirected
    have hpos : 0 < value (dir.level a b c).length :=
      (by positivity : (0 : ℝ) < 2 ^ (-23 : ℤ)).trans hdirected
    have hdirection := is_direction hd hfinite hpos hdistance
    have hnone := is_noDirection (is_sub_self hc) hfinite hpos
    cases dir with
    | leftRight => exact ⟨hdirection, hnone⟩
    | topDown => exact ⟨hdirection, hnone⟩

structure IsLabelSegment (dir : Direction) (s t : Segment) (least : Float32) : Prop where
  startAcross : Within (-2 ^ 31) (2 ^ 125) (dir.across t.start)
  finishAcross : Within (-2 ^ 31) (2 ^ 125) (dir.across t.finish)
  startOnward : Is (value (dir.onward s.midpoint)) (dir.onward t.start)
  finishOnward : Is (value (dir.onward s.midpoint)) (dir.onward t.finish)
  nonneg_iff : 0 ≤ value (dir.across t.start) ∧ 0 ≤ value (dir.across t.finish) ↔
    least ≤ s.length ∨ least / 2.0 ≤ dir.across s.midpoint
  /-- Where the segment is on the canvas, half of its least length is before its middle. -/
  reach : 0 ≤ value (dir.across t.start) ∧ 0 ≤ value (dir.across t.finish) →
    value least ≤ value (dir.across t.start) + value (dir.across t.finish)

/-- The middle of two numbers. -/
theorem within_middle (ha : Within 24 (2 ^ 124) a) (hb : Within 24 (2 ^ 124) b) :
    Within 24 (2 ^ 124) ((a + b) / 2.0) := by
  have hsum : Within 48 (2 ^ 125) (a + b) := ha.add hb (isBound_ofNat 48 (by norm_num))
    (isBound_two_pow (by norm_num)) (by norm_num) (by norm_num)
  exact hsum.half (isBound_ofNat 24 (by norm_num)) (isBound_two_pow (by norm_num)) (by norm_num)
    (by norm_num)

/-- The middle of a number and itself is the number. -/
theorem middle_self (hc : Within 24 (2 ^ 124) c) : (c + c) / 2.0 = c := by
  have hdouble : value c + value c = 2 * value c := (two_mul _).symm
  have hbound : |value c + value c| ≤ 2 ^ 127 := by
    rw [abs_of_nonneg (by linarith [hc.le])]
    linarith [hc.ge, (by norm_num : (2 : ℝ) ^ 124 + 2 ^ 124 ≤ 2 ^ 127)]
  have hsum := nearest_add hc.isFinite hc.isFinite hbound
  rw [hdouble] at hsum
  have hexact := hsum.is (onGrid_value c).double
  have hhalf := nearest_half hexact.isFinite
  rw [hexact.value_eq, mul_div_cancel_left₀ _ (by norm_num)] at hhalf
  have hvalue := hhalf.value_eq (onGrid_value c)
  exact eq_of_value_eq hhalf.isFinite hc.isFinite (by linarith [hc.le]) hvalue

theorem isLabelSegment_of_le_length (ha : Within 24 (2 ^ 124) a) (hb : Within 24 (2 ^ 124) b)
    (hc : Within 24 (2 ^ 124) c) (hleast : Within 8 (2 ^ 30) least)
    (hlong : least ≤ (dir.level a b c).length) :
    IsLabelSegment dir (dir.level a b c) (dir.level a b c) least := by
  have hlow : (-2 ^ 31 : ℝ) ≤ 24 := by norm_num
  have hhigh : (2 : ℝ) ^ 124 ≤ 2 ^ 125 := by norm_num
  have ha₀ : 0 ≤ value a := by linarith [ha.le]
  have hb₀ : 0 ≤ value b := by linarith [hb.le]
  have hmiddle : Is (value ((c + c) / 2.0)) c := by
    rw [middle_self hc]
    exact ⟨hc.isFinite, rfl⟩
  have hnonneg : 0 ≤ value a ∧ 0 ≤ value b ↔ least ≤ (dir.level a b c).length ∨
      least / 2.0 ≤ dir.across (dir.level a b c).midpoint :=
    ⟨fun _ => .inl hlong, fun _ => ⟨ha₀, hb₀⟩⟩
  have hreach : value least ≤ value a + value b := (value_le_of_le_length ha hb hleast
    (isLength_level_of_direction ha hb hc.isFinite) hlong).trans (max_le_add_of_nonneg ha₀ hb₀)
  cases dir with
  | leftRight | topDown =>
    exact ⟨ha.mono hlow hhigh, hb.mono hlow hhigh, hmiddle, hmiddle, hnonneg, fun _ => hreach⟩

/-- The segment of a label, however long the label is. -/
theorem isLabelSegment_extend (ha : Within 24 (2 ^ 124) a) (hb : Within 24 (2 ^ 124) b)
    (hc : Within 24 (2 ^ 124) c) (hleast : Within 8 (2 ^ 30) least) :
    IsLabelSegment dir (dir.level a b c) ((dir.level a b c).extend least dir.crossAxis) least := by
  rcases (dir.level a b c).extend_cases least dir.crossAxis with
    ⟨hlong, heq⟩ | ⟨hshort, along, halong, heq⟩
  · rw [heq]
    exact isLabelSegment_of_le_length ha hb hc hleast hlong
  · have hm := within_middle ha hb
    have hhalf : Within 4 (2 ^ 30) (least / 2.0) := hleast.half (isBound_ofNat 4 (by norm_num))
      (isBound_two_pow (by norm_num)) (by norm_num) (by norm_num)
    have hexact : value (least / 2.0) = value least / 2 := (nearest_half hleast.isFinite).value_eq
      ((onGrid_value least).half (by linarith [hleast.le]))
    obtain ⟨hdirection, hnone⟩ := direction_of_extend ha hb hc.isFinite hleast hshort halong
    have hends := endsReach hm hhalf hdirection
    have hself := within_middle hc hc
    obtain ⟨hbefore, hbehind⟩ := ends_across hself hhalf hnone
    have hnonneg := hends.nonneg_iff.trans (le_iff hhalf.isFinite hm.isFinite).symm
    have hnonneg := hnonneg.trans (or_iff_right hshort).symm
    have hreach := fun h => hends.sum (hends.nonneg_iff.1 h)
    rw [hexact, mul_div_cancel₀ _ (by norm_num)] at hreach
    rw [heq]
    cases dir with
    | leftRight | topDown => exact ⟨hends.start, hends.finish, hbefore, hbehind, hnonneg, hreach⟩

theorem across_midpoint (t : Segment) :
    dir.across t.midpoint = (dir.across t.start + dir.across t.finish) / 2.0 := by
  cases dir <;> rfl

theorem onward_midpoint (t : Segment) :
    dir.onward t.midpoint = (dir.onward t.start + dir.onward t.finish) / 2.0 := by
  cases dir <;> rfl

namespace IsLabelSegment

variable {s t : Segment}

theorem within_across_midpoint (h : IsLabelSegment dir s t least) :
    Within (-2 ^ 31) (2 ^ 125) (dir.across t.midpoint) := by
  have hlow : IsBound (-2 ^ 32) := (isBound_two_pow (by norm_num)).neg
  have hsum := h.startAcross.add h.finishAcross hlow (isBound_two_pow (by norm_num : 126 ≤ 127))
    (by norm_num) (by norm_num)
  rw [across_midpoint]
  exact hsum.half (isBound_two_pow (by norm_num)).neg (isBound_two_pow (by norm_num)) (by norm_num)
    (by norm_num)

/-- The segment grows across the flow only. -/
theorem onward_midpoint_eq (h : IsLabelSegment dir s t least)
    (hm : Within 24 (2 ^ 124) (dir.onward s.midpoint)) :
    dir.onward t.midpoint = dir.onward s.midpoint := by
  have heq {x : Float32} (hx : Is (value (dir.onward s.midpoint)) x) : x = dir.onward s.midpoint :=
    eq_of_value_eq hx.isFinite hm.isFinite (by linarith [hx.value_eq, hm.le]) hx.value_eq
  rw [onward_midpoint, heq h.startOnward, heq h.finishOnward, middle_self hm]

/-- On the canvas, the middle of the segment has room for half of what the segment is for. -/
theorem half_le_across_midpoint (h : IsLabelSegment dir s t least) (hleast : 1 ≤ value least)
    (hnonneg : 0 ≤ value (dir.across t.start) ∧ 0 ≤ value (dir.across t.finish)) {width : Float32}
    (hwidth : width.isFinite = true) (hle : value width ≤ value least) :
    value (width / 2.0) ≤ value (dir.across t.midpoint) := by
  have hdouble : (2 : ℝ) ^ 125 + 2 ^ 125 = 2 ^ 126 := by norm_num
  have hsum := nearest_add h.startAcross.isFinite h.finishAcross.isFinite
    (abs_le_of_bounds isBound_zero (isBound_two_pow (by norm_num : 126 ≤ 127))
      (add_nonneg hnonneg.1 hnonneg.2) (by linarith [h.startAcross.ge, h.finishAcross.ge]))
  have hreach := hsum.le_value (onGrid_value least) (h.reach hnonneg)
  have hgrid := (onGrid_value least).half hleast
  rw [across_midpoint]
  calc value (width / 2.0) ≤ value least / 2 :=
        (nearest_half hwidth).value_le hgrid (by linarith)
    _ ≤ value ((dir.across t.start + dir.across t.finish) / 2.0) :=
        (nearest_half hsum.isFinite).le_value hgrid (by linarith)

end IsLabelSegment

end

end Flowchart
