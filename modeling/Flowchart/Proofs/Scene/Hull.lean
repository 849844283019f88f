import Flowchart.Proofs.Single.Drift
import Flowchart.Scene.Frame

namespace Flowchart

open Single

/-- One side of a rectangle: where it begins, how long it is, and where it ends. -/
structure Side (lo : ℝ) (k : ℕ) (x w : Float32) : Prop where
  start : Within lo (2 ^ k) x
  length : Within 0 (2 ^ k) w
  finish : Within lo (2 ^ k) (x + w)

section

variable {lo : ℝ} {k : ℕ}

theorem side_of_within {x w : Float32} (hbound : IsBound lo) (hk : k < 127) (hx : Within lo (2 ^ k) x)
    (hw : Within 0 (2 ^ k) w) : Side lo (k + 1) x w := by
  have hdouble : (2 : ℝ) ^ k + 2 ^ k = 2 ^ (k + 1) := by ring
  have hpos : (0 : ℝ) < 2 ^ k := by positivity
  refine ⟨hx.mono le_rfl (by linarith), hw.mono le_rfl (by linarith), ?_⟩
  exact hx.add hw hbound (isBound_two_pow (by omega)) (by linarith) hdouble.le

theorem Side.start_le_finish {x w : Float32} (hlo : 0 ≤ lo) (hk : k ≤ 126) (h : Side lo k x w) :
    value x ≤ value (x + w) := by
  have hpower : (2 : ℝ) ^ k ≤ 2 ^ 126 := pow_le_pow_right₀ (by norm_num) hk
  have hsum : |value x + value w| ≤ 2 ^ 127 := by
    rw [abs_of_nonneg (by linarith [h.start.le, h.length.le])]
    linarith [h.start.ge, h.length.ge, (by norm_num : (2 : ℝ) ^ 126 + 2 ^ 126 ≤ 2 ^ 127)]
  exact (nearest_add h.start.isFinite h.length.isFinite hsum).le_value (onGrid_value x)
    (by linarith [h.length.le])

/-- The side around two begins with the first of them, and it ends no less far than either but for
rounding. -/
theorem Side.hull {x₁ x₂ w₁ w₂ : Float32} (hlo : 0 ≤ lo) (hk : 24 ≤ k) (hk' : k ≤ 126)
    (h₁ : Side lo k x₁ w₁) (h₂ : Side lo k x₂ w₂) :
    Side lo k (smaller x₁ x₂) (larger (x₁ + w₁) (x₂ + w₂) - smaller x₁ x₂) ∧
      Reaches (x₁ + w₁) (smaller x₁ x₂ + (larger (x₁ + w₁) (x₂ + w₂) - smaller x₁ x₂)) ∧
      Reaches (x₂ + w₂) (smaller x₁ x₂ + (larger (x₁ + w₁) (x₂ + w₂) - smaller x₁ x₂)) := by
  have hbegin : Within lo (2 ^ k) (smaller x₁ x₂) := by
    simpa only [min_self] using h₁.start.smaller h₂.start
  have hend : Within lo (2 ^ k) (larger (x₁ + w₁) (x₂ + w₂)) := by
    simpa only [max_self] using h₁.finish.larger h₂.finish
  have hmin := (smaller_eq h₁.start.isFinite h₂.start.isFinite).2
  have hmax := (larger_eq h₁.finish.isFinite h₂.finish.isFinite).2
  have hordered : value (smaller x₁ x₂) ≤ value (larger (x₁ + w₁) (x₂ + w₂)) := by
    rw [hmin, hmax]
    exact (min_le_left _ _).trans ((h₁.start_le_finish hlo hk').trans (le_max_left _ _))
  have hnonneg : 0 ≤ value (smaller x₁ x₂) := hlo.trans hbegin.le
  have hlarge : IsBound (2 ^ k) := isBound_two_pow (by omega)
  have hle : value (larger (x₁ + w₁) (x₂ + w₂)) - value (smaller x₁ x₂) ≤ 2 ^ k := by
    linarith [hend.ge]
  have hlength := (nearest_sub hend.isFinite hbegin.isFinite (abs_le_of_bounds isBound_zero hlarge
    (sub_nonneg.2 hordered) hle)).within isBound_zero hlarge (sub_nonneg.2 hordered) hle
  have hrestored := value_add_sub_le hbegin.isFinite hend.isFinite hnonneg hordered hk hk' hend.ge
  have hpower : (2 : ℝ) ^ k ≤ 2 ^ 126 := pow_le_pow_right₀ (by norm_num) hk'
  have hreaches := reaches_add_sub hbegin.isFinite hend.isFinite hnonneg hordered
    (hend.ge.trans hpower)
  refine ⟨⟨hbegin, hlength, hrestored.mono hbegin.le le_rfl⟩, ?_, ?_⟩
  · exact (reaches_of_le (hmax.ge.trans' (le_max_left _ _))).trans hreaches
  · exact (reaches_of_le (hmax.ge.trans' (le_max_right _ _))).trans hreaches

end

namespace Rect

structure Spans (lo : ℝ) (k : ℕ) (r : Rect) : Prop where
  across : Side lo k r.x r.width
  down : Side lo k r.y r.height

structure ReachedBy (r s : Rect) : Prop where
  right : Reaches r.right s.right
  bottom : Reaches r.bottom s.bottom

theorem ReachedBy.trans {r s t : Rect} (h : r.ReachedBy s) (h' : s.ReachedBy t) : r.ReachedBy t :=
  ⟨h.right.trans h'.right, h.bottom.trans h'.bottom⟩

section

variable {lo : ℝ} {k : ℕ} (hlo : 0 ≤ lo) (hk : 24 ≤ k) (hk' : k ≤ 126)
include hlo hk hk'

theorem spans_union {r s : Rect} (hr : r.Spans lo k) (hs : s.Spans lo k) :
    (r.union s).Spans lo k ∧ r.ReachedBy (r.union s) ∧ s.ReachedBy (r.union s) := by
  obtain ⟨hacross, hright, hright'⟩ := hr.across.hull hlo hk hk' hs.across
  obtain ⟨hdown, hbottom, hbottom'⟩ := hr.down.hull hlo hk hk' hs.down
  exact ⟨⟨hacross, hdown⟩, ⟨hright, hbottom⟩, ⟨hright', hbottom'⟩⟩

theorem spans_foldl_union {rects : List Rect} (h : ∀ r ∈ rects, r.Spans lo k) {s : Rect}
    (hs : s.Spans lo k) : (rects.foldl union s).Spans lo k ∧ s.ReachedBy (rects.foldl union s) ∧
      ∀ r ∈ rects, r.ReachedBy (rects.foldl union s) := by
  induction rects generalizing s with
  | nil => exact ⟨hs, ⟨reaches_of_le le_rfl, reaches_of_le le_rfl⟩, nofun⟩
  | cons r rects ih =>
    obtain ⟨hr, hrest⟩ := List.forall_mem_cons.1 h
    obtain ⟨hunion, hfirst, hsecond⟩ := spans_union hlo hk hk' hs hr
    obtain ⟨hspans, hreached, hothers⟩ := ih hrest hunion
    exact ⟨hspans, hfirst.trans hreached,
      List.forall_mem_cons.2 ⟨hsecond.trans hreached, hothers⟩⟩

/-- The least rectangle around some reaches as far as all of them. -/
theorem spans_unionAll? {rects : List Rect} (h : ∀ r ∈ rects, r.Spans lo k) {around : Rect}
    (haround : unionAll? rects = some around) :
    around.Spans lo k ∧ ∀ r ∈ rects, r.ReachedBy around := by
  cases rects with
  | nil => exact absurd haround (by simp [unionAll?])
  | cons r rest =>
    obtain rfl := Option.some.inj haround
    obtain ⟨hr, hrest⟩ := List.forall_mem_cons.1 h
    obtain ⟨hspans, hfirst, hothers⟩ := spans_foldl_union hlo hk hk' hrest hr
    exact ⟨hspans, List.forall_mem_cons.2 ⟨hfirst, hothers⟩⟩

end

end Rect
end Flowchart
