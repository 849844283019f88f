import Flowchart.Proofs.Layout.Bounds
import Flowchart.Proofs.Scene.Extend
import Flowchart.Proofs.Scene.Hull
import Flowchart.Proofs.Scene.Measure
import Flowchart.Proofs.Scene.Resolve

namespace Flowchart

open Single

def Point.InQuadrant (p : Point) : Prop := p.isFinite = true ∧ 0.0 ≤ p.x ∧ 0.0 ≤ p.y

def Rect.InQuadrant (r : Rect) : Prop := r.isFinite = true ∧ 0.0 ≤ r.x ∧ 0.0 ≤ r.y

instance (p : Point) : Decidable p.InQuadrant := inferInstanceAs (Decidable (_ ∧ _))

instance (r : Rect) : Decidable r.InQuadrant := inferInstanceAs (Decidable (_ ∧ _))

def EdgeGeometry.InQuadrant (e : EdgeGeometry) : Prop :=
  (∀ p ∈ e.route.points, p.InQuadrant) ∧ e.labelSegment.start.InQuadrant ∧
    e.labelSegment.finish.InQuadrant ∧ ∀ l ∈ e.label, l.bounds.InQuadrant

instance (e : EdgeGeometry) : Decidable e.InQuadrant :=
  inferInstanceAs (Decidable ((∀ p ∈ e.route.points, p.InQuadrant) ∧ _ ∧ _ ∧ _))

def Scene.InQuadrant (s : Scene) : Prop :=
  (∀ n ∈ s.nodes, n.bounds.InQuadrant) ∧ (∀ f ∈ s.frames, f.bounds.InQuadrant) ∧
    ∀ e ∈ s.edges, e.InQuadrant

instance (s : Scene) : Decidable s.InQuadrant := inferInstanceAs (Decidable (_ ∧ _ ∧ _))

theorem zero_le_iff {x : Float32} (h : x.isFinite = true) : 0.0 ≤ x ↔ 0 ≤ value x := by
  rw [le_iff is_zero.isFinite h, is_zero.value_eq]

theorem Point.inQuadrant_iff {p : Point} (hx : p.x.isFinite = true) (hy : p.y.isFinite = true) :
    p.InQuadrant ↔ 0 ≤ value p.x ∧ 0 ≤ value p.y := by
  unfold Point.InQuadrant Point.isFinite
  rw [zero_le_iff hx, zero_le_iff hy, hx, hy]
  simp

structure Rect.IsBounded (r : Rect) : Prop where
  x : Within (-2 ^ 125) (2 ^ 125) r.x
  y : Within (-2 ^ 125) (2 ^ 125) r.y
  width : Within 0 (2 ^ 125) r.width
  height : Within 0 (2 ^ 125) r.height

namespace Rect.IsBounded

variable {r : Rect}

theorem isFinite (h : r.IsBounded) : r.isFinite = true := by
  simp only [Rect.isFinite, h.x.isFinite, h.y.isFinite, h.width.isFinite, h.height.isFinite,
    Bool.and_self]

theorem inQuadrant_iff (h : r.IsBounded) : r.InQuadrant ↔ 0 ≤ value r.x ∧ 0 ≤ value r.y := by
  unfold Rect.InQuadrant
  rw [zero_le_iff h.x.isFinite, zero_le_iff h.y.isFinite, h.isFinite]
  simp

theorem spans (h : r.IsBounded) (hquadrant : r.InQuadrant) : r.Spans 0 126 := by
  obtain ⟨hx, hy⟩ := h.inQuadrant_iff.1 hquadrant
  exact ⟨side_of_within isBound_zero (by norm_num) ⟨h.x.isFinite, hx, h.x.ge⟩ h.width,
    side_of_within isBound_zero (by norm_num) ⟨h.y.isFinite, hy, h.y.ge⟩ h.height⟩

end Rect.IsBounded

theorem Point.isBounded_bounds {p : Point} (hx : Within (-2 ^ 125) (2 ^ 125) p.x)
    (hy : Within (-2 ^ 125) (2 ^ 125) p.y) : p.bounds.IsBounded :=
  ⟨hx, hy, is_zero.within.mono le_rfl (by norm_num), is_zero.within.mono le_rfl (by norm_num)⟩

namespace Graph

variable {g : Graph}

theorem isBounded_of_isSlot {r : Rect} (h : Layout.IsSlot r) :
    (r.IsBounded ∧ r.InQuadrant) ∧ r.plain.IsBounded ∧ r.plain.InQuadrant := by
  have hx := h.x.mono (by norm_num : (-2 ^ 125 : ℝ) ≤ 24) (by norm_num : (2 : ℝ) ^ 122 ≤ 2 ^ 125)
  have hy := h.y.mono (by norm_num : (-2 ^ 125 : ℝ) ≤ 24) (by norm_num : (2 : ℝ) ^ 122 ≤ 2 ^ 125)
  have hwidth : Within 0 (2 ^ 125) r.width := h.width.within.mono (by norm_num) (by norm_num)
  have hheight : Within 0 (2 ^ 125) r.height := h.height.within.mono (by norm_num) (by norm_num)
  have hzero : Within 0 (2 ^ 125) (0.0 : Float32) := is_zero.within.mono le_rfl (by norm_num)
  have hexact : r.IsBounded := ⟨hx, hy, hwidth, hheight⟩
  have hplain : r.plain.IsBounded := ⟨hx, hy,
    (hwidth.larger hzero).mono (max_self (0 : ℝ)).ge (max_self ((2 : ℝ) ^ 125)).le,
    (hheight.larger hzero).mono (max_self (0 : ℝ)).ge (max_self ((2 : ℝ) ^ 125)).le⟩
  have hbeside : 0 ≤ value r.x ∧ 0 ≤ value r.y :=
    ⟨by linarith [h.x.le], by linarith [h.y.le]⟩
  exact ⟨⟨hexact, hexact.inQuadrant_iff.2 hbeside⟩, hplain, hplain.inQuadrant_iff.2 hbeside⟩

theorem inQuadrant_of_mem_nodes (h : g.Moderate) {n : NodeGeometry}
    (hn : n ∈ ((g.arrange {}).scene {}).nodes) : n.bounds.IsBounded ∧ n.bounds.InQuadrant := by
  obtain ⟨m, hm, hdrawn⟩ := exists_of_mem_nodes hn
  obtain ⟨bounds, hbounds, -, r, outline, hr, rfl⟩ := Node.exists_of_drawn? hdrawn
  obtain ⟨hexact, hplain⟩ := isBounded_of_isSlot (Layout.isSlot_of_arrange h hm hbounds)
  rcases hr with rfl | rfl
  · exact hexact
  · exact hplain

theorem spans_of_isSlot {r : Rect} (h : Layout.IsSlot r) : r.Spans 24 123 where
  across := side_of_within (isBound_ofNat 24 (by norm_num)) (by norm_num) h.x
    (h.width.within.mono (by norm_num) (by norm_num))
  down := side_of_within (isBound_ofNat 24 (by norm_num)) (by norm_num) h.y
    (h.height.within.mono (by norm_num) (by norm_num))

theorem inQuadrant_of_mem_frames (h : g.Moderate) {f : SubgraphFrame}
    (hf : f ∈ ((g.arrange {}).scene {}).frames) : f.bounds.IsBounded ∧ f.bounds.InQuadrant := by
  obtain ⟨-, around, haround, hbounds⟩ := exists_of_mem_frames hf
  have hmembers : ∀ r ∈ ((g.arrange {}).membersOf f.label).filterMap Node.bounds,
      r.Spans 24 123 := by
    intro r hr
    obtain ⟨n, hn, hnr⟩ := List.mem_filterMap.1 hr
    have hmem := (List.mem_filter.1 (List.mem_filter.1 hn).1).1
    exact spans_of_isSlot (Layout.isSlot_of_arrange h hmem hnr)
  obtain ⟨⟨hacross, hdown⟩, -⟩ :=
    Rect.spans_unionAll? (by norm_num) (by norm_num) (by norm_num) hmembers haround
  have hmargin : Is 16 ({} : LayoutConfig).flowchart.subgraphMargin := is_literal 16 (by norm_num)
  have hlarge : IsBound (2 ^ 124) := isBound_two_pow (by norm_num)
  have hgap : Within 32 32 (2.0 * ({} : LayoutConfig).flowchart.subgraphMargin) :=
    is_two.within.mul hmargin.within (by norm_num) (by norm_num) (isBound_ofNat 32 (by norm_num))
      (isBound_ofNat 32 (by norm_num)) (by norm_num) (by norm_num)
  have hx := hacross.start.sub hmargin.within (isBound_ofNat 8 (by norm_num)) hlarge (by norm_num)
    (by norm_num)
  have hy := hdown.start.sub hmargin.within (isBound_ofNat 8 (by norm_num)) hlarge (by norm_num)
    (by norm_num)
  have hwidth := hacross.length.add hgap isBound_zero hlarge (by norm_num) (by norm_num)
  have hheight := hdown.length.add hgap isBound_zero hlarge (by norm_num) (by norm_num)
  have hlow : (-2 ^ 125 : ℝ) ≤ 8 := by norm_num
  have hhigh : (2 : ℝ) ^ 124 ≤ 2 ^ 125 := by norm_num
  have hframe : f.bounds.IsBounded := by
    rw [hbounds]
    exact ⟨hx.mono hlow hhigh, hy.mono hlow hhigh, hwidth.mono le_rfl hhigh,
      hheight.mono le_rfl hhigh⟩
  refine ⟨hframe, hframe.inQuadrant_iff.2 ?_⟩
  rw [hbounds]
  have hzero : (0 : ℝ) ≤ 8 := by norm_num
  exact ⟨hzero.trans hx.le, hzero.trans hy.le⟩

end Graph

section

variable {d : Direction} {s t : Segment} {least width height : Float32}

theorem IsLabelSegment.isBounded (h : IsLabelSegment d s t least)
    (hm : Within 24 (2 ^ 124) (d.onward s.midpoint)) :
    t.start.bounds.IsBounded ∧ t.finish.bounds.IsBounded := by
  have hacross {x : Float32} (hx : Within (-2 ^ 31) (2 ^ 125) x) : Within (-2 ^ 125) (2 ^ 125) x :=
    hx.mono (by norm_num) le_rfl
  have honward {x : Float32} (hx : Is (value (d.onward s.midpoint)) x) :
      Within (-2 ^ 125) (2 ^ 125) x := by
    refine ⟨hx.isFinite, ?_, ?_⟩ <;> rw [hx.value_eq]
    · linarith [hm.le, (by norm_num : (-2 ^ 125 : ℝ) ≤ 24)]
    · linarith [hm.ge, (by norm_num : (2 : ℝ) ^ 124 ≤ 2 ^ 125)]
  cases d with
  | leftRight =>
    exact ⟨Point.isBounded_bounds (honward h.startOnward) (hacross h.startAcross),
      Point.isBounded_bounds (honward h.finishOnward) (hacross h.finishAcross)⟩
  | topDown =>
    exact ⟨Point.isBounded_bounds (hacross h.startAcross) (honward h.startOnward),
      Point.isBounded_bounds (hacross h.finishAcross) (honward h.finishOnward)⟩

theorem IsLabelSegment.inQuadrant_iff (h : IsLabelSegment d s t least)
    (hm : Within 24 (2 ^ 124) (d.onward s.midpoint)) :
    t.start.InQuadrant ∧ t.finish.InQuadrant ↔
      0 ≤ value (d.across t.start) ∧ 0 ≤ value (d.across t.finish) := by
  have hnonneg : (0 : ℝ) ≤ value (d.onward s.midpoint) := by linarith [hm.le]
  have hstart := h.startOnward.value_eq.ge.trans' hnonneg
  have hfinish := h.finishOnward.value_eq.ge.trans' hnonneg
  cases d with
  | leftRight =>
    rw [Point.inQuadrant_iff h.startOnward.isFinite h.startAcross.isFinite,
      Point.inQuadrant_iff h.finishOnward.isFinite h.finishAcross.isFinite]
    exact and_congr (and_iff_right hstart) (and_iff_right hfinish)
  | topDown =>
    rw [Point.inQuadrant_iff h.startAcross.isFinite h.startOnward.isFinite,
      Point.inQuadrant_iff h.finishAcross.isFinite h.finishOnward.isFinite]
    exact and_congr (and_iff_left hstart) (and_iff_left hfinish)

/-- The middle of a label: half of its width is before it, if the segment is beside the origin. -/
theorem within_labelAnchor (h : IsLabelSegment d s t least)
    (hm : Within 24 (2 ^ 124) (d.onward s.midpoint)) (hleast : 1 ≤ value least)
    (hwidth : Within 0 (2 ^ 29) width) (hle : value width ≤ value least)
    (hheight : Within 0 (2 ^ 117) height) :
    Within (-2 ^ 118) (2 ^ 125) (labelAnchor t width height 4.0 d).x ∧
      Within (-2 ^ 118) (2 ^ 125) (labelAnchor t width height 4.0 d).y ∧
      (t.start.InQuadrant ∧ t.finish.InQuadrant →
        value (width / 2.0) ≤ value (labelAnchor t width height 4.0 d).x) := by
  have hlow : IsBound (-2 ^ 118) := (isBound_two_pow (by norm_num)).neg
  have hhigh : IsBound (2 ^ 125) := isBound_two_pow (by norm_num)
  have hgap : Is 4 (4.0 : Float32) := is_literal 4 (by norm_num)
  have hacross := h.within_across_midpoint
  have honward : Within 24 (2 ^ 124) (d.onward t.midpoint) := (h.onward_midpoint_eq hm).symm ▸ hm
  have hhalfWidth := hwidth.half isBound_zero (isBound_two_pow (by norm_num : 28 ≤ 127))
    (by norm_num) (by norm_num)
  have hhalfHeight := hheight.half isBound_zero (isBound_two_pow (by norm_num : 116 ≤ 127))
    (by norm_num) (by norm_num)
  have hacross' := hacross.mono (by norm_num : (-2 ^ 118 : ℝ) ≤ -2 ^ 31) le_rfl
  cases d with
  | leftRight =>
    -- half of the width is so much less than the power of two that there is room for the gap
    have hbetween : IsBound (3 * 2 ^ 123) := by
      refine ⟨⟨3, 123, by norm_num, by norm_num, by norm_num⟩, ?_⟩
      rw [abs_of_pos (by positivity)]
      norm_num
    have hbeside : Within 0 (3 * 2 ^ 123) (t.midpoint.x + width / 2.0) :=
      honward.add hhalfWidth isBound_zero hbetween (by norm_num) (by norm_num)
    have hanchor : Within 0 (2 ^ 125) (t.midpoint.x + width / 2.0 + 4.0) :=
      hbeside.add hgap.within isBound_zero hhigh (by norm_num) (by norm_num)
    refine ⟨hanchor.mono (by norm_num) le_rfl, hacross', fun _ => ?_⟩
    calc value (width / 2.0) ≤ value (t.midpoint.x + width / 2.0) :=
          honward.le_add_right hhalfWidth (by norm_num) isBound_zero hhigh (by norm_num) (by norm_num)
      _ ≤ value (t.midpoint.x + width / 2.0 + 4.0) :=
          hbeside.le_add_left hgap.within (by norm_num) isBound_zero hhigh (by norm_num) (by norm_num)
  | topDown =>
    have habove : Within (-2 ^ 117) (2 ^ 124) (t.midpoint.y - height / 2.0) :=
      honward.sub hhalfHeight (isBound_two_pow (by norm_num)).neg (isBound_two_pow (by norm_num))
        (by norm_num) (by norm_num)
    have hanchor : Within (-2 ^ 118) (2 ^ 125) (t.midpoint.y - height / 2.0 - 4.0) :=
      habove.sub hgap.within hlow hhigh (by norm_num) (by norm_num)
    refine ⟨hacross', hanchor, fun hquadrant => ?_⟩
    exact h.half_le_across_midpoint hleast ((h.inQuadrant_iff hm).1 hquadrant) hwidth.isFinite hle

/-- The label is beside the origin when its segment is, if half of its height is before its middle. -/
theorem labelBounds_inQuadrant (h : IsLabelSegment d s t least)
    (hm : Within 24 (2 ^ 124) (d.onward s.midpoint)) (hleast : 1 ≤ value least) {l : EdgeLabel}
    (hwidth : Within 0 (2 ^ 29) l.width) (hle : value l.width ≤ value least)
    (hheight : Within 0 (2 ^ 117) l.height)
    (hanchor : l.anchor = labelAnchor t l.width l.height 4.0 d) :
    l.bounds.IsBounded ∧ (t.start.InQuadrant ∧ t.finish.InQuadrant →
      (l.bounds.InQuadrant ↔ l.height / 2.0 ≤ l.anchor.y)) := by
  obtain ⟨hx, hy, hbefore⟩ := within_labelAnchor h hm hleast hwidth hle hheight
  rw [← hanchor] at hx hy hbefore
  have hhalfWidth := hwidth.half isBound_zero (isBound_two_pow (by norm_num : 28 ≤ 127))
    (by norm_num) (by norm_num)
  have hhalfHeight := hheight.half isBound_zero (isBound_two_pow (by norm_num : 116 ≤ 127))
    (by norm_num) (by norm_num)
  have hhigh : IsBound (2 ^ 125) := isBound_two_pow (by norm_num)
  have hbounded : l.bounds.IsBounded := {
    x := hx.sub hhalfWidth hhigh.neg hhigh (by norm_num) (by norm_num)
    y := hy.sub hhalfHeight hhigh.neg hhigh (by norm_num) (by norm_num)
    width := hwidth.mono le_rfl (by norm_num)
    height := hheight.mono le_rfl (by norm_num) }
  have hbound {p q : Float32} (hp : Within (-2 ^ 118) (2 ^ 125) p) (hq : Within 0 (2 ^ 116) q) :
      |value p - value q| ≤ 2 ^ 127 := by
    refine (abs_le.2 ⟨?_, ?_⟩).trans (by norm_num : (2 : ℝ) ^ 125 ≤ 2 ^ 127)
    · linarith [hp.le, hq.ge, (by norm_num : -(2 : ℝ) ^ 125 ≤ -2 ^ 118 - 2 ^ 116)]
    · linarith [hp.ge, hq.le]
  have hleft := nearest_sub hx.isFinite hhalfWidth.isFinite
    (hbound hx (hhalfWidth.mono le_rfl (by norm_num)))
  have htop := nearest_sub hy.isFinite hhalfHeight.isFinite (hbound hy hhalfHeight)
  refine ⟨hbounded, fun hquadrant => ?_⟩
  rw [hbounded.inQuadrant_iff, le_iff hhalfHeight.isFinite hy.isFinite]
  have hnonneg := (hleft.nonneg_iff (onGrid_value _) (onGrid_value _)).2 (hbefore hquadrant)
  exact (and_iff_right hnonneg).trans (htop.nonneg_iff (onGrid_value _) (onGrid_value _))

/-- The segment of a label and the label are beside the origin just when there is room for them. -/
theorem placeLabel_inQuadrant_iff {a b c : Float32} (ha : Within 24 (2 ^ 124) a)
    (hb : Within 24 (2 ^ 124) b) (hc : Within 24 (2 ^ 124) c) {text : String}
    (hlines : (Label.lines text).length ≤ 2 ^ 112) {l : EdgeLabel}
    (hplaced : placeLabel text (d.level a b c) d {} = (t, l)) :
    (t.start.bounds.IsBounded ∧ t.finish.bounds.IsBounded ∧ l.bounds.IsBounded) ∧
      d.onward t.midpoint = d.onward (d.level a b c).midpoint ∧
      (t.start.InQuadrant ∧ t.finish.InQuadrant ∧ l.bounds.InQuadrant ↔
        (l.width + 8.0 ≤ (d.level a b c).length ∨
          (l.width + 8.0) / 2.0 ≤ d.across (d.level a b c).midpoint) ∧
          l.height / 2.0 ≤ l.anchor.y) := by
  obtain ⟨rfl, rfl⟩ := Prod.mk.inj hplaced
  set block := Label.measure text 12.0 1.5
  have hwidth : Within 0 (2 ^ 29) block.width := Label.within_width text 1.5
  have hheight : Within 0 (2 ^ 117) block.height := Label.within_height hlines
  have hpadding : Is 8 (8.0 : Float32) := is_literal 8 (by norm_num)
  have hlow : IsBound 8 := isBound_ofNat 8 (by norm_num)
  have hhigh : IsBound (2 ^ 30) := isBound_two_pow (by norm_num)
  have hleast : Within 8 (2 ^ 30) (block.width + 8.0) :=
    hwidth.add hpadding.within hlow hhigh (by norm_num) (by norm_num)
  have hgrows : value block.width ≤ value (block.width + 8.0) :=
    hwidth.le_add_left hpadding.within (by norm_num) hlow hhigh (by norm_num) (by norm_num)
  have hsegment : IsLabelSegment d (d.level a b c)
      ((d.level a b c).extend (block.width + 8.0) d.crossAxis) (block.width + 8.0) :=
    isLabelSegment_extend ha hb hc hleast
  have hm : Within 24 (2 ^ 124) (d.onward (d.level a b c).midpoint) := by
    have hmiddle := within_middle hc hc
    cases d with
    | leftRight | topDown => exact hmiddle
  obtain ⟨hstart, hfinish⟩ := hsegment.isBounded hm
  obtain ⟨hbounds, hlabel⟩ := labelBounds_inQuadrant hsegment hm (by linarith [hleast.le])
    (l := (placeLabel text (d.level a b c) d {}).2) hwidth hgrows hheight rfl
  refine ⟨⟨hstart, hfinish, hbounds⟩, hsegment.onward_midpoint_eq hm, ?_⟩
  rw [← and_assoc, ← hsegment.nonneg_iff, ← hsegment.inQuadrant_iff hm]
  exact and_congr_right hlabel

end

/-- There is room for the label of an edge: the middle of the route is as long as the segment of the
label must be, or half of it before its own middle; and half of the label is before the height of
its middle. -/
def EdgeGeometry.HasRoom (e : EdgeGeometry) (l : EdgeLabel) : Direction → Prop
  | .leftRight =>
    (l.width + 8.0 ≤ e.route.middle.length ∨ (l.width + 8.0) / 2.0 ≤ e.route.middle.midpoint.y) ∧
      l.height / 2.0 ≤ e.labelSegment.midpoint.y
  | .topDown =>
    (l.width + 8.0 ≤ e.route.middle.length ∨ (l.width + 8.0) / 2.0 ≤ e.route.middle.midpoint.x) ∧
      l.height / 2.0 ≤ e.route.middle.midpoint.y - l.height / 2.0 - 4.0

instance (e : EdgeGeometry) (l : EdgeLabel) : (d : Direction) → Decidable (e.HasRoom l d)
  | .leftRight => inferInstanceAs (Decidable ((_ ∨ _) ∧ _))
  | .topDown => inferInstanceAs (Decidable ((_ ∨ _) ∧ _))

theorem EdgeGeometry.hasRoom_iff {e : EdgeGeometry} {l : EdgeLabel} {d : Direction}
    (hanchor : l.anchor = labelAnchor e.labelSegment l.width l.height 4.0 d)
    (honward : d.onward e.labelSegment.midpoint = d.onward e.route.middle.midpoint) :
    e.HasRoom l d ↔ (l.width + 8.0 ≤ e.route.middle.length ∨
      (l.width + 8.0) / 2.0 ≤ d.across e.route.middle.midpoint) ∧ l.height / 2.0 ≤ l.anchor.y := by
  rw [hanchor]
  cases d with
  | leftRight => rfl
  | topDown =>
    change e.labelSegment.midpoint.y = e.route.middle.midpoint.y at honward
    rw [labelAnchor, honward]
    rfl

structure Point.IsInside (p : Point) : Prop where
  x : Within 24 (2 ^ 124) p.x
  y : Within 24 (2 ^ 124) p.y

namespace Point.IsInside

variable {p : Point}

theorem isBounded (h : p.IsInside) : p.bounds.IsBounded :=
  isBounded_bounds (h.x.mono (by norm_num) (by norm_num)) (h.y.mono (by norm_num) (by norm_num))

theorem inQuadrant (h : p.IsInside) : p.InQuadrant :=
  (inQuadrant_iff h.x.isFinite h.y.isFinite).2 ⟨by linarith [h.x.le], by linarith [h.y.le]⟩

end Point.IsInside

theorem isInside_of_mem_elbowRoute {start finish : Point} (hstart : start.IsInside)
    (hfinish : finish.IsInside) (d : Direction) :
    ∀ p ∈ (elbowRoute start finish d).points, p.IsInside := by
  have hx := within_middle hstart.x hfinish.x
  have hy := within_middle hstart.y hfinish.y
  cases d with
  | leftRight =>
    simp only [elbowRoute, Route.points, List.forall_mem_cons, List.not_mem_nil, false_implies,
      implies_true, and_true]
    exact ⟨hstart, ⟨hx, hstart.y⟩, ⟨hx, hfinish.y⟩, hfinish⟩
  | topDown =>
    simp only [elbowRoute, Route.points, List.forall_mem_cons, List.not_mem_nil, false_implies,
      implies_true, and_true]
    exact ⟨hstart, ⟨hstart.x, hy⟩, ⟨hfinish.x, hy⟩, hfinish⟩

/-- A property of all rectangles that an edge takes part in the extent with. -/
theorem EdgeGeometry.forall_mem_parts {e : EdgeGeometry} {P : Rect → Prop} :
    (∀ r ∈ e.parts, P r) ↔ (∀ p ∈ e.route.points, P p.bounds) ∧ P e.labelSegment.start.bounds ∧
      P e.labelSegment.finish.bounds ∧ ∀ l ∈ e.label, P l.bounds := by
  unfold EdgeGeometry.parts
  simp only [List.forall_mem_append, List.forall_mem_map, List.forall_mem_cons,
    List.not_mem_nil, false_implies, implies_true, and_true, and_assoc, Option.mem_toList,
    Option.mem_def, Option.map_eq_some_iff, forall_exists_index, and_imp, forall_apply_eq_imp_iff₂]

namespace Graph

variable {g : Graph}

/-- An edge of a drawn layout leads from a port to a port, and has the label of an edge before. -/
theorem exists_of_mem_edges_arrange (h : g.Moderate) {e : EdgeGeometry}
    (he : e ∈ ((g.arrange {}).scene {}).edges) :
    ∃ i f start finish, e = (g.arrange {}).drawEdge i f start finish {} ∧ start.IsInside ∧
      finish.IsInside ∧ ∀ text ∈ f.label, (Label.lines text).length ≤ 2 ^ 112 := by
  obtain ⟨i, hresolved⟩ := exists_of_mem_edges he
  obtain ⟨f, first, second, exit, entry, hf, hfirst, hsecond, hexit, hentry, rfl⟩ :=
    exists_of_resolveEdge hresolved
  have hslot {id : String} {r : Rect} (hr : (g.arrange {}).endpointBounds f id = .ok r) :
      Layout.IsSlot r := by
    obtain ⟨n, hn, hbounds⟩ := exists_of_endpointBounds hr
    exact Layout.isSlot_of_arrange h (List.mem_map_of_mem (Table.mem_entries_of_find? hn)) hbounds
  obtain ⟨⟨hx, hy⟩, hx', hy'⟩ :=
    Layout.within_ports h hf hexit hentry (hslot hfirst) (hslot hsecond)
  refine ⟨i, f, _, _, rfl, ⟨hx, hy⟩, ⟨hx', hy'⟩, fun text htext => ?_⟩
  have hmem : f.clearPorts ∈ g.edges.map Edge.clearPorts :=
    Layout.edges_arrange_looks (c := {}) ▸ List.mem_map_of_mem (List.mem_of_getElem? hf)
  obtain ⟨before, hbefore, hlooks⟩ := List.mem_map.1 hmem
  have hlabel : before.clearPorts.label = f.clearPorts.label := congrArg Edge.label hlooks
  exact h.lines before hbefore text (hlabel ▸ htext)

theorem within_middle_elbowRoute {start finish : Point} (hstart : start.IsInside)
    (hfinish : finish.IsInside) (d : Direction) :
    Within 24 (2 ^ 124) (d.across start) ∧ Within 24 (2 ^ 124) (d.across finish) ∧
      Within 24 (2 ^ 124) ((d.onward start + d.onward finish) / 2.0) := by
  cases d with
  | leftRight => exact ⟨hstart.y, hfinish.y, within_middle hstart.x hfinish.x⟩
  | topDown => exact ⟨hstart.x, hfinish.x, within_middle hstart.y hfinish.y⟩

/-- An edge without a label is where its route is. -/
theorem inQuadrant_of_unlabelled {e : EdgeGeometry} {d : Direction} (hlabel : e.label = none)
    (hsegment : e.labelSegment = e.route.middle) (hpoints : ∀ p ∈ e.route.points, p.IsInside) :
    (∀ r ∈ e.parts, r.IsBounded) ∧ (e.InQuadrant ↔ ∀ l ∈ e.label, e.HasRoom l d) := by
  have hfirst := hpoints e.route.middle.start (by simp [Route.middle, Route.points])
  have hsecond := hpoints e.route.middle.finish (by simp [Route.middle, Route.points])
  rw [EdgeGeometry.forall_mem_parts, EdgeGeometry.InQuadrant, hlabel, hsegment]
  constructor
  · exact ⟨fun p hp => (hpoints p hp).isBounded, hfirst.isBounded, hsecond.isBounded, nofun⟩
  · exact ⟨fun _ => nofun, fun _ => ⟨fun p hp => (hpoints p hp).inQuadrant, hfirst.inQuadrant,
      hsecond.inQuadrant, nofun⟩⟩

/-- An edge with a label is beside the origin when there is room for the label. -/
theorem inQuadrant_of_labelled {e : EdgeGeometry} {d : Direction} {a b c : Float32} {text : String}
    {l : EdgeLabel} (hmiddle : e.route.middle = d.level a b c) (ha : Within 24 (2 ^ 124) a)
    (hb : Within 24 (2 ^ 124) b) (hc : Within 24 (2 ^ 124) c)
    (hlines : (Label.lines text).length ≤ 2 ^ 112) (hlabel : e.label = some l)
    (hplaced : placeLabel text e.route.middle d {} = (e.labelSegment, l))
    (hpoints : ∀ p ∈ e.route.points, p.IsInside) :
    (∀ r ∈ e.parts, r.IsBounded) ∧ (e.InQuadrant ↔ ∀ l ∈ e.label, e.HasRoom l d) := by
  have hanchor : l.anchor = labelAnchor e.labelSegment l.width l.height 4.0 d := by
    obtain ⟨hsegment, rfl⟩ := Prod.mk.inj hplaced
    rw [← hsegment]
  rw [hmiddle] at hplaced
  obtain ⟨⟨hstart, hfinish, hbounds⟩, honward, hiff⟩ :=
    placeLabel_inQuadrant_iff ha hb hc hlines hplaced
  rw [← hmiddle] at honward hiff
  rw [EdgeGeometry.forall_mem_parts, EdgeGeometry.InQuadrant, hlabel]
  simp only [Option.mem_some_iff, forall_eq', and_iff_right fun p hp => (hpoints p hp).inQuadrant]
  exact ⟨⟨fun p hp => (hpoints p hp).isBounded, hstart, hfinish, hbounds⟩,
    hiff.trans (EdgeGeometry.hasRoom_iff hanchor honward).symm⟩

/-- The route of an edge is beside the origin, and so are the segment of its label and the label just
when there is room for it. -/
theorem inQuadrant_drawEdge (g : Graph) (i : Nat) {f : Edge} {start finish : Point}
    (hstart : start.IsInside) (hfinish : finish.IsInside)
    (hlines : ∀ text ∈ f.label, (Label.lines text).length ≤ 2 ^ 112) {e : EdgeGeometry}
    (he : e = g.drawEdge i f start finish {}) :
    (∀ r ∈ e.parts, r.IsBounded) ∧ (∀ p ∈ e.route.points, p.InQuadrant) ∧
      (e.InQuadrant ↔ ∀ l ∈ e.label, e.HasRoom l g.direction) := by
  have hroute : e.route = elbowRoute start finish g.direction := by
    rw [he]
    rfl
  have hpoints : ∀ p ∈ e.route.points, p.IsInside := by
    rw [hroute]
    exact isInside_of_mem_elbowRoute hstart hfinish g.direction
  rw [and_left_comm]
  refine ⟨fun p hp => (hpoints p hp).inQuadrant, ?_⟩
  cases hlabel : f.label with
  | none =>
    have hparts : e.label = none ∧ e.labelSegment = e.route.middle := by
      rw [he, drawEdge, hlabel]
      exact ⟨rfl, rfl⟩
    exact inQuadrant_of_unlabelled hparts.1 hparts.2 hpoints
  | some text =>
    obtain ⟨l, hsome, hplaced⟩ : ∃ l, e.label = some l ∧
        placeLabel text e.route.middle g.direction {} = (e.labelSegment, l) := by
      rw [he, drawEdge, hlabel]
      exact ⟨_, rfl, rfl⟩
    obtain ⟨ha, hb, hc⟩ := within_middle_elbowRoute hstart hfinish g.direction
    have hmiddle := Direction.middle_elbowRoute g.direction start finish
    rw [← hroute] at hmiddle
    exact inQuadrant_of_labelled hmiddle ha hb hc (hlines text hlabel) hsome hplaced hpoints

theorem inQuadrant_of_mem_edges {g : Graph} (h : g.Moderate) {e : EdgeGeometry}
    (he : e ∈ ((g.arrange {}).scene {}).edges) :
    (∀ r ∈ e.parts, r.IsBounded) ∧ (∀ p ∈ e.route.points, p.InQuadrant) ∧
      (e.InQuadrant ↔ ∀ l ∈ e.label, e.HasRoom l g.direction) := by
  obtain ⟨i, f, start, finish, hdrawn, hstart, hfinish, hlines⟩ := exists_of_mem_edges_arrange h he
  rw [← Layout.direction_arrange {} g]
  exact inQuadrant_drawEdge (g.arrange {}) i hstart hfinish hlines hdrawn

end Graph
end Flowchart
