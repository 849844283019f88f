import Flowchart.Proofs.Scene.Quadrant

/-! The size of a drawing reaches a margin beyond the least rectangle around all parts. The sides of
this rectangle are rounded for each part, and the margin makes up for that as long as the drawing is
not so large that neighbouring singles are further apart. -/
namespace Flowchart

open Single

def Point.OnCanvas (canvas : Size) (p : Point) : Prop :=
  p.InQuadrant ∧ p.x ≤ canvas.width ∧ p.y ≤ canvas.height

def Rect.OnCanvas (canvas : Size) (r : Rect) : Prop :=
  r.InQuadrant ∧ r.right ≤ canvas.width ∧ r.bottom ≤ canvas.height

instance (canvas : Size) (p : Point) : Decidable (p.OnCanvas canvas) :=
  inferInstanceAs (Decidable (_ ∧ _ ∧ _))

instance (canvas : Size) (r : Rect) : Decidable (r.OnCanvas canvas) :=
  inferInstanceAs (Decidable (_ ∧ _ ∧ _))

def EdgeGeometry.OnCanvas (canvas : Size) (e : EdgeGeometry) : Prop :=
  (∀ p ∈ e.route.points, p.OnCanvas canvas) ∧ e.labelSegment.start.OnCanvas canvas ∧
    e.labelSegment.finish.OnCanvas canvas ∧ ∀ l ∈ e.label, l.bounds.OnCanvas canvas

instance (canvas : Size) (e : EdgeGeometry) : Decidable (e.OnCanvas canvas) :=
  inferInstanceAs (Decidable ((∀ p ∈ e.route.points, p.OnCanvas canvas) ∧ _ ∧ _ ∧ _))

namespace Scene

def canvas (s : Scene) : Size := ⟨s.width, s.height⟩

/-- Everything is on the canvas: nodes, frames, and edges with their labels. -/
def OnCanvas (s : Scene) : Prop :=
  (∀ n ∈ s.nodes, n.bounds.OnCanvas s.canvas) ∧ (∀ f ∈ s.frames, f.bounds.OnCanvas s.canvas) ∧
    ∀ e ∈ s.edges, e.OnCanvas s.canvas

instance (s : Scene) : Decidable s.OnCanvas := inferInstanceAs (Decidable (_ ∧ _ ∧ _))

variable {s : Scene}

theorem OnCanvas.inQuadrant (h : s.OnCanvas) : s.InQuadrant := by
  obtain ⟨hnodes, hframes, hedges⟩ := h
  refine ⟨fun n hn => (hnodes n hn).1, fun f hf => (hframes f hf).1, fun e he => ?_⟩
  obtain ⟨hpoints, hstart, hfinish, hlabel⟩ := hedges e he
  exact ⟨fun p hp => (hpoints p hp).1, hstart.1, hfinish.1, fun l hl => (hlabel l hl).1⟩

end Scene

theorem Point.inQuadrant_bounds (p : Point) : p.bounds.InQuadrant ↔ p.InQuadrant := by
  have hfinite : p.bounds.isFinite = p.isFinite := by
    simp only [Rect.isFinite, Point.bounds, is_zero.isFinite, Bool.and_true, Point.isFinite]
  rw [Rect.InQuadrant, Point.InQuadrant, hfinite]
  rfl

theorem EdgeGeometry.inQuadrant_iff {e : EdgeGeometry} :
    e.InQuadrant ↔ ∀ r ∈ e.parts, r.InQuadrant := by
  rw [forall_mem_parts]
  simp only [Point.inQuadrant_bounds]
  rfl

theorem is_ofCount_two_pow {k : ℕ} (hk : k ≤ 127) : Is (2 ^ k) (ofCount (2 ^ k)) := by
  have hbound : ((2 ^ k : ℕ) : ℝ) ≤ 2 ^ 127 := by
    push_cast
    exact pow_le_pow_right₀ (by norm_num) hk
  have hnearest := nearest_ofCount hbound
  rw [Nat.cast_pow, Nat.cast_ofNat] at hnearest
  exact hnearest.is (onGrid_two_pow k)

/-- A margin beyond the end of what reaches as far as some single, this single has ended. -/
theorem le_larger_add_margin {x y margin : Float32} (hmargin : Is 24 margin)
    (hx : Within 0 (2 ^ 126) x) (hy : Within 0 (2 ^ 126) y) (hreaches : Reaches x y)
    (hsmall : larger (y + margin) 0.0 < ofCount (2 ^ 27)) :
    (larger (y + margin) 0.0).isFinite = true ∧ x ≤ larger (y + margin) 0.0 := by
  have hsum : Within 0 (2 ^ 127) (y + margin) :=
    hy.add hmargin.within isBound_zero (isBound_two_pow le_rfl) (by norm_num) (by norm_num)
  have hfinite := isFinite_larger hsum.isFinite is_zero.isFinite
  have hle : value (y + margin) ≤ value (larger (y + margin) 0.0) :=
    (larger_eq hsum.isFinite is_zero.isFinite).2 ▸ le_max_left _ _
  have hlimit := is_ofCount_two_pow (by norm_num : 27 ≤ 127)
  rw [lt_iff hfinite hlimit.isFinite, hlimit.value_eq] at hsmall
  rw [le_iff hx.isFinite hfinite]
  exact ⟨hfinite, (le_value_add_margin hmargin hx hy hreaches (hle.trans_lt hsmall)).trans hle⟩

/-- A point ends no later than the empty rectangle that it is counted as. -/
theorem Point.onCanvas_of_bounds {p : Point} {canvas : Size} (hwidth : canvas.width.isFinite = true)
    (hheight : canvas.height.isFinite = true) (hspans : p.bounds.Spans 0 126)
    (h : p.bounds.OnCanvas canvas) : p.OnCanvas canvas := by
  obtain ⟨hquadrant, hright, hbottom⟩ := h
  have hend {x w : Float32} (hside : Side 0 126 x 0.0) (hw : w.isFinite = true)
      (hle : x + 0.0 ≤ w) : x ≤ w := by
    rw [le_iff hside.finish.isFinite hw] at hle
    rw [le_iff hside.start.isFinite hw]
    exact (hside.start_le_finish le_rfl le_rfl).trans hle
  exact ⟨(inQuadrant_bounds p).1 hquadrant, hend hspans.across hwidth hright,
    hend hspans.down hheight hbottom⟩

namespace Scene

variable {s : Scene} {margin : Float32}

theorem forall_mem_parts {P : Rect → Prop} (h : ∀ r, P r → r.isFinite = true)
    (hnodes : ∀ n ∈ s.nodes, P n.bounds) (hframes : ∀ f ∈ s.frames, P f.bounds)
    (hedges : ∀ e ∈ s.edges, ∀ r ∈ e.parts, P r) :
    (∀ r ∈ s.parts, P r) ∧ (∀ n ∈ s.nodes, n.bounds ∈ s.parts) ∧
      (∀ f ∈ s.frames, f.bounds ∈ s.parts) ∧ ∀ e ∈ s.edges, ∀ r ∈ e.parts, r ∈ s.parts := by
  have hall : ∀ r ∈ s.nodes.map (·.bounds) ++ s.frames.map (·.bounds) ++
      s.edges.flatMap EdgeGeometry.parts, P r := by
    simp only [List.forall_mem_append, List.forall_mem_map, List.forall_mem_flatMap]
    exact ⟨⟨hnodes, hframes⟩, hedges⟩
  have hparts : s.parts = s.nodes.map (·.bounds) ++ s.frames.map (·.bounds) ++
      s.edges.flatMap EdgeGeometry.parts :=
    List.filter_eq_self.2 fun r hr => h r (hall r hr)
  rw [hparts]
  refine ⟨hall, fun n hn => ?_, fun f hf => ?_, fun e he r hr => ?_⟩
  · exact List.mem_append_left _ (List.mem_append_left _ (List.mem_map_of_mem hn))
  · exact List.mem_append_left _ (List.mem_append_right _ (List.mem_map_of_mem hf))
  · exact List.mem_append_right _ (List.mem_flatMap_of_mem he hr)

/-- Every part of a scene is on a canvas that ends a margin beyond all of them. -/
theorem part_onCanvas (h : ∀ r ∈ s.parts, r.IsBounded ∧ r.InQuadrant)
    (hsize : s.canvas = s.extent margin) (hmargin : Is 24 margin) (hwidth : s.width < ofCount (2 ^ 27))
    (hheight : s.height < ofCount (2 ^ 27)) {r : Rect} (hr : r ∈ s.parts) :
    (s.canvas.width.isFinite = true ∧ s.canvas.height.isFinite = true) ∧ r.Spans 0 126 ∧
      r.OnCanvas s.canvas := by
  have hspans (r : Rect) (hr : r ∈ s.parts) : r.Spans 0 126 := (h r hr).1.spans (h r hr).2
  cases haround : Rect.unionAll? s.parts with
  | none =>
    cases hparts : s.parts with
    | nil => exact absurd hr (hparts ▸ List.not_mem_nil)
    | cons first rest => simp [hparts, Rect.unionAll?] at haround
  | some around =>
    obtain ⟨hall, hreached⟩ := Rect.spans_unionAll? le_rfl (by norm_num) le_rfl hspans haround
    rw [extent, haround] at hsize
    have hwidth : s.canvas.width < ofCount (2 ^ 27) := hwidth
    have hheight : s.canvas.height < ofCount (2 ^ 27) := hheight
    rw [hsize] at hwidth hheight ⊢
    obtain ⟨hfinite, hright⟩ := le_larger_add_margin hmargin (hspans r hr).across.finish
      hall.across.finish (hreached r hr).right hwidth
    obtain ⟨hfinite', hbottom⟩ := le_larger_add_margin hmargin (hspans r hr).down.finish
      hall.down.finish (hreached r hr).bottom hheight
    exact ⟨⟨hfinite, hfinite'⟩, hspans r hr, (h r hr).2, hright, hbottom⟩

/-- As long as units are no larger than 16, a scene with nothing before the origin is on its canvas. -/
theorem onCanvas_of_inQuadrant (hnodes : ∀ n ∈ s.nodes, n.bounds.IsBounded)
    (hframes : ∀ f ∈ s.frames, f.bounds.IsBounded)
    (hedges : ∀ e ∈ s.edges, ∀ r ∈ e.parts, r.IsBounded) (h : s.InQuadrant)
    (hsize : s.canvas = s.extent margin) (hmargin : Is 24 margin) (hwidth : s.width < ofCount (2 ^ 27))
    (hheight : s.height < ofCount (2 ^ 27)) : s.OnCanvas := by
  obtain ⟨hparts, hmemNodes, hmemFrames, hmemEdges⟩ :=
    forall_mem_parts (P := fun r => r.IsBounded ∧ r.InQuadrant) (fun r hr => hr.1.isFinite)
      (fun n hn => ⟨hnodes n hn, h.1 n hn⟩) (fun f hf => ⟨hframes f hf, h.2.1 f hf⟩)
      (fun e he r hr => ⟨hedges e he r hr, EdgeGeometry.inQuadrant_iff.1 (h.2.2 e he) r hr⟩)
  have hcanvas {r : Rect} := part_onCanvas hparts hsize hmargin hwidth hheight (r := r)
  refine ⟨fun n hn => (hcanvas (hmemNodes n hn)).2.2, fun f hf => (hcanvas (hmemFrames f hf)).2.2,
    fun e he => ?_⟩
  obtain ⟨hpoints, hstart, hfinish, hlabel⟩ :=
    EdgeGeometry.forall_mem_parts.1 fun r hr => hcanvas (hmemEdges e he r hr)
  have hpoint {p : Point} (hp : (s.canvas.width.isFinite = true ∧ s.canvas.height.isFinite = true) ∧
      p.bounds.Spans 0 126 ∧ p.bounds.OnCanvas s.canvas) : p.OnCanvas s.canvas :=
    Point.onCanvas_of_bounds hp.1.1 hp.1.2 hp.2.1 hp.2.2
  exact ⟨fun p hp => hpoint (hpoints p hp), hpoint hstart, hpoint hfinish,
    fun l hl => (hlabel l hl).2.2⟩

end Scene

theorem Graph.canvas_scene (g : Graph) (c : LayoutConfig) :
    (g.scene c).canvas = (g.scene c).extent c.margin := rfl

end Flowchart
