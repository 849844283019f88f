import Flowchart.Label
import Flowchart.Proofs.Layout.Port
import Flowchart.Proofs.Layout.Sweep
import Flowchart.Proofs.Single.Spacing

namespace Flowchart

open Single

/-- So few nodes, edges and lines of labels that no count of them is too large for a single. -/
structure Graph.Moderate (g : Graph) : Prop where
  nodes : g.nodes.size ≤ 2 ^ 112
  edges : g.edges.length ≤ 2 ^ 112
  lines : ∀ e ∈ g.edges, ∀ text ∈ e.label, (Label.lines text).length ≤ 2 ^ 112

namespace Layout

variable {g : Graph} {d : Direction}

theorem length_flatten_layers_le (g : Graph) : (layers g).flatten.length ≤ g.nodes.size := by
  have hlayered := (layers_layered g).1
  have hsub : (layers g).flatten ⊆ List.range g.nodes.size := by
    intro v hv
    obtain ⟨layer, hlayer, hmem⟩ := List.mem_flatten.1 hv
    obtain ⟨k, hk⟩ := List.getElem?_of_mem hlayer
    exact List.mem_range.2 (hlayered.depth k layer hk v hmem).1
  have hle := (hlayered.nodup.subperm hsub).length_le
  rwa [List.length_range] at hle

theorem length_layer_le {layer : List Nat} (h : layer ∈ layers g) : layer.length ≤ g.nodes.size := by
  refine le_trans ?_ (length_flatten_layers_le g)
  exact (List.sublist_flatten_of_mem h).length_le

theorem length_layers_le (g : Graph) : (layers g).length ≤ g.nodes.size := by
  refine le_trans ?_ (length_flatten_layers_le g)
  rw [List.length_flatten, ← (layers g).length_map (f := List.length)]
  refine List.length_le_sum_of_one_le _ fun n hn => ?_
  obtain ⟨layer, hlayer, rfl⟩ := List.mem_map.1 hn
  exact List.length_pos_of_ne_nil ((layers_layered g).1.nonempty layer hlayer)

/-- The slot of a node is in a layer, and there are no more of either than nodes. -/
theorem slotOf?_le {i rank slot count : Nat} (h : slotOf? (layers g) i = some (rank, slot, count)) :
    rank ≤ g.nodes.size ∧ slot ≤ g.nodes.size ∧ ∃ layer ∈ layers g, layer.length = count := by
  by_cases hi : i ∈ (layers g).flatten
  · obtain ⟨layer, hlayer, hmem⟩ := List.mem_flatten.1 hi
    obtain ⟨k, hk⟩ := List.getElem?_of_mem hlayer
    obtain ⟨s, hs, hslot⟩ := slotOf?_of_mem (layers_layered g).1.nodup hk hmem
    rw [h, Option.some.injEq, Prod.mk.injEq, Prod.mk.injEq] at hslot
    obtain ⟨rfl, rfl, rfl⟩ := hslot
    have hrank := (List.getElem?_eq_some_iff.1 hk).1
    have hslot := (List.getElem?_eq_some_iff.1 hs).1
    have hlayers := length_layers_le g
    have hlength := length_layer_le hlayer
    exact ⟨by omega, by omega, layer, hlayer, rfl⟩
  · rw [slotOf?_eq_none hi] at h
    exact absurd h (by simp)

theorem within_longExtent (d : Direction) : Within 48 120 (longExtent {} d) := by
  cases d with
  | leftRight => exact (is_literal 120 (by norm_num)).within.mono (by norm_num) le_rfl
  | topDown => exact (is_literal 48 (by norm_num)).within.mono le_rfl (by norm_num)

theorem within_crossExtent (d : Direction) : Within 48 120 (crossExtent {} d) := by
  cases d with
  | leftRight => exact (is_literal 48 (by norm_num)).within.mono le_rfl (by norm_num)
  | topDown => exact (is_literal 120 (by norm_num)).within.mono (by norm_num) le_rfl

theorem within_span {count : Nat} (h : count ≤ 2 ^ 112) : Within 0 (2 ^ 120) (span {} d count) := by
  unfold span
  by_cases hzero : count = 0
  · rw [if_pos hzero]
    exact is_zero.within.mono le_rfl (by norm_num)
  · rw [if_neg hzero]
    have hspacing : Is 40 ({} : LayoutConfig).nodeSpacing := is_literal 40 (by norm_num)
    have hnodes : Within 0 (2 ^ 119) (ofCount count * crossExtent {} d) :=
      (within_ofCount h (by norm_num)).mul (within_crossExtent d) le_rfl (by norm_num) isBound_zero
        (isBound_two_pow (by norm_num)) (by norm_num) (by norm_num)
    have hgaps : Within 0 (2 ^ 119) (ofCount (count - 1) * ({} : LayoutConfig).nodeSpacing) :=
      (within_ofCount (by omega : count - 1 ≤ 2 ^ 112) (by norm_num)).mul hspacing.within le_rfl
        (by norm_num) isBound_zero (isBound_two_pow (by norm_num)) (by norm_num) (by norm_num)
    exact hnodes.add hgaps isBound_zero (isBound_two_pow (by norm_num)) (by norm_num) (by norm_num)

/-- The widest layer takes at least as much room as any. -/
theorem within_widest (h : g.Moderate) :
    Within 0 (2 ^ 120) (widest {} d (layers g)) ∧
      ∀ layer ∈ layers g, value (span {} d layer.length) ≤ value (widest {} d (layers g)) := by
  have hspans : ∀ x ∈ (layers g).map fun layer => span {} d layer.length, Within 0 (2 ^ 120) x := by
    intro x hx
    obtain ⟨layer, hlayer, rfl⟩ := List.mem_map.1 hx
    exact within_span ((length_layer_le hlayer).trans h.nodes)
  have hstart : Within 0 (2 ^ 120) (0.0 : Float32) := is_zero.within.mono le_rfl (by norm_num)
  obtain ⟨hwithin, -, hle⟩ := hstart.foldl_larger hspans
  exact ⟨hwithin, fun layer hlayer => hle _ (List.mem_map_of_mem hlayer)⟩

/-- As far as some nodes with the gaps between them reach. -/
theorem within_steps {n : Nat} (h : n ≤ 2 ^ 112) {extent spacing : Float32}
    (hextent : Within 48 120 extent) (hspacing : Within 40 80 spacing) :
    Within 0 (2 ^ 120) (ofCount n * (extent + spacing)) := by
  have hstep : Within 0 (2 ^ 8) (extent + spacing) :=
    hextent.add hspacing isBound_zero (isBound_two_pow (by norm_num)) (by norm_num) (by norm_num)
  exact (within_ofCount h (by norm_num)).mul hstep le_rfl le_rfl isBound_zero
    (isBound_two_pow (by norm_num)) (by norm_num) (by norm_num)

/-- A layer begins no nearer than the margin, for it is no wider than the widest. -/
theorem within_start (h : g.Moderate) {layer : List Nat} (hlayer : layer ∈ layers g) :
    Within 24 (2 ^ 121) (({} : LayoutConfig).margin +
      (widest {} d (layers g) - span {} d layer.length) / 2.0) := by
  obtain ⟨hwidest, hspan⟩ := within_widest (d := d) h
  have hmargin : Is 24 ({} : LayoutConfig).margin := is_literal 24 (by norm_num)
  have hnarrow : Within 0 (2 ^ 120) (span {} d layer.length) :=
    within_span ((length_layer_le hlayer).trans h.nodes)
  have hlarge : IsBound (2 ^ 120) := isBound_two_pow (by norm_num)
  have hrest : Within 0 (2 ^ 120) (widest {} d (layers g) - span {} d layer.length) := by
    have hnonneg := sub_nonneg.2 (hspan layer hlayer)
    have hle : value (widest {} d (layers g)) - value (span {} d layer.length) ≤ 2 ^ 120 := by
      linarith [hwidest.ge, hnarrow.le]
    have hnearest := nearest_sub hwidest.isFinite hnarrow.isFinite
      (abs_le_of_bounds isBound_zero hlarge hnonneg hle)
    exact hnearest.within isBound_zero hlarge hnonneg hle
  have hhalf := hrest.div is_two.within le_rfl (by norm_num) isBound_zero hlarge (by norm_num)
    (by norm_num)
  exact hmargin.within.add hhalf (isBound_ofNat 24 (by norm_num)) (isBound_two_pow (by norm_num))
    (by norm_num) (by norm_num)

theorem within_slotCorner (h : g.Moderate) {i rank slot count : Nat}
    (hplace : slotOf? (layers g) i = some (rank, slot, count)) :
    Within 24 (2 ^ 122) (slotCorner {} d (widest {} d (layers g)) rank count slot).x ∧
      Within 24 (2 ^ 122) (slotCorner {} d (widest {} d (layers g)) rank count slot).y := by
  obtain ⟨hrank, hslot, layer, hlayer, rfl⟩ := slotOf?_le hplace
  have hmargin : Is 24 ({} : LayoutConfig).margin := is_literal 24 (by norm_num)
  have hrankSpacing : Is 80 ({} : LayoutConfig).rankSpacing := is_literal 80 (by norm_num)
  have hnodeSpacing : Is 40 ({} : LayoutConfig).nodeSpacing := is_literal 40 (by norm_num)
  have hlong : Within 24 (2 ^ 122) (({} : LayoutConfig).margin +
      ofCount rank * (longExtent {} d + ({} : LayoutConfig).rankSpacing)) := by
    have hsteps := within_steps (hrank.trans h.nodes) (within_longExtent d)
      (hrankSpacing.within.mono (by norm_num) le_rfl)
    exact hmargin.within.add hsteps (isBound_ofNat 24 (by norm_num)) (isBound_two_pow (by norm_num))
      (by norm_num) (by norm_num)
  have hcross : Within 24 (2 ^ 122) (({} : LayoutConfig).margin +
      (widest {} d (layers g) - span {} d layer.length) / 2.0 +
      ofCount slot * (crossExtent {} d + ({} : LayoutConfig).nodeSpacing)) := by
    have hsteps := within_steps (hslot.trans h.nodes) (within_crossExtent d)
      (hnodeSpacing.within.mono le_rfl (by norm_num))
    exact (within_start h hlayer).add hsteps (isBound_ofNat 24 (by norm_num))
      (isBound_two_pow (by norm_num)) (by norm_num) (by norm_num)
  unfold slotCorner flowPoint
  cases d with
  | leftRight => exact ⟨hlong, hcross⟩
  | topDown => exact ⟨hcross, hlong⟩

structure IsSlot (r : Rect) : Prop where
  x : Within 24 (2 ^ 122) r.x
  y : Within 24 (2 ^ 122) r.y
  width : Is 120 r.width
  height : Is 48 r.height

theorem isSlot_of_arrange (h : g.Moderate) {n : Node} (hn : n ∈ (g.arrange {}).nodes.values)
    {r : Rect} (hr : n.bounds = some r) : IsSlot r := by
  obtain ⟨⟨id, m⟩, hm, rfl⟩ := List.mem_map.1 hn
  obtain ⟨i, hi⟩ := List.getElem?_of_mem hm
  rw [getElem?_arrange] at hi
  obtain ⟨⟨_, node⟩, -, heq⟩ := Option.map_eq_some_iff.1 hi
  obtain ⟨rfl, rfl⟩ := Prod.mk.inj heq
  change ((placedNode {} g.direction (layers g) i node).position.map _) = some r at hr
  obtain ⟨p, hp, rfl⟩ := Option.map_eq_some_iff.1 hr
  obtain ⟨⟨rank, slot, count⟩, hslot, rfl⟩ := Option.map_eq_some_iff.1 hp
  obtain ⟨hx, hy⟩ := within_slotCorner (d := g.direction) h hslot
  exact ⟨hx, hy, is_literal 120 (by norm_num), is_literal 48 (by norm_num)⟩

/-- The middle of the side of a node. -/
theorem within_midpoint {r : Rect} (h : IsSlot r) (side : PortSide) :
    Within 24 (2 ^ 123) (side.midpoint r).x ∧ Within 24 (2 ^ 123) (side.midpoint r).y ∧
      (side.isVertical = false → Within 84 (2 ^ 123) (side.midpoint r).x) ∧
      (side.isVertical = true → Within 48 (2 ^ 123) (side.midpoint r).y) := by
  have hlarge : IsBound (2 ^ 123) := isBound_two_pow (by norm_num)
  have hleft : Within 24 (2 ^ 123) r.x := h.x.mono le_rfl (by norm_num)
  have htop : Within 24 (2 ^ 123) r.y := h.y.mono le_rfl (by norm_num)
  have hright : Within 24 (2 ^ 123) r.right :=
    h.x.add h.width.within (isBound_ofNat 24 (by norm_num)) hlarge (by norm_num) (by norm_num)
  have hbottom : Within 24 (2 ^ 123) r.bottom :=
    h.y.add h.height.within (isBound_ofNat 24 (by norm_num)) hlarge (by norm_num) (by norm_num)
  have hhalfWidth : Within 60 60 (r.width / 2.0) :=
    h.width.within.div is_two.within (by norm_num) (by norm_num) (isBound_ofNat 60 (by norm_num))
      (isBound_ofNat 60 (by norm_num)) (by norm_num) (by norm_num)
  have hhalfHeight : Within 24 24 (r.height / 2.0) :=
    h.height.within.div is_two.within (by norm_num) (by norm_num) (isBound_ofNat 24 (by norm_num))
      (isBound_ofNat 24 (by norm_num)) (by norm_num) (by norm_num)
  have hcenterX : Within 84 (2 ^ 123) r.center.x :=
    h.x.add hhalfWidth (isBound_ofNat 84 (by norm_num)) hlarge (by norm_num) (by norm_num)
  have hcenterY : Within 48 (2 ^ 123) r.center.y :=
    h.y.add hhalfHeight (isBound_ofNat 48 (by norm_num)) hlarge (by norm_num) (by norm_num)
  have hcenterX' := hcenterX.mono (by norm_num : (24 : ℝ) ≤ 84) le_rfl
  have hcenterY' := hcenterY.mono (by norm_num : (24 : ℝ) ≤ 48) le_rfl
  cases side with
  | left => exact ⟨hleft, hcenterY', nofun, fun _ => hcenterY⟩
  | right => exact ⟨hright, hcenterY', nofun, fun _ => hcenterY⟩
  | top => exact ⟨hcenterX', htop, fun _ => hcenterX, nofun⟩
  | bottom => exact ⟨hcenterX', hbottom, fun _ => hcenterX, nofun⟩

/-- Slots are counted from one end of a side, and offsets from its middle. -/
theorem within_along {slot count : Nat} (hslot : slot ≤ 2 ^ 112) (hcount : count ≤ 2 ^ 112)
    {length : Float32} {side half : ℝ} (hlength : Is side length) (hhalf : side = 2 * half)
    (hside : 0 ≤ side) (hbound : IsBound half) (hle : side ≤ 2 ^ 7) :
    Within (-half) (2 ^ 119)
      (ofCount slot * length / ofCount (count + 1) - length / 2.0) := by
  have hlarge : IsBound (2 ^ 119) := isBound_two_pow (by norm_num)
  have hslots : Within 0 (2 ^ 119) (ofCount slot * length) :=
    (within_ofCount hslot (by norm_num)).mul hlength.within le_rfl hside isBound_zero hlarge
      (by linarith) (by nlinarith)
  have hcounts : Within 1 (2 ^ 113) (ofCount (count + 1)) := by
    have hreal : ((count + 1 : ℕ) : ℝ) ≤ 2 ^ 113 := by
      have hnat : count + 1 ≤ 2 ^ 113 := by omega
      exact_mod_cast hnat
    have hone : (1 : ℝ) ≤ ((count + 1 : ℕ) : ℝ) := by
      push_cast
      linarith [(Nat.cast_nonneg count : (0 : ℝ) ≤ count)]
    exact (nearest_ofCount (hreal.trans (by norm_num))).within isBound_one
      (isBound_two_pow (by norm_num)) hone hreal
  have hquotient : Within 0 (2 ^ 119) (ofCount slot * length / ofCount (count + 1)) :=
    hslots.div hcounts le_rfl (by norm_num) isBound_zero hlarge (by norm_num) (by norm_num)
  have hmiddle : Within half half (length / 2.0) :=
    hlength.within.div is_two.within hside (by norm_num) hbound hbound (by linarith) (by linarith)
  exact hquotient.sub hmiddle hbound.neg hlarge (by linarith) (by linarith)

theorem within_anchor {r : Rect} (h : IsSlot r) (side : PortSide) {size : Size}
    (hwidth : Is 120 size.width) (hheight : Is 48 size.height) {slot count : Nat}
    (hslot : slot ≤ 2 ^ 112) (hcount : count ≤ 2 ^ 112) :
    Within 24 (2 ^ 124) (side.anchor r (side.offset (side.length size) slot count)).x ∧
      Within 24 (2 ^ 124) (side.anchor r (side.offset (side.length size) slot count)).y := by
  obtain ⟨hx, hy, hcenterX, hcenterY⟩ := within_midpoint h side
  have hmargin : IsBound 24 := isBound_ofNat 24 (by norm_num)
  have hlarge : IsBound (2 ^ 124) := isBound_two_pow (by norm_num)
  unfold PortSide.anchor PortSide.offset PortSide.length
  cases hside : side.isVertical with
  | true =>
    have halong := within_along hslot hcount hheight (by norm_num : (48 : ℝ) = 2 * 24) (by norm_num)
      (isBound_ofNat 24 (by norm_num)) (by norm_num)
    exact ⟨hx.add is_zero.within hmargin hlarge (by norm_num) (by norm_num),
      (hcenterY hside).add halong hmargin hlarge (by norm_num) (by norm_num)⟩
  | false =>
    have halong := within_along hslot hcount hwidth (by norm_num : (120 : ℝ) = 2 * 60) (by norm_num)
      (isBound_ofNat 60 (by norm_num)) (by norm_num)
    exact ⟨(hcenterX hside).add halong hmargin hlarge (by norm_num) (by norm_num),
      hy.add is_zero.within hmargin hlarge (by norm_num) (by norm_num)⟩

theorem size_of_arrange {n : Node} (hn : n ∈ (g.arrange {}).nodes.values) :
    Is 120 n.size.width ∧ Is 48 n.size.height := by
  obtain ⟨⟨id, m⟩, hm, rfl⟩ := List.mem_map.1 hn
  obtain ⟨i, hi⟩ := List.getElem?_of_mem hm
  rw [getElem?_arrange] at hi
  obtain ⟨⟨_, node⟩, -, heq⟩ := Option.map_eq_some_iff.1 hi
  obtain ⟨rfl, rfl⟩ := Prod.mk.inj heq
  exact ⟨is_literal 120 (by norm_num), is_literal 48 (by norm_num)⟩

/-- The sizes at the ends of an edge are those of nodes. -/
theorem sizes_of_ends? {e : Edge} {ends : Ends} (h : ends? (g.arrange {}) e = some ends) :
    (Is 120 ends.sourceSize.width ∧ Is 48 ends.sourceSize.height) ∧
      Is 120 ends.targetSize.width ∧ Is 48 ends.targetSize.height := by
  unfold ends? at h
  simp only [Option.bind_eq_bind, Option.bind_eq_some_iff] at h
  obtain ⟨⟨u, v⟩, -, first, hfirst, second, hsecond, hends⟩ := h
  split at hends
  · obtain rfl := Option.some.inj hends
    exact ⟨size_of_arrange (List.mem_of_getElem? hfirst),
      size_of_arrange (List.mem_of_getElem? hsecond)⟩
  · exact absurd hends (by simp)

/-- The ports of an edge are on the sides of two nodes, and no nearer to the left and the top than
the margin. -/
theorem within_ports (h : g.Moderate) {i : Nat} {e : Edge} (he : (g.arrange {}).edges[i]? = some e)
    {exit entry : PortSide} (hexit : e.exitPort = some exit) (hentry : e.entryPort = some entry)
    {first second : Rect} (hfirst : IsSlot first) (hsecond : IsSlot second) :
    (Within 24 (2 ^ 124) (exit.anchor first e.exitOffset).x ∧
      Within 24 (2 ^ 124) (exit.anchor first e.exitOffset).y) ∧
    Within 24 (2 ^ 124) (entry.anchor second e.entryOffset).x ∧
      Within 24 (2 ^ 124) (entry.anchor second e.entryOffset).y := by
  rw [getElem?_edges_arrange] at he
  obtain ⟨f, -, rfl⟩ := Option.map_eq_some_iff.1 he
  have hcounts {p : Ends → Bool} {edges : List Edge} (hedges : edges.length ≤ g.edges.length) :
      (edges.filterMap (ends? (g.arrange {}))).countP p ≤ 2 ^ 112 :=
    (List.countP_le_length.trans (List.length_filterMap_le _ _)).trans (hedges.trans h.edges)
  cases hends : ends? (g.arrange {}) f with
  | none =>
    rw [hends] at hexit
    exact absurd hexit (by simp [portedEdge, Edge.clearPorts])
  | some ends =>
    rw [hends] at hexit hentry
    obtain ⟨hsource, htarget⟩ := sizes_of_ends? hends
    obtain rfl := Option.some.inj hexit
    obtain rfl := Option.some.inj hentry
    have hbefore {p : Ends → Bool} :
        ((g.edges.take (i + 1)).filterMap (ends? (g.arrange {}))).reverse.countP p ≤ 2 ^ 112 := by
      rw [List.countP_reverse]
      exact hcounts (List.take_sublist _ _).length_le
    exact ⟨within_anchor hfirst g.direction.exitSide hsource.1 hsource.2 hbefore (hcounts le_rfl),
      within_anchor hsecond g.direction.entrySide htarget.1 htarget.2 hbefore (hcounts le_rfl)⟩

end Layout
end Flowchart
