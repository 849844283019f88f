import Flowchart.Proofs.Label.Lines
import Flowchart.Proofs.Single.Spacing

namespace Flowchart.Label

open Single

theorem within_of_le {x : Float32} (h : x.isFinite = true ∧ 0.0 ≤ x ∧ x ≤ 1.0) : Within 0 1 x := by
  obtain ⟨hfinite, hle, hge⟩ := h
  rw [le_iff is_zero.isFinite hfinite, is_zero.value_eq] at hle
  rw [le_iff hfinite is_one.isFinite, is_one.value_eq] at hge
  exact ⟨hfinite, hle, hge⟩

/-- No character is wider than the font is high. -/
theorem within_charWidth (c : Char) : Within 0 1 (charWidth c) := by
  unfold charWidth
  -- one step for each class of characters
  repeat refine iteInduction (fun _ => within_of_le (by decide +kernel)) fun _ => ?_
  exact within_of_le (by decide +kernel)

theorem is_negZero : Is 0 (-0.0 : Float32) := by
  refine ⟨by decide +kernel, ?_⟩
  have hparts : (-0.0 : Float32).toModel.unpack = .zero .negative := rfl
  rw [value, hparts, amount_zero]

theorem within_lineWidth (line : String) : Within 0 (2 ^ 29) (lineWidth line 12.0) := by
  have hsum : ∀ (cs : List Char) (x : Float32), Within 0 (2 ^ 25) x →
      Within 0 (2 ^ 25) (cs.foldl (fun sum c => sum + charWidth c) x) := by
    intro cs
    induction cs with
    | nil => exact fun x hx => hx
    | cons c cs ih => exact fun x hx => ih _ (hx.add_one (within_charWidth c))
  have hstart : Within 0 (2 ^ 25) (-0.0 : Float32) := is_negZero.within.mono le_rfl (by norm_num)
  have hsize : Is 12 (12.0 : Float32) := is_literal 12 (by norm_num)
  exact (hsum line.toList _ hstart).mul hsize.within le_rfl (by norm_num) isBound_zero
    (isBound_two_pow (by norm_num)) (by norm_num) (by norm_num)

theorem within_width (text : String) (lineHeight : Float32) :
    Within 0 (2 ^ 29) (measure text 12.0 lineHeight).width := by
  have hlines : ∀ x ∈ (lines text).map (lineWidth · 12.0), Within 0 (2 ^ 29) x := by
    intro x hx
    obtain ⟨line, -, rfl⟩ := List.mem_map.1 hx
    exact within_lineWidth line
  have hstart : Within 0 (2 ^ 29) (0.0 : Float32) := is_zero.within.mono le_rfl (by norm_num)
  exact (hstart.foldl_larger hlines).1

theorem within_height {text : String} (h : (lines text).length ≤ 2 ^ 112) :
    Within 0 (2 ^ 117) (measure text 12.0 1.5).height := by
  have hsize : Is 12 (12.0 : Float32) := is_literal 12 (by norm_num)
  have hlineHeight : Is (3 / 2) (1.5 : Float32) :=
    is_ofScientific (by norm_num) isBound_three_halves (by norm_num)
  have hrows : Within 0 (2 ^ 116) (ofCount (lines text).length * 12.0) :=
    (within_ofCount h (by norm_num)).mul hsize.within le_rfl (by norm_num) isBound_zero
      (isBound_two_pow (by norm_num)) (by norm_num) (by norm_num)
  exact hrows.mul hlineHeight.within le_rfl (by norm_num) isBound_zero
    (isBound_two_pow (by norm_num)) (by norm_num) (by norm_num)

theorem length_lines_le (text : String) : (lines text).length ≤ text.length + 1 := by
  rw [lines, splitLines_eq, List.length_map, List.length_map, ← text.length_toList]
  exact Text.length_piecesAtAny_le breaks 0 text.toList

end Flowchart.Label
