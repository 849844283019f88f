import Flowchart.Proofs.Scene.Texts
import Flowchart.Proofs.Svg.Characters

namespace Flowchart

/-- A character of XML 1.0: a tab, a line feed, a carriage return, or one from the blank on that is
neither a surrogate nor one of the two last code points below the supplementary ones. -/
def isXmlChar (c : Char) : Bool :=
  c = '\t' || c = '\n' || c = '\r' || (0x20 ≤ c.toNat && c.toNat ≤ 0xD7FF) ||
    (0xE000 ≤ c.toNat && c.toNat ≤ 0xFFFD) || 0x10000 ≤ c.toNat

theorem isXmlChar_of_isPrintable {c : Char} (h : Svg.isPrintable c = true) : isXmlChar c = true := by
  have hrange : 0x20 ≤ c.toNat ∧ c.toNat ≤ 0x7E := by
    simpa [Svg.isPrintable] using h
  have hlegal : (0x20 ≤ c.toNat && c.toNat ≤ 0xD7FF) = true := by
    simp only [Bool.and_eq_true, decide_eq_true_eq]
    omega
  simp [isXmlChar, hlegal]

theorem legal_of_all (texts : List String)
    (h : (texts.all fun text => text.toList.all isXmlChar) = true) :
    ∀ text ∈ texts, ∀ c ∈ text.toList, isXmlChar c = true := by
  simpa only [List.all_eq_true] using h

namespace Diagram

variable {source : String} {base : Config}

/-- A character that XML does not allow is drawn just when it is in a text, if the theme has none. -/
theorem mem_svg_iff {c : Char} (hc : isXmlChar c = false)
    (htheme : ∀ text ∈ (ofSource source base).config.theme.texts, c ∉ text.toList) :
    c ∈ (ofSource source base).svg.toList ↔
      ∃ text ∈ (ofSource source base).scene.texts, c ∈ text.toList := by
  have hplain : Svg.isPrintable c = false := by
    rw [← Bool.not_eq_true]
    intro hprintable
    rw [isXmlChar_of_isPrintable hprintable] at hc
    exact absurd hc (by decide)
  exact Svg.mem_render_iff hplain htheme

/-- Under a theme of XML characters, a character that XML does not allow is in the drawing of a
source without a directive if and only if it is in one of the texts that are shown; the drawing of a
source of XML characters is made of XML characters. -/
theorem illegal_mem_svg_iff
    (htheme : ∀ text ∈ base.theme.texts, ∀ c ∈ text.toList, isXmlChar c = true)
    (hinit : (Source.readWith base.theme source).init = none) :
    (∀ c, isXmlChar c = false →
      (c ∈ (ofSource source base).svg.toList ↔
        ∃ text ∈ (ofSource source base).scene.texts, c ∈ text.toList)) ∧
      ((∀ c ∈ source.toList, isXmlChar c = true) →
        ∀ c ∈ (ofSource source base).svg.toList, isXmlChar c = true) := by
  have hiff : ∀ c, isXmlChar c = false →
      (c ∈ (ofSource source base).svg.toList ↔
        ∃ text ∈ (ofSource source base).scene.texts, c ∈ text.toList) := by
    intro c hc
    apply mem_svg_iff hc
    rw [config_ofSource_of_init hinit]
    intro text htext hmem
    rw [htheme text htext c hmem] at hc
    exact absurd hc (by decide)
  refine ⟨hiff, fun hsource c hc => ?_⟩
  by_contra hlegal
  rw [Bool.not_eq_true] at hlegal
  obtain ⟨text, htext, hmem⟩ := (hiff c hlegal).mp hc
  have horigin := hsource c ((texts_from_source source base text htext).subset hmem)
  rw [hlegal] at horigin
  exact absurd horigin (by decide)

/-- Characters beyond ASCII and the ones that are escaped are XML characters. -/
theorem accentedLabels_legal :
    (ofSource "A[\"é < \t 漢\"] -->|😀 & more| B" {}).svg.toList.all isXmlChar = true := by
  have htheme := legal_of_all ({} : Config).theme.texts (by decide +kernel)
  have hinit : (Source.readWith ({} : Config).theme "A[\"é < \t 漢\"] -->|😀 & more| B").init =
      none := by
    decide +kernel
  have hsource := List.all_eq_true.1
    (by decide +kernel : "A[\"é < \t 漢\"] -->|😀 & more| B".toList.all isXmlChar = true)
  exact List.all_eq_true.2 ((illegal_mem_svg_iff htheme hinit).2 hsource)

/-- A control character in a label is drawn as it is. -/
theorem controlCharacter_drawn :
    (∀ text ∈ (({} : Config).theme).texts, ∀ c ∈ text.toList, isXmlChar c = true) ∧
      (Source.readWith ({} : Config).theme "A[\x01]").init = none ∧
      ¬ ∀ c ∈ (ofSource "A[\x01]" {}).svg.toList, isXmlChar c = true := by
  have hinit : (Source.readWith ({} : Config).theme "A[\x01]").init = none := by decide +kernel
  have hshown : "\x01" ∈ (ofSource "A[\x01]" {}).scene.texts := by decide +kernel
  have htheme : ∀ text ∈ (ofSource "A[\x01]" {}).config.theme.texts, '\x01' ∉ text.toList := by
    rw [config_ofSource_of_init hinit]
    decide +kernel
  have hillegal : isXmlChar '\x01' = false := by decide
  refine ⟨legal_of_all _ (by decide +kernel), hinit, fun hlegal => ?_⟩
  have hdrawn := (mem_svg_iff hillegal htheme).mpr ⟨"\x01", hshown, by decide⟩
  rw [hlegal '\x01' hdrawn] at hillegal
  exact absurd hillegal (by decide)

end Diagram
end Flowchart
