import Flowchart.Config.Settings

/-! Names and fields are paired in two tables, one for the texts of a theme and one for the measures
of a layout, so that what is said of an entry is said once for all of them. -/
namespace Flowchart

namespace Json

def entry (v : Json) (name : String) : Json := (v.get? name).getD .null

def isRecord : Json → Bool
  | .null | .object _ => true
  | _ => false

def isText : Json → Bool
  | .null | .string _ => true
  | _ => false

def isMeasure : Json → Bool
  | .null | .number _ => true
  | _ => false

def isSize : Json → Bool
  | .null | .number _ | .string _ => true
  | _ => false

end Json

namespace Settings

def themeTexts : List (String × (Theme → String)) := [
  ("fontFamily", (·.fontFamily)), ("primaryColor", (·.primaryColor)),
  ("primaryTextColor", (·.primaryTextColor)), ("primaryBorderColor", (·.primaryBorderColor)),
  ("lineColor", (·.lineColor)), ("edgeLabelBackground", (·.edgeLabelBackground)),
  ("clusterBkg", (·.clusterBackground)), ("clusterBorder", (·.clusterBorder)),
  ("background", (·.background))]

def layoutMeasures : List (String × (LayoutConfig → Float32)) := [
  ("nodeWidth", (·.nodeWidth)), ("nodeHeight", (·.nodeHeight)), ("nodeSpacing", (·.nodeSpacing)),
  ("rankSpacing", (·.rankSpacing)), ("diagramPadding", (·.margin)),
  ("cornerRadius", (·.flowchart.cornerRadius)), ("arrowSize", (·.flowchart.arrowSize)),
  ("edgeLabelFontSize", (·.flowchart.edgeLabelFontSize)),
  ("edgeLabelPadding", (·.flowchart.edgeLabelPadding)),
  ("subgraphMargin", (·.flowchart.subgraphMargin))]

def unnamedMeasures : List (LayoutConfig → Float32) := [
  (·.labelLineHeight), (·.flowchart.doubleRectInset), (·.flowchart.edgeLabelGap),
  (·.flowchart.nodeFontMin), (·.flowchart.nodeFontMax), (·.flowchart.nodeTextPadding),
  (·.flowchart.subgraphLabelInset)]

structure ThemeTyped (v : Json) : Prop where
  texts : ∀ e ∈ themeTexts, (v.entry e.1).isText = true
  fontSize : (v.entry "fontSize").isSize = true

def FlowTyped (v : Json) : Prop :=
  ∀ e ∈ layoutMeasures, (v.entry e.1).isMeasure = true

structure WellTyped (v : Json) : Prop where
  theme : (v.entry "theme").isText = true
  changes : ThemeTyped (v.entry "themeVariables")
  measures : FlowTyped (v.entry "flowchart")

structure Shaped (v : Json) : Prop where
  object : ∃ members, v = .object members
  changes : (v.entry "themeVariables").isRecord = true
  flowchart : (v.entry "flowchart").isRecord = true

def namedTheme? (v : Json) : Option Theme := (text? (v.entry "theme")).bind Theme.named?

end Settings

open Settings

/-- Two configurations agree on all that settings have no name for. -/
structure Config.KeepsUnnamed (c r : Config) : Prop where
  unnamed : ∀ f ∈ unnamedMeasures, f r.layout = f c.layout
  width : r.render.width = c.render.width
  height : r.render.height = c.render.height

/-- A configuration comes out of another one under settings: every field has the value that the
entry with its name gives, else that of the theme that is named, else the one that it had. -/
structure Config.OverriddenBy (c : Config) (v : Json) (r : Config) : Prop
    extends c.KeepsUnnamed r where
  texts : ∀ e ∈ themeTexts, e.2 r.theme =
    (text? ((v.entry "themeVariables").entry e.1)).getD (e.2 ((namedTheme? v).getD c.theme))
  fontSize : r.theme.fontSize =
    (fontSize? ((v.entry "themeVariables").entry "fontSize")).join.getD
      ((namedTheme? v).getD c.theme).fontSize
  measures : ∀ e ∈ layoutMeasures, e.2 r.layout =
    (single? ((v.entry "flowchart").entry e.1)).getD (e.2 c.layout)
  background : r.render.background =
    if (namedTheme? v).isSome ∨ (text? ((v.entry "themeVariables").entry "background")).isSome then
      r.theme.background
    else c.render.background

namespace Settings

def Fits {α : Type} (read : Json → Option α) (v : Json) : Prop :=
  v = .null ∨ (read v).isSome = true

theorem fits_text_iff {v : Json} : Fits text? v ↔ v.isText = true := by
  cases v <;> simp [Fits, text?, Json.isText]

theorem fits_single_iff {v : Json} : Fits single? v ↔ v.isMeasure = true := by
  cases v <;> simp [Fits, single?, Json.isMeasure]

theorem fits_fontSize_iff {v : Json} : Fits fontSize? v ↔ v.isSize = true := by
  cases v <;> simp [Fits, fontSize?, Json.isSize]

theorem optional_eq_some_iff {α : Type} {read : Json → Option α} (hnull : read .null = none)
    {v : Json} {found : Option α} :
    optional read v = some found ↔ Fits read v ∧ found = read v := by
  by_cases hv : v = .null
  · subst hv
    simp [optional, Fits, hnull, eq_comm]
  · have hread : optional read v = (read v).map some := by
      unfold optional
      split
      · exact absurd rfl hv
      · rfl
    rw [hread, Fits, or_iff_right hv]
    cases read v with
    | none => simp
    | some a => simp [eq_comm]

/-- One entry after the other is read, and each has to fit. -/
theorem bind_optional_eq_some_iff {α β : Type} {read : Json → Option α} (hnull : read .null = none)
    {v : Json} {go : Option α → Option β} {b : β} :
    (optional read v).bind go = some b ↔ Fits read v ∧ go (read v) = some b := by
  rw [Option.bind_eq_some_iff]
  constructor
  · rintro ⟨found, hfound, hgo⟩
    obtain ⟨hfits, rfl⟩ := (optional_eq_some_iff hnull).1 hfound
    exact ⟨hfits, hgo⟩
  · rintro ⟨hfits, hgo⟩
    exact ⟨_, (optional_eq_some_iff hnull).2 ⟨hfits, rfl⟩, hgo⟩

theorem entries?_object (names : List String) (members : List (String × Json)) :
    entries? names (.object members) = some (names.map (Json.object members).entry) := rfl

def themeSettings (v : Json) : ThemeSettings where
  fontFamily := text? (v.entry "fontFamily")
  fontSize := (fontSize? (v.entry "fontSize")).join
  primaryColor := text? (v.entry "primaryColor")
  primaryTextColor := text? (v.entry "primaryTextColor")
  primaryBorderColor := text? (v.entry "primaryBorderColor")
  lineColor := text? (v.entry "lineColor")
  edgeLabelBackground := text? (v.entry "edgeLabelBackground")
  clusterBackground := text? (v.entry "clusterBkg")
  clusterBorder := text? (v.entry "clusterBorder")
  background := text? (v.entry "background")

def flowSettings (v : Json) : FlowSettings where
  nodeWidth := single? (v.entry "nodeWidth")
  nodeHeight := single? (v.entry "nodeHeight")
  nodeSpacing := single? (v.entry "nodeSpacing")
  rankSpacing := single? (v.entry "rankSpacing")
  diagramPadding := single? (v.entry "diagramPadding")
  cornerRadius := single? (v.entry "cornerRadius")
  arrowSize := single? (v.entry "arrowSize")
  edgeLabelFontSize := single? (v.entry "edgeLabelFontSize")
  edgeLabelPadding := single? (v.entry "edgeLabelPadding")
  subgraphMargin := single? (v.entry "subgraphMargin")

theorem themeTyped_iff {v : Json} : ThemeTyped v ↔
    (∀ e ∈ themeTexts, (v.entry e.1).isText = true) ∧ (v.entry "fontSize").isSize = true :=
  ⟨fun h => ⟨h.texts, h.fontSize⟩, fun h => ⟨h.1, h.2⟩⟩

theorem theme?_eq_some_iff {members : List (String × Json)} {s : ThemeSettings} :
    theme? (.object members) = some s ↔
      ThemeTyped (.object members) ∧ s = themeSettings (.object members) := by
  have htext := @bind_optional_eq_some_iff String ThemeSettings text? rfl
  have hsize := @bind_optional_eq_some_iff (Option Float32) ThemeSettings fontSize? rfl
  rw [theme?, entries?_object]
  simp only [themeNames, List.map_cons, List.map_nil, Option.bind_eq_bind, Option.bind_some,
    htext, hsize, fits_text_iff, fits_fontSize_iff, themeTyped_iff, themeTexts,
    List.forall_mem_cons, List.not_mem_nil, false_imp_iff, implies_true, and_true,
    Option.pure_def, Option.some.injEq, eq_comm (a := s)]
  rw [← themeSettings]
  -- the size is read second and stands last among what is typed
  simp only [and_assoc, and_left_comm]

theorem flow?_eq_some_iff {members : List (String × Json)} {s : FlowSettings} :
    flow? (.object members) = some s ↔
      FlowTyped (.object members) ∧ s = flowSettings (.object members) := by
  have hsingle := @bind_optional_eq_some_iff Float32 FlowSettings single? rfl
  rw [flow?, entries?_object]
  simp only [flowNames, List.map_cons, List.map_nil, Option.bind_eq_bind, Option.bind_some,
    hsingle, fits_single_iff, FlowTyped, layoutMeasures, List.forall_mem_cons, List.not_mem_nil,
    false_imp_iff, implies_true, and_true, Option.pure_def, Option.some.injEq, eq_comm (a := s),
    and_assoc]
  rw [← flowSettings]

section Part

variable {α : Type} {read : Json → Option α} {typed : Json → Prop} {settings : Json → α} {v : Json}
  (hobject : ∀ members s, read (.object members) = some s ↔
    typed (.object members) ∧ s = settings (.object members))

include hobject

theorem fits_part_iff (hnull : typed .null) (hv : v.isRecord = true) : Fits read v ↔ typed v := by
  cases v with
  | null => exact iff_of_true (.inl rfl) hnull
  | object members => simp [Fits, Option.isSome_iff_exists, hobject]
  | bool _ | number _ | string _ | array _ => exact absurd hv Bool.false_ne_true

theorem part_eq {β : Type} {f : Option α → β} (hnull : f (read .null) = f (some (settings .null)))
    (hv : v.isRecord = true) (htyped : typed v) : f (read v) = f (some (settings v)) := by
  cases v with
  | null => exact hnull
  | object members => rw [(hobject members _).2 ⟨htyped, rfl⟩]
  | bool _ | number _ | string _ | array _ => exact absurd hv Bool.false_ne_true

end Part

theorem themeTyped_null : ThemeTyped .null :=
  themeTyped_iff.2 ⟨by simp [Json.entry, Json.get?, Json.isText], rfl⟩

theorem flowTyped_null : FlowTyped .null := by
  simp [FlowTyped, Json.entry, Json.get?, Json.isMeasure]

theorem wellTyped_iff {v : Json} : WellTyped v ↔ (v.entry "theme").isText = true ∧
    ThemeTyped (v.entry "themeVariables") ∧ FlowTyped (v.entry "flowchart") :=
  ⟨fun h => ⟨h.theme, h.changes, h.measures⟩, fun h => ⟨h.1, h.2.1, h.2.2⟩⟩

theorem ofJson?_eq_some_iff {v : Json} {s : Settings} (hv : Shaped v) :
    ofJson? v = some s ↔ WellTyped v ∧
      s = ⟨text? (v.entry "theme"), theme? (v.entry "themeVariables"),
        flow? (v.entry "flowchart")⟩ := by
  have htext := @bind_optional_eq_some_iff String Settings text? rfl
  have htheme := @bind_optional_eq_some_iff ThemeSettings Settings theme? rfl
  have hflow := @bind_optional_eq_some_iff FlowSettings Settings flow? rfl
  have hchanges := fits_part_iff (fun _ _ => theme?_eq_some_iff) themeTyped_null hv.changes
  have hflowchart := fits_part_iff (fun _ _ => flow?_eq_some_iff) flowTyped_null hv.flowchart
  have hentries : entries? partNames v = some (partNames.map v.entry) := by
    obtain ⟨members, rfl⟩ := hv.object
    exact entries?_object partNames members
  rw [ofJson?, hentries, wellTyped_iff]
  simp only [partNames, List.map_cons, List.map_nil, Option.bind_eq_bind, Option.bind_some,
    htext, htheme, hflow, fits_text_iff, hchanges, hflowchart,
    Option.pure_def, Option.some.injEq, eq_comm (a := s), and_assoc]

end Settings

namespace Config

theorem withTheme_theme (c : Config) (name : Option String) :
    (c.withTheme name).theme = (name.bind Theme.named?).getD c.theme := by
  unfold withTheme
  split <;> simp [*]

theorem withTheme_layout (c : Config) (name : Option String) :
    (c.withTheme name).layout = c.layout := by
  unfold withTheme
  split <;> rfl

/-- The canvas takes the background of the theme, and nothing else of it changes. -/
theorem withTheme_render (c : Config) (name : Option String) :
    (c.withTheme name).render = { c.render with
      background := ((name.bind Theme.named?).map Theme.background).getD c.render.background } := by
  unfold withTheme
  split <;> simp [*]

/-- What settings say of a configuration when all entries are of the right kinds. -/
theorem merge_of_wellTyped (c : Config) {v : Json} (hv : Shaped v) (htyped : WellTyped v) :
    c.merge v =
      ((c.withTheme (text? (v.entry "theme"))).withVariables
        (some (themeSettings (v.entry "themeVariables")))).withFlow
        (some (flowSettings (v.entry "flowchart"))) := by
  have hchanges (c : Config) : c.withVariables (theme? (v.entry "themeVariables")) =
      c.withVariables (some (themeSettings (v.entry "themeVariables"))) :=
    part_eq (fun _ _ => theme?_eq_some_iff) rfl hv.changes htyped.changes
  have hflowchart (c : Config) : c.withFlow (flow? (v.entry "flowchart")) =
      c.withFlow (some (flowSettings (v.entry "flowchart"))) :=
    part_eq (fun _ _ => flow?_eq_some_iff) rfl hv.flowchart htyped.measures
  rw [merge, (ofJson?_eq_some_iff hv).2 ⟨htyped, rfl⟩, ← hflowchart, ← hchanges]
  rfl

/-- An entry of the wrong kind voids all others. -/
theorem merge_of_not_wellTyped (c : Config) {v : Json} (hv : Shaped v) (htyped : ¬ WellTyped v) :
    c.merge v = c := by
  cases hread : ofJson? v with
  | none => rw [merge, hread]
  | some s => exact absurd ((ofJson?_eq_some_iff hv).1 hread).1 htyped

theorem merge_overriddenBy (c : Config) {v : Json} (hv : Shaped v) (htyped : WellTyped v) :
    c.OverriddenBy v (c.merge v) := by
  rw [merge_of_wellTyped c hv htyped]
  have htheme := c.withTheme_theme (text? (v.entry "theme"))
  have hlayout := c.withTheme_layout (text? (v.entry "theme"))
  have hrender := c.withTheme_render (text? (v.entry "theme"))
  constructor
  case toKeepsUnnamed =>
    constructor <;> simp [unnamedMeasures, withFlow, withVariables, LayoutConfig.under, hlayout,
      hrender]
  case texts =>
    simp [themeTexts, withFlow, withVariables, Theme.under, themeSettings, namedTheme?, htheme]
  case fontSize =>
    simp [withFlow, withVariables, Theme.under, themeSettings, namedTheme?, htheme]
  case measures =>
    simp [layoutMeasures, withFlow, withVariables, LayoutConfig.under, flowSettings, hlayout]
  case background =>
    simp only [withFlow, withVariables, Theme.under, themeSettings, namedTheme?, htheme, hrender]
    -- a background of its own comes last, and is written to the theme and the canvas alike
    cases text? ((v.entry "themeVariables").entry "background") with
    | some own => simp
    | none => cases (text? (v.entry "theme")).bind Theme.named? <;> simp

end Config

theorem Theme.eq_of_texts {t t' : Theme} (htexts : ∀ e ∈ themeTexts, e.2 t = e.2 t')
    (hsize : t.fontSize = t'.fontSize) : t = t' := by
  simp only [themeTexts, List.forall_mem_cons] at htexts
  cases t
  cases t'
  simp_all

theorem LayoutConfig.eq_of_measures {c c' : LayoutConfig}
    (hmeasures : ∀ e ∈ layoutMeasures, e.2 c = e.2 c')
    (hunnamed : ∀ f ∈ unnamedMeasures, f c = f c') : c = c' := by
  simp only [layoutMeasures, unnamedMeasures, List.forall_mem_cons] at hmeasures hunnamed
  obtain ⟨_, _, _, _, _, _, flow⟩ := c
  obtain ⟨_, _, _, _, _, _, flow'⟩ := c'
  cases flow
  cases flow'
  simp_all

theorem Config.OverriddenBy.unique {c r r' : Config} {v : Json} (h : c.OverriddenBy v r)
    (h' : c.OverriddenBy v r') : r = r' := by
  have htheme : r.theme = r'.theme :=
    Theme.eq_of_texts (fun e he => (h.texts e he).trans (h'.texts e he).symm)
      (h.fontSize.trans h'.fontSize.symm)
  have hlayout : r.layout = r'.layout :=
    LayoutConfig.eq_of_measures (fun e he => (h.measures e he).trans (h'.measures e he).symm)
      (fun f hf => (h.unnamed f hf).trans (h'.unnamed f hf).symm)
  have hbackground : r.render.background = r'.render.background := by
    rw [h.background, h'.background, htheme]
  have hwidth := h.width.trans h'.width.symm
  have hheight := h.height.trans h'.height.symm
  obtain ⟨theme, layout, ⟨_, _, _⟩⟩ := r
  obtain ⟨theme', layout', ⟨_, _, _⟩⟩ := r'
  simp_all

theorem getD_getD_self {α : Type} (said : Option α) (a : α) :
    said.getD (said.getD a) = said.getD a := by
  cases said with
  | none => rfl
  | some b => rfl

theorem Theme.under_under (t : Theme) (s : ThemeSettings) : (t.under s).under s = t.under s := by
  simp only [Theme.under, getD_getD_self]

theorem LayoutConfig.under_under (c : LayoutConfig) (s : FlowSettings) :
    (c.under s).under s = c.under s := by
  simp only [LayoutConfig.under, getD_getD_self]

namespace Config

theorem withTheme_withFlow (c : Config) (name : Option String) (changes : Option FlowSettings) :
    (c.withFlow changes).withTheme name = (c.withTheme name).withFlow changes := by
  cases changes with
  | none => rfl
  | some own => cases hname : name.bind Theme.named? <;> simp [withTheme, withFlow, hname]

theorem withVariables_withFlow (c : Config) (own : Option ThemeSettings)
    (changes : Option FlowSettings) :
    (c.withFlow changes).withVariables own = (c.withVariables own).withFlow changes := by
  cases changes <;> cases own <;> rfl

theorem withFlow_withFlow (c : Config) (changes : Option FlowSettings) :
    (c.withFlow changes).withFlow changes = c.withFlow changes := by
  cases changes with
  | none => rfl
  | some own => simp [withFlow, LayoutConfig.under_under]

/-- The theme that is named is taken anew, so what was changed in it is changed again. -/
theorem withVariables_withTheme_again (c : Config) (name : Option String)
    (changes : Option ThemeSettings) :
    (((c.withTheme name).withVariables changes).withTheme name).withVariables changes =
      (c.withTheme name).withVariables changes := by
  cases hname : name.bind Theme.named? with
  -- without a theme the changes meet their own result; with one they meet what they met before
  | none =>
    cases changes with
    | none => simp [withTheme, withVariables, hname]
    | some own => simp [withTheme, withVariables, hname, Theme.under_under, getD_getD_self]
  | some named => cases changes <;> simp [withTheme, withVariables, hname]

theorem under_under (c : Config) (s : Settings) : (c.under s).under s = c.under s := by
  unfold under
  -- the layout is moved behind the theme, so that the two passes over each part are neighbours
  rw [withTheme_withFlow, withVariables_withFlow, withFlow_withFlow,
    withVariables_withTheme_again]

theorem merge_merge (c : Config) (v : Json) : (c.merge v).merge v = c.merge v := by
  unfold merge
  cases ofJson? v with
  | none => rfl
  | some s => exact c.under_under s

theorem under_background {c : Config} (s : Settings)
    (hc : c.render.background = c.theme.background) :
    (c.under s).render.background = (c.under s).theme.background := by
  have htheme : (c.withTheme s.theme).render.background =
      (c.withTheme s.theme).theme.background := by
    rw [withTheme_theme, withTheme_render]
    cases s.theme.bind Theme.named? with
    | none => exact hc
    | some named => rfl
  have hvariables : ((c.withTheme s.theme).withVariables s.themeChanges).render.background =
      ((c.withTheme s.theme).withVariables s.themeChanges).theme.background := by
    cases s.themeChanges with
    | none => exact htheme
    | some own => exact congrArg own.background.getD htheme
  unfold under
  cases s.flowchart with
  | none => exact hvariables
  | some flow => exact hvariables

theorem merge_background {c : Config} (v : Json)
    (hc : c.render.background = c.theme.background) :
    (c.merge v).render.background = (c.merge v).theme.background := by
  unfold merge
  cases ofJson? v with
  | none => exact hc
  | some s => exact under_background s hc

theorem foldl_merge_background {c : Config} (changes : List Json)
    (hc : c.render.background = c.theme.background) :
    (changes.foldl merge c).render.background = (changes.foldl merge c).theme.background := by
  induction changes generalizing c with
  | nil => exact hc
  | cons v rest ih => exact ih (merge_background v hc)

theorem merge_keepsUnnamed (c : Config) {v : Json} (hv : Shaped v) :
    c.KeepsUnnamed (c.merge v) := by
  by_cases htyped : WellTyped v
  · exact (merge_overriddenBy c hv htyped).toKeepsUnnamed
  · rw [merge_of_not_wellTyped c hv htyped]
    exact ⟨fun _ _ => rfl, rfl, rfl⟩

/-- Settings whose parts are records override a configuration field by field, or leave all of it as
it was when an entry is of the wrong kind. So they do nothing new a second time, and the canvas
keeps the background of the theme once it has it. -/
theorem merge_overrides (c : Config) (v : Json) (hv : Shaped v) :
    (¬ WellTyped v → c.merge v = c) ∧
      (WellTyped v → ∀ r, c.OverriddenBy v r ↔ r = c.merge v) ∧
      (c.merge v).merge v = c.merge v ∧
      c.KeepsUnnamed (c.merge v) ∧
      ∀ changes : List Json, (changes.foldl merge {}).render.background =
        (changes.foldl merge {}).theme.background := by
  have hrules (htyped : WellTyped v) (r : Config) : c.OverriddenBy v r ↔ r = c.merge v := by
    constructor
    · intro hr
      exact hr.unique (merge_overriddenBy c hv htyped)
    · rintro rfl
      exact merge_overriddenBy c hv htyped
  exact ⟨merge_of_not_wellTyped c hv, hrules, c.merge_merge v, merge_keepsUnnamed c hv,
    fun changes => foldl_merge_background changes rfl⟩

def sampleSettings : Json := .object [("theme", .string "modern"),
  ("themeVariables", .object [("primaryColor", .string "#ff0000"), ("fontSize", .string "14px")]),
  ("flowchart", .object [("nodeSpacing", .number (.integer 12))])]

theorem merge_sampleSettings : Shaped sampleSettings ∧ WellTyped sampleSettings ∧
    (merge {} sampleSettings).theme.primaryColor = "#ff0000" ∧
    (merge {} sampleSettings).theme.lineColor = Theme.modern.lineColor ∧
    (merge (merge {} sampleSettings) sampleSettings) = merge {} sampleSettings := by
  have hv : Shaped sampleSettings := ⟨⟨_, rfl⟩, rfl, rfl⟩
  have htyped : WellTyped sampleSettings := wellTyped_iff.2
    ⟨rfl, themeTyped_iff.2 ⟨by decide +kernel, rfl⟩, by unfold FlowTyped; decide +kernel⟩
  obtain ⟨-, hrules, hagain, -⟩ := merge_overrides {} sampleSettings hv
  have htexts := ((hrules htyped _).2 rfl).texts
  exact ⟨hv, htyped, htexts ("primaryColor", (·.primaryColor)) (by simp [themeTexts]),
    htexts ("lineColor", (·.lineColor)) (by simp [themeTexts]), hagain⟩

end Config
end Flowchart
