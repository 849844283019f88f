import Flowchart.Config.Basic
import Flowchart.Decimal.Reading
import Flowchart.Json.Reading
import Flowchart.Text.Pieces

/-! Every entry is optional, `null` is the same as absence, and names that are not known are
ignored. If one known entry has a value of the wrong kind, the settings as a whole say nothing. -/
namespace Flowchart

structure ThemeSettings where
  fontFamily : Option String
  fontSize : Option Float32
  primaryColor : Option String
  primaryTextColor : Option String
  primaryBorderColor : Option String
  lineColor : Option String
  edgeLabelBackground : Option String
  clusterBackground : Option String
  clusterBorder : Option String
  background : Option String

structure FlowSettings where
  nodeWidth : Option Float32
  nodeHeight : Option Float32
  nodeSpacing : Option Float32
  rankSpacing : Option Float32
  diagramPadding : Option Float32
  cornerRadius : Option Float32
  arrowSize : Option Float32
  edgeLabelFontSize : Option Float32
  edgeLabelPadding : Option Float32
  subgraphMargin : Option Float32

structure Settings where
  theme : Option String
  themeChanges : Option ThemeSettings
  flowchart : Option FlowSettings

namespace Settings

def themeNames : List String :=
  ["fontFamily", "fontSize", "primaryColor", "primaryTextColor", "primaryBorderColor", "lineColor",
    "edgeLabelBackground", "clusterBkg", "clusterBorder", "background"]

def flowNames : List String :=
  ["nodeWidth", "nodeHeight", "nodeSpacing", "rankSpacing", "diagramPadding", "cornerRadius",
    "arrowSize", "edgeLabelFontSize", "edgeLabelPadding", "subgraphMargin"]

def partNames : List String := ["theme", "themeVariables", "flowchart"]

def shape : Json.Shape :=
  .record [("theme", .any), ("themeVariables", .record (themeNames.map (·, .any))),
    ("flowchart", .record (flowNames.map (·, .any)))]

/-- The values of the named entries of a record, `null` for those that are missing. A record is an
object, or an array with exactly one value for each name. -/
def entries? (names : List String) : Json → Option (List Json)
  | .object members => some (names.map fun name => (members.lookup name).getD .null)
  | .array items => if items.length = names.length then some items else none
  | _ => none

/-- An optional entry: `null` or a value that `read` takes. -/
def optional {α : Type} (read : Json → Option α) : Json → Option (Option α)
  | .null => some none
  | v => (read v).map some

def text? : Json → Option String
  | .string s => some s
  | _ => none

def single? : Json → Option Float32
  | .number n => some n.toSingle
  | _ => none

/-- A font size: a number, or a text with a number and perhaps `px`. A text without a number is
taken, but changes nothing. -/
def fontSize? : Json → Option (Option Float32)
  | .number n => some (some n.toSingle)
  | .string s => some (Decimal.readSingle? (Text.withoutPixels (Text.trim s.toList)))
  | _ => none

def theme? (v : Json) : Option ThemeSettings := do
  match ← entries? themeNames v with
  | [family, size, primary, text, border, line, label, cluster, clusterBorder, background] =>
    pure {
      fontFamily := ← optional text? family
      fontSize := (← optional fontSize? size).join
      primaryColor := ← optional text? primary
      primaryTextColor := ← optional text? text
      primaryBorderColor := ← optional text? border
      lineColor := ← optional text? line
      edgeLabelBackground := ← optional text? label
      clusterBackground := ← optional text? cluster
      clusterBorder := ← optional text? clusterBorder
      background := ← optional text? background }
  | _ => none

def flow? (v : Json) : Option FlowSettings := do
  match ← entries? flowNames v with
  | [width, height, spacing, ranks, padding, corner, arrow, font, labelPadding, margin] =>
    pure {
      nodeWidth := ← optional single? width
      nodeHeight := ← optional single? height
      nodeSpacing := ← optional single? spacing
      rankSpacing := ← optional single? ranks
      diagramPadding := ← optional single? padding
      cornerRadius := ← optional single? corner
      arrowSize := ← optional single? arrow
      edgeLabelFontSize := ← optional single? font
      edgeLabelPadding := ← optional single? labelPadding
      subgraphMargin := ← optional single? margin }
  | _ => none

def ofJson? (v : Json) : Option Settings := do
  match ← entries? partNames v with
  | [theme, changes, flowchart] =>
    pure {
      theme := ← optional text? theme
      themeChanges := ← optional theme? changes
      flowchart := ← optional flow? flowchart }
  | _ => none

def read? (s : List Char) : Option Settings := (Json.readShaped? shape s).bind ofJson?

end Settings

def Theme.under (t : Theme) (s : ThemeSettings) : Theme where
  fontFamily := s.fontFamily.getD t.fontFamily
  fontSize := s.fontSize.getD t.fontSize
  primaryColor := s.primaryColor.getD t.primaryColor
  primaryTextColor := s.primaryTextColor.getD t.primaryTextColor
  primaryBorderColor := s.primaryBorderColor.getD t.primaryBorderColor
  lineColor := s.lineColor.getD t.lineColor
  edgeLabelBackground := s.edgeLabelBackground.getD t.edgeLabelBackground
  clusterBackground := s.clusterBackground.getD t.clusterBackground
  clusterBorder := s.clusterBorder.getD t.clusterBorder
  background := s.background.getD t.background

def LayoutConfig.under (c : LayoutConfig) (s : FlowSettings) : LayoutConfig :=
  { c with
    nodeWidth := s.nodeWidth.getD c.nodeWidth
    nodeHeight := s.nodeHeight.getD c.nodeHeight
    nodeSpacing := s.nodeSpacing.getD c.nodeSpacing
    rankSpacing := s.rankSpacing.getD c.rankSpacing
    margin := s.diagramPadding.getD c.margin
    flowchart :=
      { c.flowchart with
        cornerRadius := s.cornerRadius.getD c.flowchart.cornerRadius
        arrowSize := s.arrowSize.getD c.flowchart.arrowSize
        edgeLabelFontSize := s.edgeLabelFontSize.getD c.flowchart.edgeLabelFontSize
        edgeLabelPadding := s.edgeLabelPadding.getD c.flowchart.edgeLabelPadding
        subgraphMargin := s.subgraphMargin.getD c.flowchart.subgraphMargin } }

namespace Config

/-- The configuration with the theme of a name, if there is one; the canvas takes its background. -/
def withTheme (c : Config) (name : Option String) : Config :=
  match name.bind Theme.named? with
  | some t => { c with theme := t, render := { c.render with background := t.background } }
  | none => c

/-- The configuration with changes to its theme; the canvas follows a change of background. -/
def withVariables (c : Config) : Option ThemeSettings → Config
  | none => c
  | some s =>
    { c with
      theme := c.theme.under s
      render := { c.render with background := s.background.getD c.render.background } }

def withFlow (c : Config) : Option FlowSettings → Config
  | none => c
  | some s => { c with layout := c.layout.under s }

def under (c : Config) (s : Settings) : Config :=
  ((c.withTheme s.theme).withVariables s.themeChanges).withFlow s.flowchart

/-- The configuration under the settings that a value holds; a value that holds none changes
nothing. -/
def merge (c : Config) (v : Json) : Config :=
  match Settings.ofJson? v with
  | some s => c.under s
  | none => c

end Config
end Flowchart
