import Flowchart.Config.Settings

namespace Flowchart

open Json (ofSingle)

def Theme.toJson (t : Theme) : Json :=
  .object [("font_family", .string t.fontFamily), ("font_size", ofSingle t.fontSize),
    ("primary_color", .string t.primaryColor), ("primary_text_color", .string t.primaryTextColor),
    ("primary_border_color", .string t.primaryBorderColor), ("line_color", .string t.lineColor),
    ("edge_label_background", .string t.edgeLabelBackground),
    ("cluster_background", .string t.clusterBackground),
    ("cluster_border", .string t.clusterBorder), ("background", .string t.background)]

def FlowLayout.toJson (f : FlowLayout) : Json :=
  .object [("corner_radius", ofSingle f.cornerRadius),
    ("double_rect_inset", ofSingle f.doubleRectInset), ("arrow_size", ofSingle f.arrowSize),
    ("edge_label_font_size", ofSingle f.edgeLabelFontSize),
    ("edge_label_padding", ofSingle f.edgeLabelPadding),
    ("edge_label_gap", ofSingle f.edgeLabelGap), ("node_font_min", ofSingle f.nodeFontMin),
    ("node_font_max", ofSingle f.nodeFontMax), ("node_text_padding", ofSingle f.nodeTextPadding),
    ("subgraph_margin", ofSingle f.subgraphMargin),
    ("subgraph_label_inset", ofSingle f.subgraphLabelInset)]

def LayoutConfig.toJson (c : LayoutConfig) : Json :=
  .object [("node_width", ofSingle c.nodeWidth), ("node_height", ofSingle c.nodeHeight),
    ("node_spacing", ofSingle c.nodeSpacing), ("rank_spacing", ofSingle c.rankSpacing),
    ("margin", ofSingle c.margin), ("label_line_height", ofSingle c.labelLineHeight),
    ("flowchart", c.flowchart.toJson)]

def Config.toJson (c : Config) : Json :=
  .object [("theme", c.theme.toJson), ("layout", c.layout.toJson),
    ("render", .object [("width", ofSingle c.render.width), ("height", ofSingle c.render.height),
      ("background", .string c.render.background)])]

namespace Json

def textAt? (v : Json) (name : String) : Option String := (v.get? name).bind Settings.text?

def singleAt? (v : Json) (name : String) : Option Float32 := (v.get? name).bind Settings.single?

def overlay? : Json → Json → Option Json
  | .object members, .object changes => some (ofMembers (members ++ changes))
  | _, _ => none

end Json

def Theme.ofJson? (v : Json) : Option Theme := do
  pure {
    fontFamily := ← v.textAt? "font_family"
    fontSize := ← v.singleAt? "font_size"
    primaryColor := ← v.textAt? "primary_color"
    primaryTextColor := ← v.textAt? "primary_text_color"
    primaryBorderColor := ← v.textAt? "primary_border_color"
    lineColor := ← v.textAt? "line_color"
    edgeLabelBackground := ← v.textAt? "edge_label_background"
    clusterBackground := ← v.textAt? "cluster_background"
    clusterBorder := ← v.textAt? "cluster_border"
    background := ← v.textAt? "background" }

def FlowLayout.ofJson? (v : Json) : Option FlowLayout := do
  pure {
    cornerRadius := ← v.singleAt? "corner_radius"
    doubleRectInset := ← v.singleAt? "double_rect_inset"
    arrowSize := ← v.singleAt? "arrow_size"
    edgeLabelFontSize := ← v.singleAt? "edge_label_font_size"
    edgeLabelPadding := ← v.singleAt? "edge_label_padding"
    edgeLabelGap := ← v.singleAt? "edge_label_gap"
    nodeFontMin := ← v.singleAt? "node_font_min"
    nodeFontMax := ← v.singleAt? "node_font_max"
    nodeTextPadding := ← v.singleAt? "node_text_padding"
    subgraphMargin := ← v.singleAt? "subgraph_margin"
    subgraphLabelInset := ← v.singleAt? "subgraph_label_inset" }

def LayoutConfig.ofJson? (v : Json) : Option LayoutConfig := do
  pure {
    nodeWidth := ← v.singleAt? "node_width"
    nodeHeight := ← v.singleAt? "node_height"
    nodeSpacing := ← v.singleAt? "node_spacing"
    rankSpacing := ← v.singleAt? "rank_spacing"
    margin := ← v.singleAt? "margin"
    labelLineHeight := ← v.singleAt? "label_line_height"
    flowchart := ← (v.get? "flowchart").bind FlowLayout.ofJson? }

def Theme.replace? (t : Theme) (changes : Json) : Option Theme :=
  (t.toJson.overlay? changes).bind Theme.ofJson?

def LayoutConfig.replace? (c : LayoutConfig) (changes : Json) : Option LayoutConfig := do
  let inner ← match changes.get? "flowchart" with
    | some flow => c.flowchart.toJson.overlay? flow
    | none => some c.flowchart.toJson
  let whole ← c.toJson.overlay? changes
  let whole ← whole.overlay? (.object [("flowchart", inner)])
  LayoutConfig.ofJson? whole

end Flowchart
