import Flowchart.Theme

namespace Flowchart

structure FlowLayout where
  cornerRadius : Float32 := 8.0
  doubleRectInset : Float32 := 4.0
  arrowSize : Float32 := 8.0
  edgeLabelFontSize : Float32 := 12.0
  /-- The room a label needs along its segment beyond its width. -/
  edgeLabelPadding : Float32 := 8.0
  /-- The distance between a segment and its label. -/
  edgeLabelGap : Float32 := 4.0
  nodeFontMin : Float32 := 9.0
  nodeFontMax : Float32 := 16.0
  nodeTextPadding : Float32 := 12.0
  subgraphMargin : Float32 := 16.0
  subgraphLabelInset : Float32 := 6.0

structure LayoutConfig where
  nodeWidth : Float32 := 120.0
  nodeHeight : Float32 := 48.0
  /-- The gap between neighbours in a layer. -/
  nodeSpacing : Float32 := 40.0
  /-- The gap between neighbouring layers. -/
  rankSpacing : Float32 := 80.0
  margin : Float32 := 24.0
  labelLineHeight : Float32 := 1.5
  flowchart : FlowLayout := {}

structure RenderConfig where
  width : Float32 := 1200.0
  height : Float32 := 800.0
  background : String := "#FFFFFF"

structure Config where
  theme : Theme := .standard
  layout : LayoutConfig := {}
  render : RenderConfig := { background := Theme.standard.background }

end Flowchart
