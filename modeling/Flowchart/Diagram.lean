import Flowchart.Config.Settings
import Flowchart.Layout.Arrange
import Flowchart.Scene.Dump
import Flowchart.Source.Document
import Flowchart.Svg.Drawing

namespace Flowchart

structure Diagram where
  config : Config
  graph : Graph
  scene : Scene

def Theme.sameDefaults (t u : Theme) : Bool :=
  t.primaryColor == u.primaryColor && t.primaryBorderColor == u.primaryBorderColor &&
    t.primaryTextColor == u.primaryTextColor && t.lineColor == u.lineColor

namespace Diagram

/-- The diagram of a source under a configuration and the directive of the source. The source is
read once more when the directive has changed the colours that nodes and edges have by
themselves. -/
def ofSource (source : String) (base : Config) : Diagram :=
  let document := Source.readWith base.theme source
  let config := match document.init with
    | some settings => base.merge settings
    | none => base
  let graph :=
    if config.theme.sameDefaults base.theme then document.graph
    else (Source.readWith config.theme source).graph
  let graph := graph.arrange config.layout
  ⟨config, graph, graph.scene config.layout⟩

def svg (d : Diagram) : String := Svg.render d.scene d.config.theme

def dump (d : Diagram) : String := d.scene.dumpText d.graph

end Diagram
end Flowchart
