import Flowchart.Layout.Places
import Flowchart.Layout.Ports

namespace Flowchart

def Graph.arrange (c : LayoutConfig) (g : Graph) : Graph :=
  let g := Layout.reset c g
  Layout.assignPorts (Layout.place c (Layout.layers g) g)

end Flowchart
