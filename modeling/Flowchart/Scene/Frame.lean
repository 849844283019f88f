import Flowchart.Config.Basic
import Flowchart.Scene.Basic

namespace Flowchart

def Rect.unionAll? : List Rect → Option Rect
  | [] => none
  | r :: rest => some (rest.foldl Rect.union r)

namespace Graph

def membersOf (g : Graph) (label : String) : List Node :=
  g.placedNodes.filter fun n => n.subgraph == some label

def frame? (g : Graph) (label : String) (c : LayoutConfig) : Option SubgraphFrame :=
  let members := g.membersOf label
  (Rect.unionAll? (members.filterMap Node.bounds)).map fun around =>
    let bounds := around.expand c.flowchart.subgraphMargin
    let inset := c.flowchart.subgraphLabelInset
    { label := label
      bounds := bounds
      labelAnchor := ⟨bounds.x + inset, bounds.y + inset⟩
      dashed := true
      members := members.map Node.id }

def frames (g : Graph) (c : LayoutConfig) : List SubgraphFrame :=
  g.subgraphLabels.filterMap (g.frame? · c)

end Graph
end Flowchart
