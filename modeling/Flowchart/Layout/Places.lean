import Flowchart.Config.Basic
import Flowchart.Layout.Layers

namespace Flowchart.Layout

def reset (c : LayoutConfig) (g : Graph) : Graph :=
  { g with
    nodes := g.nodes.mapPlaces fun _ n =>
      { n with position := none, rank := none, size := ⟨c.nodeWidth, c.nodeHeight⟩ }
    edges := g.edges.map Edge.clearPorts }

def longExtent (c : LayoutConfig) (d : Direction) : Float32 :=
  if d.isHorizontal then c.nodeWidth else c.nodeHeight

def crossExtent (c : LayoutConfig) (d : Direction) : Float32 :=
  if d.isHorizontal then c.nodeHeight else c.nodeWidth

def span (c : LayoutConfig) (d : Direction) (count : Nat) : Float32 :=
  if count = 0 then 0.0
  else
    Single.ofCount count * crossExtent c d + Single.ofCount (count - 1) * c.nodeSpacing

def widest (c : LayoutConfig) (d : Direction) (layers : List (List Nat)) : Float32 :=
  (layers.map fun layer => span c d layer.length).foldl Single.larger 0.0

def flowPoint (d : Direction) (long cross : Float32) : Point :=
  if d.isHorizontal then ⟨long, cross⟩ else ⟨cross, long⟩

def slotCorner (c : LayoutConfig) (d : Direction) (widest : Float32) (rank count slot : Nat) :
    Point :=
  let long := c.margin + Single.ofCount rank * (longExtent c d + c.rankSpacing)
  let start := c.margin + (widest - span c d count) / 2.0
  flowPoint d long (start + Single.ofCount slot * (crossExtent c d + c.nodeSpacing))

def slotOf? (layers : List (List Nat)) (i : Nat) : Option (Nat × Nat × Nat) := do
  let rank ← layers.findIdx? (·.contains i)
  let layer ← layers[rank]?
  let slot ← layer.idxOf? i
  pure (rank, slot, layer.length)

def place (c : LayoutConfig) (layers : List (List Nat)) (g : Graph) : Graph :=
  let widest := widest c g.direction layers
  { g with
    nodes := g.nodes.mapPlaces fun i n =>
      match slotOf? layers i with
      | some (rank, slot, count) =>
        { n with
          rank := some rank
          position := some (slotCorner c g.direction widest rank count slot) }
      | none => n }

end Flowchart.Layout
