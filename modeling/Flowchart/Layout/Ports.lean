import Flowchart.Layout.Layers

namespace Flowchart

namespace PortSide

def isVertical : PortSide → Bool
  | left | right => true
  | top | bottom => false

def midpoint (side : PortSide) (bounds : Rect) : Point :=
  let center := bounds.center
  match side with
  | left => ⟨bounds.x, center.y⟩
  | right => ⟨bounds.right, center.y⟩
  | top => ⟨center.x, bounds.y⟩
  | bottom => ⟨center.x, bounds.bottom⟩

def anchor (side : PortSide) (bounds : Rect) (offset : Point) : Point :=
  (side.midpoint bounds).translate offset

def length (side : PortSide) (size : Size) : Float32 :=
  if side.isVertical then size.height else size.width

/-- The offset of a slot, counted from one, when a side of some length has `count` slots. -/
def offset (side : PortSide) (length : Float32) (slot count : Nat) : Point :=
  let along := Single.ofCount slot * length / Single.ofCount (count + 1) - length / 2.0
  if side.isVertical then ⟨0.0, along⟩ else ⟨along, 0.0⟩

end PortSide

namespace Direction

def exitSide : Direction → PortSide
  | leftRight => .right
  | topDown => .bottom

def entrySide : Direction → PortSide
  | leftRight => .left
  | topDown => .top

end Direction

namespace Layout

structure Ends where
  source : Nat
  target : Nat
  sourceSize : Size
  targetSize : Size

def ends? (g : Graph) (e : Edge) : Option Ends := do
  let (source, target) ← g.endpoints? e
  let first ← g.nodes.values[source]?
  let second ← g.nodes.values[target]?
  if first.isPlaced && second.isPlaced then pure ⟨source, target, first.size, second.size⟩ else none

/-- Placed nodes are those with bounds, and these are as large as the nodes. -/
theorem ends?_eq_bind_bounds (g : Graph) (e : Edge) :
    ends? g e = (g.endpoints? e).bind fun (source, target) =>
      g.nodes.values[source]?.bind fun first => g.nodes.values[target]?.bind fun second =>
        first.bounds.bind fun r => second.bounds.map fun s =>
          ⟨source, target, ⟨r.width, r.height⟩, ⟨s.width, s.height⟩⟩ := by
  have hplaced (source target : Nat) (first second : Node) :
      (if first.isPlaced && second.isPlaced then
        some (Ends.mk source target first.size second.size) else none) =
      first.bounds.bind fun r => second.bounds.map fun s =>
        ⟨source, target, ⟨r.width, r.height⟩, ⟨s.width, s.height⟩⟩ := by
    rw [← Node.isSome_bounds, ← Node.isSome_bounds]
    unfold Node.bounds
    cases first.position <;> cases second.position <;> rfl
  simp only [ends?, Option.bind_eq_bind, Option.pure_def, hplaced]

def leaving (e : Ends) (edges : List Ends) : Nat := edges.countP (·.source == e.source)

def entering (e : Ends) (edges : List Ends) : Nat := edges.countP (·.target == e.target)

/-- An edge with its ports. `upTo` holds the ends of the edges up to this one, and `all` those of
all edges. -/
def withPorts (d : Direction) (all upTo : List Ends) (ends : Ends) (e : Edge) : Edge :=
  { e with
    exitPort := some d.exitSide
    entryPort := some d.entrySide
    exitOffset :=
      d.exitSide.offset (d.exitSide.length ends.sourceSize) (leaving ends upTo) (leaving ends all)
    entryOffset :=
      d.entrySide.offset (d.entrySide.length ends.targetSize) (entering ends upTo)
        (entering ends all) }

/-- The edges from the first one without ports on, with their ports. `before` holds the ends of the
edges before them, last one first. -/
def portsFrom (d : Direction) (all before : List Ends) : List (Edge × Option Ends) → List Edge
  | [] => []
  | (e, none) :: rest => e :: portsFrom d all before rest
  | (e, some ends) :: rest =>
    withPorts d all (ends :: before) ends e :: portsFrom d all (ends :: before) rest

/-- The graph with ports for the edges whose two ends are placed, and so have bounds
(`ends?_eq_bind_bounds`). -/
def assignPorts (g : Graph) : Graph :=
  let ends := g.edges.map (ends? g)
  { g with edges := portsFrom g.direction (ends.filterMap id) [] (g.edges.zip ends) }

end Layout
end Flowchart
