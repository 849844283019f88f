import Flowchart.Single

namespace Flowchart

open Single

structure Point where
  x : Float32
  y : Float32
  deriving DecidableEq

namespace Point

def zero : Point := ⟨0.0, 0.0⟩

def translate (p by' : Point) : Point := ⟨p.x + by'.x, p.y + by'.y⟩

def isFinite (p : Point) : Bool := p.x.isFinite && p.y.isFinite

/-- The coordinates are equal as numbers: zeros of both signs are, and what is no number is not. -/
def same (p q : Point) : Bool := p.x == q.x && p.y == q.y

end Point

structure Size where
  width : Float32
  height : Float32
  deriving DecidableEq

structure Rect where
  x : Float32
  y : Float32
  width : Float32
  height : Float32
  deriving DecidableEq

namespace Rect

def ofCorner (p : Point) (s : Size) : Rect := ⟨p.x, p.y, s.width, s.height⟩

def right (r : Rect) : Float32 := r.x + r.width

def bottom (r : Rect) : Float32 := r.y + r.height

def center (r : Rect) : Point := ⟨r.x + r.width / 2.0, r.y + r.height / 2.0⟩

def inset (r : Rect) (amount : Float32) : Rect :=
  ⟨r.x + amount, r.y + amount, larger (r.width - 2.0 * amount) 0.0,
    larger (r.height - 2.0 * amount) 0.0⟩

def expand (r : Rect) (margin : Float32) : Rect :=
  ⟨r.x - margin, r.y - margin, r.width + 2.0 * margin, r.height + 2.0 * margin⟩

def union (r s : Rect) : Rect :=
  let x := smaller r.x s.x
  let y := smaller r.y s.y
  ⟨x, y, larger r.right s.right - x, larger r.bottom s.bottom - y⟩

def isFinite (r : Rect) : Bool :=
  r.x.isFinite && r.y.isFinite && r.width.isFinite && r.height.isFinite

end Rect

structure Segment where
  start : Point
  finish : Point
  deriving DecidableEq

namespace Segment

def length (s : Segment) : Float32 :=
  let dx := s.finish.x - s.start.x
  let dy := s.finish.y - s.start.y
  (dx * dx + dy * dy).sqrt

def midpoint (s : Segment) : Point :=
  ⟨(s.start.x + s.finish.x) / 2.0, (s.start.y + s.finish.y) / 2.0⟩

/-- The ends are equal as numbers. -/
def same (s t : Segment) : Bool := s.start.same t.start && s.finish.same t.finish

end Segment
end Flowchart
