import Flowchart.Decimal.Text
import Flowchart.Graph.Basic

namespace Flowchart

inductive Outline where
  | rect (bounds : Rect)
  | roundedRect (bounds : Rect) (radius : Float32)
  | polygon (points : List Point)
  | ellipse (center : Point) (rx ry : Float32)
  /-- Straight sides and half circles at the ends. -/
  | stadium (bounds : Rect) (radius : Float32)
  | doubleRect (outer inner : Rect)

structure NodeGeometry where
  id : String
  bounds : Rect
  outline : Outline
  label : String
  labelLines : List String
  labelAnchor : Point
  fontSize : Float32
  fill : Color
  border : Color
  borderWidth : Float32
  textColor : Color

structure EdgeLabel where
  text : String
  lines : List String
  anchor : Point
  width : Float32
  height : Float32
  fontSize : Float32

inductive ArrowGlyph where
  | chevron (tip left right : Point) (filled : Bool)
  | circle (center : Point) (radius : Float32)
  | cross (first second : Segment)

structure Route where
  start : Point
  firstBend : Point
  secondBend : Point
  finish : Point
  deriving DecidableEq

def Route.points (r : Route) : List Point := [r.start, r.firstBend, r.secondBend, r.finish]

def Route.middle (r : Route) : Segment := ⟨r.firstBend, r.secondBend⟩

structure EdgeGeometry where
  /-- The number of the edge in its graph. -/
  index : Nat
  source : String
  target : String
  route : Route
  /-- The middle of the route, made longer on both ends when a label needs more room. -/
  labelSegment : Segment
  label : Option EdgeLabel
  arrow : Option ArrowGlyph
  color : Color
  strokeWidth : Float32
  style : EdgeStyle

def EdgeGeometry.isExtended (e : EdgeGeometry) : Bool := !e.labelSegment.same e.route.middle

structure SubgraphFrame where
  label : String
  bounds : Rect
  labelAnchor : Point
  dashed : Bool
  members : List String

structure Scene where
  width : Float32 := 0.0
  height : Float32 := 0.0
  nodes : List NodeGeometry := []
  edges : List EdgeGeometry := []
  frames : List SubgraphFrame := []

inductive GeometryError where
  | nodeNotPlaced (id : String)
  | degenerateBounds (id : String) (width height : Float32)
  | missingEndpoint (source target missing : String)
  | unknownEdge (index : Nat)
  | missingPorts (source target : String)
  deriving DecidableEq

def GeometryError.message : GeometryError → String
  | .nodeNotPlaced id => "node `" ++ id ++ "` has no position"
  | .degenerateBounds id width height =>
    "node `" ++ id ++ "` has degenerate bounds " ++ Decimal.plainText (.ofSingle width) ++ "x" ++
      Decimal.plainText (.ofSingle height)
  | .missingEndpoint source target missing =>
    "edge " ++ source ++ " -> " ++ target ++ " references unknown node `" ++ missing ++ "`"
  | .unknownEdge index => "no edge at index " ++ Decimal.digitText index
  | .missingPorts source target => "edge " ++ source ++ " -> " ++ target ++ " has no assigned ports"

end Flowchart
