import Flowchart.Graph.Basic
import Flowchart.Source.Nesting

namespace Flowchart.Source

structure Connector where
  marker : List Char
  style : EdgeStyle
  arrowhead : Arrowhead
  deriving DecidableEq, Repr

/-- The connectors in order of preference. -/
def connectors : List Connector := [
  ⟨['-', '.', '-', '>'], .dashed, .arrow⟩,
  ⟨['-', '.', '-'], .dotted, .bare⟩,
  ⟨['=', '=', '>', '>'], .thick, .openArrow⟩,
  ⟨['=', '=', '>'], .thick, .arrow⟩,
  ⟨['=', '=', '='], .thick, .bare⟩,
  ⟨['-', '-', '>', '>'], .solid, .openArrow⟩,
  ⟨['-', '-', 'x'], .solid, .cross⟩,
  ⟨['-', '-', 'o'], .solid, .circle⟩,
  ⟨['-', '-', '>'], .solid, .arrow⟩,
  ⟨['-', '-', '-'], .solid, .bare⟩]

def connectorAt? (line : List Cell) : Option Connector :=
  connectors.find? fun k => startsShown k.marker line

/-- The text before the first connector, and every connector with the text that follows it up to the
next one. The counter says how many characters of a marker are still to be passed over. -/
def cutConnectors : (skip : Nat) → List Cell → List Char × List (Connector × List Char)
  | _, [] => ([], [])
  | skip + 1, _ :: r => cutConnectors skip r
  | 0, c :: r =>
    match connectorAt? (c :: r) with
    | some k =>
      let (token, links) := cutConnectors (k.marker.length - 1) r
      ([], (k, token) :: links)
    | none =>
      let (token, links) := cutConnectors 0 r
      (c.char :: token, links)

def splitConnectors? (line : List Char) : Option (List Char × List (Connector × List Char)) :=
  match cutConnectors 0 (cells line) with
  | (_, []) => none
  | found => some found

def hasConnector (line : List Char) : Bool := (splitConnectors? line).isSome

/-- Where a character of a token stands for the sake of pipes: they count outside quotes and
brackets, and brackets count between pipes too. -/
structure PipeNesting where
  quoted : Bool := false
  depth : Nat := 0
  deriving DecidableEq, Repr

namespace PipeNesting

def next (n : PipeNesting) (c : Char) : PipeNesting :=
  if n.quoted then { n with quoted := c != '"' }
  else if c = '"' then { n with quoted := true }
  else if isOpener c then { n with depth := n.depth + 1 }
  else if isCloser c then { n with depth := n.depth - 1 }
  else n

def isPipe (n : PipeNesting) (c : Char) : Bool := !n.quoted && n.depth == 0 && c == '|'

end PipeNesting

def cutAtPipe? (n : PipeNesting) : List Char → Option (List Char × PipeNesting × List Char)
  | [] => none
  | c :: r =>
    if n.isPipe c then some ([], n, r)
    else (cutAtPipe? (n.next c) r).map fun (before, n, after) => (c :: before, n, after)

/-- The label between the first two pipes of a token, and the token without it and its pipes. An
empty label is none; with fewer than two pipes the token is left whole. -/
def takeLabel (token : List Char) : Option (List Char) × List Char :=
  match cutAtPipe? {} token with
  | none => (none, token)
  | some (before, n, r) =>
    match cutAtPipe? n r with
    | none => (none, token)
    | some (inside, _, after) =>
      let label := Text.unquote inside
      (if label.isEmpty then none else some label, before ++ after)

end Flowchart.Source
