import Flowchart.Source.State

namespace Flowchart

namespace Script

open Source

def isNameChar (c : Char) : Bool := c.isAlphanum || c == '_'

/-- The words that are no names. The word `note` is none either, in any case. -/
def keywords : List (List Char) :=
  ["end", "subgraph", "graph", "flowchart", "class", "classDef", "style", "linkStyle"].map
    String.toList

structure Name where
  chars : List Char
  nonempty : chars ≠ []
  legal : ∀ c ∈ chars, isNameChar c = true
  free : chars ∉ keywords
  noNote : Text.sameFolded chars "note".toList = false

structure Inscription where
  chars : List Char
  unquoted : '"' ∉ chars
  oneLine : '\n' ∉ chars
  unmarked : ¬ classMarker <:+: chars

structure Caption where
  chars : List Char
  visible : ∃ c ∈ chars, Text.isBlank c = false
  legal : ∀ c ∈ chars, c ≠ '|' ∧ c ≠ '"' ∧ c ≠ '\n' ∧ isOpener c = false ∧ isCloser c = false
  uncommented : ¬ ['%', '%'] <:+: chars

structure Title where
  chars : List Char
  nonempty : chars ≠ []
  legal : ∀ c ∈ chars, Text.isLetter c = true ∨ Text.isDecimalDigit c = true

def brackets : List Wrapper := [
  ⟨"[".toList, "]".toList, .rectangle⟩,
  ⟨"[(".toList, ")]".toList, .roundRect⟩,
  ⟨"(".toList, ")".toList, .circle⟩,
  ⟨"([".toList, "])".toList, .stadium⟩,
  ⟨"[[".toList, "]]".toList, .doubleRect⟩,
  ⟨"<".toList, ">".toList, .diamond⟩,
  ⟨"\x7b".toList, "\x7d".toList, .diamond⟩,
  ⟨"\x7b\x7b".toList, "\x7d\x7d".toList, .hexagon⟩]

theorem mem_brackets_iff {w : Wrapper} : w ∈ brackets ↔ w ∈ wrappers :=
  ⟨(by decide : ∀ w ∈ brackets, w ∈ wrappers) w, (by decide : ∀ w ∈ wrappers, w ∈ brackets) w⟩

def arrows : List Connector := [
  ⟨"-->".toList, .solid, .arrow⟩,
  ⟨"---".toList, .solid, .bare⟩,
  ⟨"-->>".toList, .solid, .openArrow⟩,
  ⟨"--x".toList, .solid, .cross⟩,
  ⟨"--o".toList, .solid, .circle⟩,
  ⟨"-.->".toList, .dashed, .arrow⟩,
  ⟨"-.-".toList, .dotted, .bare⟩,
  ⟨"==>".toList, .thick, .arrow⟩,
  ⟨"==>>".toList, .thick, .openArrow⟩,
  ⟨"===".toList, .thick, .bare⟩]

theorem mem_arrows_iff {k : Connector} : k ∈ arrows ↔ k ∈ connectors :=
  ⟨(by decide : ∀ k ∈ arrows, k ∈ connectors) k, (by decide : ∀ k ∈ connectors, k ∈ arrows) k⟩

structure Dress where
  wrapper : Wrapper
  known : wrapper ∈ brackets
  text : Inscription

structure Mention where
  name : Name
  dress : Option Dress

structure Group where
  first : Mention
  others : List Mention

structure Hop where
  connector : Connector
  known : connector ∈ arrows
  caption : Option Caption
  group : Group

theorem Dress.mem_wrappers (d : Dress) : d.wrapper ∈ wrappers := mem_brackets_iff.1 d.known

theorem Hop.mem_connectors (h : Hop) : h.connector ∈ connectors := mem_arrows_iff.1 h.known

structure Path where
  start : Group
  hop : Hop
  hops : List Hop

inductive Items where
  | done
  | path (p : Path) (rest : Items)
  | node (m : Mention) (rest : Items)
  | subgraph (title : Title) (inside rest : Items)

def Dress.print (d : Dress) : List Char :=
  d.wrapper.opening ++ '"' :: d.text.chars ++ '"' :: d.wrapper.closing

def Mention.print (m : Mention) : List Char :=
  m.name.chars ++ m.dress.elim [] Dress.print

def Group.print (g : Group) : List Char :=
  g.first.print ++ g.others.flatMap fun m => [' ', '&', ' '] ++ m.print

def Caption.print (c : Caption) : List Char := '|' :: c.chars ++ ['|', ' ']

def Hop.print (h : Hop) : List Char :=
  ' ' :: h.connector.marker ++ ' ' :: h.caption.elim [] Caption.print ++ h.group.print

def Path.print (p : Path) : List Char := p.start.print ++ (p.hop :: p.hops).flatMap Hop.print

def Items.lines : Items → List (List Char)
  | done => []
  | path p rest => p.print :: rest.lines
  | node m rest => m.print :: rest.lines
  | subgraph title inside rest =>
    ("subgraph ".toList ++ title.chars) :: inside.lines ++ "end".toList :: rest.lines

def header : Direction → List Char
  | .leftRight => "flowchart LR".toList
  | .topDown => "flowchart TD".toList

end Script

/-- A source in canonical form. -/
structure Script where
  direction : Direction
  items : Script.Items

def Script.print (p : Script) : String :=
  String.ofList (Text.join ['\n'] (header p.direction :: p.items.lines))

namespace Script

open Source

def Mention.id (m : Mention) : String := String.ofList m.name.chars

/-- The node that a first mention inside a subgraph makes: a bare name is its own label, in a
rectangle. -/
def Mention.node (d : Defaults) (around : Option String) (m : Mention) : Node where
  id := m.id
  label := m.dress.elim m.id fun dress => String.ofList dress.text.chars
  shape := m.dress.elim .rectangle fun dress => dress.wrapper.shape
  position := none
  rank := none
  size := ⟨120.0, 48.0⟩
  fill := d.fill
  border := d.border
  borderWidth := 1.0
  textColor := d.text
  subgraph := around

def Group.mentions (g : Group) : List Mention := g.first :: g.others

def Path.mentions (p : Path) : List Mention :=
  p.start.mentions ++ (p.hop :: p.hops).flatMap fun h => h.group.mentions

/-- A label loses its outer blanks. -/
def Hop.edge (d : Defaults) (h : Hop) (source target : Mention) : Edge where
  source := source.id
  target := target.id
  label := h.caption.map fun c => String.ofList (Text.trim c.chars)
  color := d.edge
  strokeWidth := 1.4
  style := h.connector.style
  arrowhead := h.connector.arrowhead
  exitPort := none
  entryPort := none
  exitOffset := .zero
  entryOffset := .zero

def hopEdges (d : Defaults) (sources : Group) : List Hop → List Edge
  | [] => []
  | h :: rest =>
    (sources.mentions.flatMap fun a => h.group.mentions.map fun b => h.edge d a b) ++
      hopEdges d h.group rest

namespace Items

/-- Every mention of a node, with the innermost subgraph around it. -/
def mentions (around : Option String) : Items → List (Mention × Option String)
  | done => []
  | path p rest => p.mentions.map (·, around) ++ rest.mentions around
  | node m rest => (m, around) :: rest.mentions around
  | subgraph title inside rest =>
    inside.mentions (some (String.ofList title.chars)) ++ rest.mentions around

def edges (d : Defaults) : Items → List Edge
  | done => []
  | path p rest => hopEdges d p.start (p.hop :: p.hops) ++ rest.edges d
  | node _ rest => rest.edges d
  | subgraph _ inside rest => inside.edges d ++ rest.edges d

end Items

/-- The graph that a script means: a node for every name, as its first mention has it, and the edges
of all paths. -/
def graph (d : Defaults) (p : Script) : Graph where
  direction := p.direction
  nodes := (p.items.mentions none).foldl
    (fun nodes (m, around) => nodes.insertNew m.id (m.node d around)) .empty
  edges := p.items.edges d

end Script
end Flowchart
