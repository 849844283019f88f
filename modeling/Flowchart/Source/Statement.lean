import Flowchart.Source.Reference
import Flowchart.Source.Style
import Flowchart.Text.Word

namespace Flowchart.Source

inductive EdgeTargets where
  | all
  | numbers (indices : List Nat)
  deriving DecidableEq, Repr

inductive Statement where
  | header (direction : Direction)
  | beginSubgraph (name : String)
  | endSubgraph
  | defineClasses (names : List String) (properties : Properties)
  | assignClasses (ids classes : List String)
  | styleNodes (ids : List String) (properties : Properties)
  | styleEdges (source target : String) (properties : Properties)
  | styleLinks (targets : EdgeTargets) (properties : Properties)
  | chain (nodes : Chain)
  | node (reference : NodeRef)
  | nothing
  deriving DecidableEq

def afterWord? (word s : List Char) : Option (List Char) := word.isPrefixOf? s

def afterKeyword? (keyword : String) (s : List Char) : Option (List Char) :=
  match afterWord? keyword.toList s with
  | some (c :: r) => if Text.isBlank c then some (Text.trim (c :: r)) else none
  | _ => none

/-- The direction that a header gives: a keyword alone, or with one word after it. -/
def readHeader? (s : List Char) : Option Direction := do
  let r ← afterWord? "flowchart".toList s <|> afterWord? "graph".toList s
  match Text.trimEnd r with
  | [] => pure (.ofToken [])
  | c :: r =>
    let token := Text.trimStart (c :: r)
    if Text.isBlank c ∧ token.all Text.isWord then pure (.ofToken token) else none

def readSubgraph? (s : List Char) : Option String :=
  match afterWord? "subgraph".toList s with
  | some [] => some ""
  | some (c :: r) => if Text.isBlank c then some (String.ofList (Text.unquote (c :: r))) else none
  | none => none

/-- The target at the start of a styling statement, and the properties after it; `none` when one of
the two is missing. -/
def readStyled? (rest : List Char) : Option (List Char × Properties) :=
  let (target, properties) := Text.headAndRest rest
  let target := Text.trim target
  let properties := readProperties properties
  if target.isEmpty ∨ properties.entries.isEmpty then none else some (target, properties)

def readNames (s : List Char) : List String := (Text.items ',' s).map String.ofList

/-- The classes that a class statement gives: its last word names classes, the words before it
nodes. -/
def readAssignment (rest : List Char) : Statement :=
  match (Text.words rest).reverse with
  | classes :: id :: ids =>
    .assignClasses (readNames (Text.join [' '] (id :: ids).reverse)) (readNames classes)
  | _ => .nothing

def dropDashes (s : List Char) : List Char := (s.reverse.dropWhile (· == '-')).reverse

/-- What a style statement is about: an edge when its target has an arrow in it, else nodes. -/
def readStyle (rest : List Char) : Statement :=
  match readStyled? rest with
  | none => .nothing
  | some (target, properties) =>
    match Text.cutAtText? ['-', '>'] target with
    | some (source, target) =>
      let source := Text.trim (dropDashes source)
      let target := Text.trim target
      if source.isEmpty ∨ target.isEmpty then .nothing
      else .styleEdges (String.ofList source) (String.ofList target) properties
    | none => .styleNodes (readNames target) properties

/-- The edges that a link statement is about; what is no number is left out. -/
def readTargets (s : List Char) : EdgeTargets :=
  if s = "default".toList then .all
  else .numbers ((Text.pieces (· == ',') s).filterMap fun part =>
    Decimal.readCount? (Text.trim part))

def Statement.read (s : List Char) : Statement :=
  if let some direction := readHeader? s then .header direction
  else if s = "end".toList then .endSubgraph
  else if let some name := readSubgraph? s then .beginSubgraph name
  else if let some rest := afterKeyword? "classDef" s then
    match readStyled? rest with
    | some (names, properties) => .defineClasses (readNames names) properties
    | none => .nothing
  else if let some rest := afterKeyword? "class" s then readAssignment rest
  else if let some rest := afterKeyword? "style" s then readStyle rest
  else if let some rest := afterKeyword? "linkStyle" s then
    match readStyled? rest with
    | some (targets, properties) => .styleLinks (readTargets targets) properties
    | none => .nothing
  else if let some found := readChain? s then .chain found
  else if let some reference := readNode? s then .node reference
  else .nothing

structure Unkeyed (s : List Char) : Prop where
  header : readHeader? s = none
  notEnd : s ≠ "end".toList
  subgraph : readSubgraph? s = none
  styling : ∀ keyword ∈ ["classDef", "class", "style", "linkStyle"], afterKeyword? keyword s = none

/-- What no keyword begins is a chain, or else a node, or else nothing. -/
theorem Statement.read_of_unkeyed {s : List Char} (h : Unkeyed s) :
    Statement.read s = (readChain? s).elim ((readNode? s).elim .nothing .node) .chain := by
  have hclassDef := h.styling "classDef" (by simp)
  have hclass := h.styling "class" (by simp)
  have hstyle := h.styling "style" (by simp)
  have hlinkStyle := h.styling "linkStyle" (by simp)
  simp only [Statement.read, h.header, if_neg h.notEnd, h.subgraph, hclassDef, hclass, hstyle,
    hlinkStyle]
  cases readChain? s with
  | some found => rfl
  | none => cases readNode? s <;> rfl

end Flowchart.Source
