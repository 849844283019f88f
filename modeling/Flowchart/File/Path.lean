import Flowchart.Text.Pieces

/-! A path keeps the steps `.` and `..` as they are written, because what they mean depends on the
tree that they are taken in. Runs of slashes count as one slash. -/
namespace Flowchart

structure Path where
  /-- The path starts at the root. -/
  absolute : Bool
  /-- The names from one slash to the next; none of them is empty. -/
  steps : List String
  /-- A slash ends the path. -/
  slashed : Bool
  deriving DecidableEq, Repr

namespace Path

def ofText (s : List Char) : Path where
  absolute := s.head? = some '/'
  steps := (((Text.pieces (· == '/') s).filter (!·.isEmpty)).map String.ofList)
  slashed := s.getLast? = some '/'

def text (p : Path) : String :=
  let names := "/".intercalate p.steps
  match p.absolute, p.steps with
  | true, [] => "/"
  | true, _ => "/" ++ names ++ if p.slashed then "/" else ""
  | false, _ => names ++ if p.slashed then "/" else ""

def moves (p : Path) : List String := p.steps.filter (· != ".")

/-- The name at the end of a path; a path that ends with `..` has none. -/
def fileName? (p : Path) : Option String := p.moves.getLast?.filter (· != "..")

/-- A name cut at its last dot. A dot at the start of a name does not count. -/
def cutExtension (name : String) : String × Option String :=
  match Text.cutAt? (· == '.') name.toList.reverse with
  | none => (name, none)
  | some (_, []) => (name, none)
  | some (after, before) => (String.ofList before.reverse, some (String.ofList after.reverse))

def stem? (p : Path) : Option String := p.fileName?.map fun name => (cutExtension name).1

def extension? (p : Path) : Option String := p.fileName?.bind fun name => (cutExtension name).2

def parent (p : Path) : Path := { p with steps := p.moves.dropLast, slashed := false }

def child (p : Path) (name : String) : Path :=
  { p with steps := p.steps ++ [name], slashed := false }

def isDash (p : Path) : Bool := !p.absolute && p.steps.head? == some "-" && p.moves == ["-"]

end Path
end Flowchart
