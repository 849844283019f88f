import Flowchart.Json.Relaxed
import Flowchart.Source.Line
import Flowchart.Source.State

namespace Flowchart.Source

structure Document where
  graph : Graph
  init : Option Json

structure Progress where
  state : State := {}
  inNote : Bool := false
  init : Option Json := none

def readInit? (payload : List Char) : Option Json :=
  Json.read? payload <|> Json.Relaxed.read? payload

def Progress.readStatements (d : Defaults) (p : Progress) (line : List Char) : Progress :=
  let line := withoutComment line
  if line.isEmpty then p
  else if isNoteStart line then { p with inNote := !isWholeNote line }
  else
    { p with
      state := (statements line).foldl (fun s piece => s.apply d (Statement.read piece)) p.state }

/-- The progress after a line, when `parse` reads the objects of directives. A directive replaces the
one before it even when its object cannot be read. -/
def Progress.readBy (parse : List Char → Option Json) (d : Defaults) (p : Progress)
    (line : List Char) : Progress :=
  let line := Text.trim line
  if line.isEmpty then p
  else if p.inNote then { p with inNote := !isNoteEnd line }
  else
    match initPayload? line with
    | some payload => { p with init := parse payload }
    | none => if isComment line then p else p.readStatements d line

def Progress.read (d : Defaults) (p : Progress) (line : List Char) : Progress :=
  p.readBy readInit? d line

def readLines (d : Defaults) (source : List Char) : Progress :=
  (Text.lines source).foldl (Progress.read d) {}

/-- The document of a source, with the colours of a theme for what no style names. -/
def readWith (t : Theme) (source : String) : Document :=
  let progress := readLines (.ofTheme t) source.toList
  ⟨progress.state.finish, progress.init⟩

def read (source : String) : Document := readWith .standard source

def readGraph (source : String) : Graph := (read source).graph

end Flowchart.Source
