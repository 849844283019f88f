import Flowchart.Command.Arguments
import Flowchart.Command.Host
import Flowchart.Diagram
import Flowchart.Markdown

namespace Flowchart.Command

inductive Failure where
  | file (cause : FileError)
  | badText
  | badSettings
  | noDiagrams
  /-- One diagram in this form can only be written to a file. -/
  | formatNeedsOutput (format : Format)
  /-- Several diagrams can only be written to files. -/
  | severalNeedOutput
  /-- Diagrams are not turned into pixels here. -/
  | noPixels
  deriving DecidableEq, Repr

def Failure.message : Failure → String
  | .file cause => cause.message
  | .badText => "stream did not contain valid UTF-8"
  | .badSettings => "invalid config JSON"
  | .noDiagrams => "No flowchart diagrams found in input"
  | .formatNeedsOutput format => "Output path required for " ++ format.name ++ " output"
  | .severalNeedOutput => "Output path required for markdown input"
  | .noPixels => "PNG output requires the \x60png\x60 feature"

def isMarkdown (p : Path) : Bool := p.extension? == some "md" || p.extension? == some "markdown"

def nameInDirectory (format : Format) (number : Nat) : String :=
  "diagram-" ++ Nat.repr number ++ "." ++ format.name

def nameBesideFile (output : Path) (format : Format) (number : Nat) : String :=
  output.stem?.getD "diagram" ++ "-" ++ Nat.repr number ++ "." ++ format.name

def numberedPath (output : Path) (directory : Bool) (format : Format) (number : Nat) : Path :=
  if directory then output.child (nameInDirectory format number)
  else output.parent.child (nameBesideFile output format number)

def numberedPaths (output : Path) (directory : Bool) (format : Format) (count : Nat) : List Path :=
  (List.range count).map fun i => numberedPath output directory format (i + 1)

def Arguments.config (a : Arguments) (settings : Option Settings) : Config :=
  let c : Config := (settings.map ({} : Config).under).getD {}
  { c with render := { c.render with width := a.width, height := a.height } }

def Format.fileText? (d : Diagram) : Format → Option String
  | .svg => some d.svg
  | .json => some d.dump
  | .png => none

/-- A diagram as it is printed: a dump ends its line, SVG does not. -/
def Format.printedText? (d : Diagram) : Format → Option String
  | .svg => some d.svg
  | .json => some (d.dump ++ "\n")
  | .png => none

section
variable {m : Type → Type} [Monad m] [Host m]

def decode (bytes : ByteArray) : Except Failure String :=
  match String.fromUTF8? bytes with
  | some text => .ok text
  | none => .error .badText

def readText (p : Path) : ExceptT Failure m String := do
  match ← (Host.read p : m _) with
  | .ok bytes => ExceptT.mk (pure (decode bytes))
  | .error cause => throw (.file cause)

def readSettings : Option Path → ExceptT Failure m (Option Settings)
  | none => pure none
  | some p => do
    match Settings.read? (← readText p).toList with
    | some settings => pure (some settings)
    | none => throw .badSettings

def readSources (input : Option Path) : ExceptT Failure m (List String) := do
  match input.filter (!·.isDash) with
  | none =>
    let bytes ← (Host.input : m _)
    pure [← ExceptT.mk (pure (decode bytes))]
  | some p =>
    let text ← readText p
    if isMarkdown p then pure ((Markdown.blocks text.toList).map String.ofList) else pure [text]

def writeFile (format : Format) (d : Diagram) (p : Path) : ExceptT Failure m Unit := do
  match format.fileText? d with
  | none => throw .noPixels
  | some text =>
    match ← (Host.write p text : m _) with
    | .ok () => pure ()
    | .error cause => throw (.file cause)

def printDiagram (format : Format) (d : Diagram) : ExceptT Failure m Unit :=
  match format.printedText? d with
  | none => throw (.formatNeedsOutput format)
  | some text => (Host.print text : m Unit)

def writeFiles (format : Format) (config : Config) :
    List (String × Path) → ExceptT Failure m Unit
  | [] => pure ()
  | (source, p) :: rest => do
    writeFile format (.ofSource source config) p
    writeFiles format config rest

def writeSources (a : Arguments) (config : Config) : List String → ExceptT Failure m Unit
  | [] => throw .noDiagrams
  | [source] =>
    let d := Diagram.ofSource source config
    match a.output with
    | some p => writeFile a.format d p
    | none => printDiagram a.format d
  | sources =>
    match a.output with
    | none => throw .severalNeedOutput
    | some p => do
      let directory ← (Host.isDirectory p : m Bool)
      writeFiles a.format config
        (sources.zip (numberedPaths p directory a.format sources.length))

def run (a : Arguments) : ExceptT Failure m Unit := do
  let settings ← readSettings a.settings
  let sources ← readSources a.input
  writeSources a (a.config settings) sources

inductive Outcome where
  | done
  | failed (cause : Failure)
  | badArguments
  deriving DecidableEq, Repr

def Outcome.status : Outcome → Nat
  | .done => 0
  | .failed _ => 1
  | .badArguments => 2

def versionText : String := "flowscribe 0.1.0\n"

def usageText : String :=
  "Flowchart DSL to SVG/PNG/JSON\n\n" ++
  "Usage: flowscribe [OPTIONS]\n\n" ++
  "Options:\n" ++
  "  -i, --input <INPUT>                 Input file (.mmd or .md) or '-' for stdin\n" ++
  "  -o, --output <OUTPUT>               " ++
    "Output file. Defaults to stdout for SVG and JSON if omitted\n" ++
  "  -e, --outputFormat <OUTPUT_FORMAT>  " ++
    "Output format [default: svg] [possible values: svg, png, json]\n" ++
  "  -c, --configFile <CONFIG>           " ++
    "Config JSON file (theme, themeVariables, flowchart spacing)\n" ++
  "  -w, --width <WIDTH>                 " ++
    "Default canvas width for PNG rasterization [default: 1200]\n" ++
  "  -H, --height <HEIGHT>               " ++
    "Default canvas height for PNG rasterization [default: 800]\n" ++
  "  -h, --help                          Print help\n" ++
  "  -V, --version                       Print version\n"

def perform (words : List String) : m Outcome := do
  match Request.read? words with
  | none => pure .badArguments
  | some .help => do Host.print usageText; pure .done
  | some .version => do Host.print versionText; pure .done
  | some (.run a) =>
    match ← (run a).run with
    | .ok () => pure .done
    | .error cause => pure (.failed cause)

end
end Flowchart.Command
