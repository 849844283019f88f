import Flowchart.Decimal.Reading
import Flowchart.File.Path

namespace Flowchart.Command

inductive Format where
  | svg
  | png
  | json
  deriving DecidableEq, Repr

def Format.name : Format → String
  | .svg => "svg"
  | .png => "png"
  | .json => "json"

def Format.all : List Format := [.svg, .png, .json]

structure Arguments where
  input : Option Path := none
  output : Option Path := none
  format : Format := .svg
  settings : Option Path := none
  width : Float32 := 1200.0
  height : Float32 := 800.0

inductive Parameter where
  | input
  | output
  | format
  | settings
  | width
  | height
  deriving DecidableEq, Repr

namespace Parameter

def all : List Parameter := [.input, .output, .format, .settings, .width, .height]

def letter : Parameter → Char
  | .input => 'i'
  | .output => 'o'
  | .format => 'e'
  | .settings => 'c'
  | .width => 'w'
  | .height => 'H'

def name : Parameter → String
  | .input => "input"
  | .output => "output"
  | .format => "outputFormat"
  | .settings => "configFile"
  | .width => "width"
  | .height => "height"

end Parameter

/-- The path that a value names; an empty value names none. -/
def path? (value : List Char) : Option Path := if value.isEmpty then none else some (.ofText value)

def Arguments.set? (a : Arguments) (value : List Char) : Parameter → Option Arguments
  | .input => (path? value).map fun p => { a with input := some p }
  | .output => (path? value).map fun p => { a with output := some p }
  | .format =>
    (Format.all.find? fun f => f.name.toList == value).map fun f => { a with format := f }
  | .settings => (path? value).map fun p => { a with settings := some p }
  | .width => (Decimal.readSingle? value).map fun w => { a with width := w }
  | .height => (Decimal.readSingle? value).map fun h => { a with height := h }

inductive Word where
  | help
  | version
  /-- A parameter with its value in the same argument. -/
  | given (parameter : Parameter) (value : List Char)
  /-- A parameter whose value is the next argument. -/
  | wanting (parameter : Parameter)
  /-- Two dashes: no parameter follows. -/
  | stop
  /-- An argument that can be a value. -/
  | plain (text : List Char)
  | unknown

def Word.ofLetters (c : Char) (rest : List Char) : Word :=
  if c = 'h' then .help
  else if c = 'V' then .version
  else
    match Parameter.all.find? (·.letter == c), rest with
    | none, _ => .unknown
    | some p, [] => .wanting p
    | some p, '=' :: value => .given p value
    | some p, value => .given p value

def Word.ofName (name : List Char) (value : Option (List Char)) : Word :=
  match Parameter.all.find? (·.name.toList == name), value with
  | some p, some value => .given p value
  | some p, none => .wanting p
  | none, some _ => .unknown
  | none, none =>
    if name = "help".toList then .help
    else if name = "version".toList then .version
    else .unknown

/-- What an argument is. One dash alone is a value. -/
def Word.ofText : List Char → Word
  | ['-', '-'] => .stop
  | '-' :: '-' :: rest =>
    match Text.cutAt? (· == '=') rest with
    | some (name, value) => .ofName name (some value)
    | none => .ofName rest none
  | '-' :: c :: rest => .ofLetters c rest
  | text => .plain text

inductive Request where
  | run (arguments : Arguments)
  | help
  | version

structure Reading where
  arguments : Arguments := {}
  given : List Parameter := []

/-- The reading after a value for a parameter. No parameter is given twice. -/
def Reading.set? (r : Reading) (p : Parameter) (value : List Char) : Option Reading :=
  if p ∈ r.given then none
  else (r.arguments.set? value p).map fun a => ⟨a, p :: r.given⟩

def Reading.request? (r : Reading) : List (List Char) → Option Request
  | [] => some (.run r.arguments)
  | word :: rest =>
    match Word.ofText word, rest with
    | .help, _ => some .help
    | .version, _ => some .version
    | .given p value, rest => (r.set? p value).bind (·.request? rest)
    | .wanting p, next :: rest =>
      match Word.ofText next with
      | .plain value => (r.set? p value).bind (·.request? rest)
      | _ => none
    | .stop, [] => some (.run r.arguments)
    | _, _ => none

def Request.read? (words : List String) : Option Request :=
  Reading.request? {} (words.map String.toList)

end Flowchart.Command
