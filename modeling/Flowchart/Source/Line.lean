import Flowchart.Source.Connector

namespace Flowchart.Source

/-- A line without the comment at its end, which two percent signs outside quotes begin. -/
def dropComment (quoted : Bool) : List Char → List Char
  | [] => []
  | c :: r =>
    if quoted then c :: dropComment (c != '"') r
    else if c = '"' then c :: dropComment true r
    else if c = '%' ∧ r.head? = some '%' then []
    else c :: dropComment false r

def withoutComment (line : List Char) : List Char := Text.trim (dropComment false line)

/-- The line opens a note: its first word is `note`, and either the second one gives a side or the
line has a colon and no connector. A lone `note` does not. -/
def isNoteStart (line : List Char) : Bool :=
  match Text.words line with
  | [] => false
  | word :: rest =>
    Text.sameFolded word "note".toList &&
      ((rest.head?.any fun side =>
          ["left", "right", "over"].any fun name => Text.lower side == name.toList) ||
        (line.contains ':' && !hasConnector line))

/-- A note that is complete on its line has a colon. -/
def isWholeNote (line : List Char) : Bool := line.contains ':'

def isNoteEnd (line : List Char) : Bool :=
  match Text.words line with
  | [a, b] => Text.sameFolded a "end".toList && Text.sameFolded b "note".toList
  | _ => false

def closesDirective (s : List Char) : Bool :=
  "\x7d%%".toList.isPrefixOf (Text.trimStart s)

/-- The longest start of a text that a closing brace ends and the end of a directive follows. -/
def payloadBody? : List Char → Option (List Char)
  | [] => none
  | c :: r =>
    match payloadBody? r with
    | some body => some (c :: body)
    | none => if c = '\x7d' ∧ closesDirective r then some [c] else none

def afterBlanks? (word s : List Char) : Option (List Char) :=
  (word.isPrefixOf? s).map Text.trimStart

/-- The object that an `init` directive at the start of a line holds, as it is written: the longest
one that ends in a brace and is followed by the end of the directive. -/
def initPayload? (line : List Char) : Option (List Char) := do
  let r ← afterBlanks? "%%\x7b".toList line
  let r ← afterBlanks? "init".toList r
  let r ← afterBlanks? ":".toList r
  match r with
  | '\x7b' :: r => (payloadBody? r).map ('\x7b' :: ·)
  | _ => none

def isComment (line : List Char) : Bool := "%%".toList.isPrefixOf line

end Flowchart.Source
