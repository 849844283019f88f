import Flowchart.Text.Pieces

namespace Flowchart.Svg

/-- A piece of markup; texts and the values of attributes are in the form in which they are written.
A leaf is an element that is closed at once; an element has content between its tags, which may be
nothing. -/
inductive Markup where
  | text (content : String)
  | leaf (tag : String) (attributes : List (String × String))
  | element (tag : String) (attributes : List (String × String)) (content : List Markup)

/-- The characters that are escaped, with their entities, in the order in which they are replaced.
The ampersand comes first, since the entities hold one. -/
def entities : List (Char × List Char) := [
  ('&', "&amp;".toList), ('<', "&lt;".toList), ('>', "&gt;".toList), ('"', "&quot;".toList),
  ('\x27', "&apos;".toList)]

/-- A text with entities in place of the characters that mean something in markup: each character is
replaced in the whole text before the next one is. -/
def escapeChars (s : List Char) : List Char :=
  entities.foldl (fun s (c, entity) => Text.replaceAll [c] entity s) s

def escape (s : String) : String := String.ofList (escapeChars s.toList)

def attributeText (attributes : List (String × String)) : String :=
  String.join (attributes.map fun (name, value) => " " ++ name ++ "=\"" ++ value ++ "\"")

mutual

def Markup.write : Markup → String
  | .text content => content
  | .leaf tag attributes => "<" ++ tag ++ attributeText attributes ++ "/>"
  | .element tag attributes content =>
    "<" ++ tag ++ attributeText attributes ++ ">" ++ writeAll content ++ "</" ++ tag ++ ">"

def writeAll : List Markup → String
  | [] => ""
  | m :: rest => m.write ++ writeAll rest

end

end Flowchart.Svg
