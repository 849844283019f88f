import Flowchart.Decimal.Text

namespace Flowchart

inductive Json.Number where
  | integer (n : Int)
  | double (x : Float)
  | single (x : Float32)

inductive Json where
  | null
  | bool (b : Bool)
  | number (n : Json.Number)
  | string (s : String)
  | array (items : List Json)
  | object (members : List (String × Json))

namespace Json

def Number.toSingle : Number → Float32
  | .integer n => Decimal.singleOfInt n
  | .double x => Decimal.singleOfDouble x
  | .single x => x

def ofSingle (x : Float32) : Json := if x.isFinite then .number (.single x) else .null

def ofNat (n : Nat) : Json := .number (.integer n)

def ofText? : Option String → Json
  | none => .null
  | some s => .string s

def ofOption {α : Type} (f : α → Json) : Option α → Json
  | none => .null
  | some a => f a

def ofTexts (texts : List String) : Json := .array (texts.map .string)

/-- The members with one more: a name that occurs keeps its place and takes the new value. -/
def putMember (members : List (String × Json)) (name : String) (value : Json) :
    List (String × Json) :=
  match members with
  | [] => [(name, value)]
  | (n, v) :: rest => if n = name then (n, value) :: rest else (n, v) :: putMember rest name value

/-- The object with the given members, of which the last of a name counts. -/
def ofMembers (members : List (String × Json)) : Json :=
  .object (members.foldl (fun found (name, value) => putMember found name value) [])

def get? (name : String) : Json → Option Json
  | .object members => members.lookup name
  | _ => none

def Number.text : Number → String
  | .integer n => Decimal.withSign (n < 0) (Decimal.digitText n.natAbs)
  | .double x => Decimal.jsonText .double (.ofDouble x)
  | .single x => Decimal.jsonText .single (.ofSingle x)

end Json
end Flowchart
