import Flowchart.Json.Basic
import Flowchart.Text.Hex

/-! The grammar of strict JSON is checked here in full. Whether a number is in range, whether
escaped units form characters, and how deep the nesting may go is asked only of the values that are
used. -/
namespace Flowchart.Json

inductive RawChar where
  | char (c : Char)
  | unit (n : Nat)

structure RawNumber where
  negative : Bool
  whole : List Char
  fraction : List Char
  exponent : Option (Bool × List Char)

inductive Raw where
  | null
  | bool (b : Bool)
  | number (n : RawNumber)
  | string (text : List RawChar)
  | array (items : List Raw)
  | object (members : List (List RawChar × Raw))

def isSpace (c : Char) : Bool := c == ' ' || c == '\n' || c == '\r' || c == '\t'

def skipSpace (s : List Char) : List Char := s.dropWhile isSpace

def escaped? : Char → Option Char
  | '"' => some '"'
  | '\\' => some '\\'
  | '/' => some '/'
  | 'b' => some '\x08'
  | 'f' => some '\x0c'
  | 'n' => some '\n'
  | 'r' => some '\r'
  | 't' => some '\t'
  | _ => none

/-- The rest of a string after its opening quote, and what follows the closing one. `found` holds
the parts before, last one first. -/
def rawString? (found : List RawChar) : List Char → Option (List RawChar × List Char)
  | [] => none
  | '"' :: r => some (found.reverse, r)
  | '\\' :: 'u' :: a :: b :: c :: d :: r => do
    let n ← Text.hexNumber? [a, b, c, d]
    rawString? (.unit n :: found) r
  | '\\' :: c :: r => do
    let e ← escaped? c
    rawString? (.char e :: found) r
  | c :: r => if c.toNat < 0x20 ∨ c = '\\' then none else rawString? (.char c :: found) r

def someDigits? (s : List Char) : Option (List Char × List Char) :=
  match s.takeWhile Char.isDigit with
  | [] => none
  | digits => some (digits, s.dropWhile Char.isDigit)

def wholeDigits? (s : List Char) : Option (List Char × List Char) :=
  match someDigits? s with
  | some ('0' :: _ :: _, _) => none
  | found => found

def rawNumber? (s : List Char) : Option (RawNumber × List Char) := do
  let (negative, s) := match s with
    | '-' :: r => (true, r)
    | s => (false, s)
  let (whole, s) ← wholeDigits? s
  let (fraction, s) ← match s with
    | '.' :: r => someDigits? r
    | s => some ([], s)
  match s with
  | c :: r =>
    if c = 'e' ∨ c = 'E' then
      let (down, r) := match r with
        | '-' :: r => (true, r)
        | '+' :: r => (false, r)
        | r => (false, r)
      let (digits, r) ← someDigits? r
      pure (⟨negative, whole, fraction, some (down, digits)⟩, r)
    else pure (⟨negative, whole, fraction, none⟩, s)
  | [] => pure (⟨negative, whole, fraction, none⟩, [])

mutual

/-- A value at the start of a text, and the rest. Every call uses up a unit of fuel. -/
def rawValue? : (fuel : Nat) → List Char → Option (Raw × List Char)
  | 0, _ => none
  | fuel + 1, s =>
    match skipSpace s with
    | [] => none
    | '\x7b' :: r =>
      match skipSpace r with
      | '\x7d' :: r => some (.object [], r)
      | r => (rawMembers? fuel [] r).map fun (members, r) => (.object members, r)
    | '[' :: r =>
      match skipSpace r with
      | ']' :: r => some (.array [], r)
      | r => (rawItems? fuel [] r).map fun (items, r) => (.array items, r)
    | '"' :: r => (rawString? [] r).map fun (text, r) => (.string text, r)
    | 'n' :: 'u' :: 'l' :: 'l' :: r => some (.null, r)
    | 't' :: 'r' :: 'u' :: 'e' :: r => some (.bool true, r)
    | 'f' :: 'a' :: 'l' :: 's' :: 'e' :: r => some (.bool false, r)
    | c :: r => (rawNumber? (c :: r)).map fun (n, r) => (.number n, r)

def rawItems? : (fuel : Nat) → (found : List Raw) → List Char → Option (List Raw × List Char)
  | 0, _, _ => none
  | fuel + 1, found, s => do
    let (v, r) ← rawValue? fuel s
    match skipSpace r with
    | ',' :: r => rawItems? fuel (v :: found) r
    | ']' :: r => some ((v :: found).reverse, r)
    | _ => none

def rawMembers? : (fuel : Nat) → (found : List (List RawChar × Raw)) → List Char →
    Option (List (List RawChar × Raw) × List Char)
  | 0, _, _ => none
  | fuel + 1, found, s =>
    match skipSpace s with
    | '"' :: r => do
      let (name, r) ← rawString? [] r
      match skipSpace r with
      | ':' :: r =>
        let (v, r) ← rawValue? fuel r
        match skipSpace r with
        | ',' :: r => rawMembers? fuel ((name, v) :: found) r
        | '\x7d' :: r => some (((name, v) :: found).reverse, r)
        | _ => none
      | _ => none
    | _ => none

end

/-- The one value that a whole text consists of. A call of a reader either opens a level, which
takes a character, or reads an item of one, so twice the length is fuel enough. -/
def Raw.read? (s : List Char) : Option Raw :=
  match rawValue? (2 * s.length + 2) s with
  | some (v, r) => if (skipSpace r).isEmpty then some v else none
  | none => none

end Flowchart.Json
