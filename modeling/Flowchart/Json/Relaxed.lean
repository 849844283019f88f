import Flowchart.Json.Reading
import Flowchart.Decimal.Reading
import Flowchart.Json.Relaxed.Name

namespace Flowchart.Json.Relaxed

def isLineEnd (c : Char) : Bool :=
  c == '\n' || c == '\r' || c.toNat == 0x2028 || c.toNat == 0x2029

def isSpace (c : Char) : Bool :=
  isLineEnd c || c == '\t' || c == '\x0b' || c == '\x0c' || c == ' ' || c.toNat == 0xA0 ||
    c.toNat == 0xFEFF || c.toNat == 0x1680 || (0x2000 ≤ c.toNat && c.toNat ≤ 0x200A) ||
    c.toNat == 0x202F || c.toNat == 0x205F || c.toNat == 0x3000

def closeComment? : List Char → Option (List Char)
  | [] => none
  | '*' :: '/' :: r => some r
  | _ :: r => closeComment? r

/-- The text without leading blanks and comments. A blank run or a comment takes a unit of fuel. -/
def skipFrom : (fuel : Nat) → List Char → List Char
  | 0, s => s
  | fuel + 1, s =>
    match s with
    | '/' :: '/' :: r => skipFrom fuel (r.dropWhile (!isLineEnd ·))
    | '/' :: '*' :: r =>
      match closeComment? r with
      | some r => skipFrom fuel r
      | none => s
    | c :: r => if isSpace c then skipFrom fuel r else s
    | [] => []

def skip (s : List Char) : List Char := skipFrom (s.length + 1) s

/-- The character that an escape of one character stands for: a digit other than zero and a line end
have no such meaning, and `x` and `u` begin longer escapes. -/
def escaped? (c : Char) : Option Char :=
  match c with
  | 'b' => some '\x08'
  | 'f' => some '\x0c'
  | 'n' => some '\n'
  | 'r' => some '\r'
  | 't' => some '\t'
  | 'v' => some '\x0b'
  | '0' => some '\x00'
  | c => if c.isDigit ∨ c = 'x' ∨ c = 'u' ∨ isLineEnd c then none else some c

def string? (quote : Char) (found : List RawChar) : List Char →
    Option (List RawChar × List Char)
  | [] => none
  | '\\' :: 'u' :: a :: b :: c :: d :: r => do
    let n ← Text.hexNumber? [a, b, c, d]
    string? quote (.unit n :: found) r
  | '\\' :: 'x' :: a :: b :: r => do
    let n ← Text.hexNumber? [a, b]
    string? quote (.char (Char.ofNat n) :: found) r
  | '\\' :: '\r' :: '\n' :: r => string? quote found r
  | '\\' :: c :: r =>
    match escaped? c with
    | some e => string? quote (.char e :: found) r
    | none => if isLineEnd c then string? quote found r else none
  | c :: r =>
    if c = quote then some (found.reverse, r)
    else if isLineEnd c ∨ c = '\\' then none
    else string? quote (.char c :: found) r

/-- The rest of a name and what follows it. An escaped unit may stand anywhere in a name. -/
def nameRest (found : List RawChar) : List Char → List RawChar × List Char
  | [] => (found.reverse, [])
  | '\\' :: 'u' :: a :: b :: c :: d :: r =>
    match Text.hexNumber? [a, b, c, d] with
    | some n => nameRest (.unit n :: found) r
    | none => (found.reverse, '\\' :: 'u' :: a :: b :: c :: d :: r)
  | c :: r => if isNamePart c then nameRest (.char c :: found) r else (found.reverse, c :: r)

def name? (s : List Char) : Option (List RawChar × List Char) :=
  match s with
  | '\\' :: 'u' :: a :: b :: c :: d :: r =>
    (Text.hexNumber? [a, b, c, d]).map fun n => nameRest [.unit n] r
  | c :: r => if isNameStart c then some (nameRest [.char c] r) else none
  | [] => none

/-- The character of a high and a low unit. Their twenty bits make its code point, in which bit 16 is
set besides: it is not added, so a pair whose high unit has that bit stands one plane below the
character that strict JSON reads. -/
def pairedChar (high low : Nat) : Char :=
  Char.ofNat (((high - 0xD800) * 0x400 + (low - 0xDC00)) ||| 0x10000)

def textOf? (text : List RawChar) : Option String := (plainText? pairedChar text).map String.ofList

def memberName? (s : List Char) : Option (String × List Char) := do
  let (text, r) ← match s with
    | '"' :: r => string? '"' [] r
    | '\x27' :: r => string? '\x27' [] r
    | s => name? s
  let name ← textOf? text
  pure (name, r)

def takeExponent (s : List Char) : List Char × List Char :=
  match s with
  | [] => ([], [])
  | c :: r =>
    if c = 'e' ∨ c = 'E' then
      let (sign, r) := match r with
        | '+' :: r => (['+'], r)
        | '-' :: r => (['-'], r)
        | r => ([], r)
      match someDigits? r with
      | some (digits, r) => (c :: sign ++ digits, r)
      | none => ([], s)
    else ([], s)

def takeLead (s : List Char) : List Char × List Char :=
  match s with
  | '0' :: r => (['0'], r)
  | s => Decimal.takeDigits s

def decimalText? (s : List Char) : Option (List Char × List Char) :=
  match takeLead s with
  | ([], '.' :: r) =>
    match someDigits? r with
    | some (digits, r) =>
      let (tail, r) := takeExponent r
      some ('.' :: digits ++ tail, r)
    | none => none
  | ([], _) => none
  | (lead, '.' :: r) =>
    let (digits, r) := Decimal.takeDigits r
    let (tail, r) := takeExponent r
    some (lead ++ '.' :: digits ++ tail, r)
  | (lead, r) =>
    let (tail, r) := takeExponent r
    some (lead ++ tail, r)

/-- The value of a decimal with an optional minus sign: whole, and then within 64 bits, when it has
neither a point nor an exponent. -/
def decimalValue? (negative : Bool) (text : List Char) : Option Json :=
  if text.all Char.isDigit then
    let n := Decimal.digitsValue 0 text
    if negative then
      if n ≤ 0x8000000000000000 then some (.number (.integer (-(n : Int)))) else none
    else if n < 0x8000000000000000 then some (.number (.integer n)) else none
  else do
    let (m, e) ← Decimal.readDecimal? text
    let x := Decimal.doubleOfDecimal m e
    if x.isFinite then some (.number (.double (if negative then -x else x))) else none

/-- A number at the start of a text, and the rest. A hexadecimal number takes no sign and 32 bits;
what is infinite or no number is `null`, and takes no plus sign. -/
def number? (s : List Char) : Option (Json × List Char) :=
  let (sign, r) : Option Bool × List Char := match s with
    | '+' :: r => (some false, r)
    | '-' :: r => (some true, r)
    | r => (none, r)
  let special (r : List Char) := if sign = some false then none else some (Json.null, r)
  match r with
  | 'I' :: 'n' :: 'f' :: 'i' :: 'n' :: 'i' :: 't' :: 'y' :: r => special r
  | 'N' :: 'a' :: 'N' :: r => special r
  | _ =>
    let hex : Option (List Char × List Char) := match r with
      | '0' :: x :: r =>
        if x = 'x' ∨ x = 'X' then
          match r.takeWhile (Text.hexValue? · |>.isSome) with
          | [] => none
          | digits => some (digits, r.dropWhile (Text.hexValue? · |>.isSome))
        else none
      | _ => none
    match hex with
    | some (digits, r) =>
      if sign.isSome then none
      else do
        let n ← Text.hexNumber? digits
        if n < 0x100000000 then some (.number (.integer n), r) else none
    | none => do
      let (text, r) ← decimalText? r
      let v ← decimalValue? (sign = some true) text
      pure (v, r)

mutual

def value? : (fuel : Nat) → List Char → Option (Json × List Char)
  | 0, _ => none
  | fuel + 1, s =>
    match s with
    | 'n' :: 'u' :: 'l' :: 'l' :: r => some (.null, r)
    | 't' :: 'r' :: 'u' :: 'e' :: r => some (.bool true, r)
    | 'f' :: 'a' :: 'l' :: 's' :: 'e' :: r => some (.bool false, r)
    | '"' :: r => do
      let (text, r) ← string? '"' [] r
      let text ← textOf? text
      pure (.string text, r)
    | '\x27' :: r => do
      let (text, r) ← string? '\x27' [] r
      let text ← textOf? text
      pure (.string text, r)
    | '\x7b' :: r =>
      match skip r with
      | '\x7d' :: r => some (.object [], r)
      | r => (members? fuel [] r).map fun (members, r) => (ofMembers members, r)
    | '[' :: r =>
      match skip r with
      | ']' :: r => some (.array [], r)
      | r => (items? fuel [] r).map fun (items, r) => (.array items, r)
    | s => number? s

def items? : (fuel : Nat) → (found : List Json) → List Char → Option (List Json × List Char)
  | 0, _, _ => none
  | fuel + 1, found, s => do
    let (v, r) ← value? fuel s
    match skip r with
    | ']' :: r => some ((v :: found).reverse, r)
    | ',' :: r =>
      match skip r with
      | ']' :: r => some ((v :: found).reverse, r)
      | r => items? fuel (v :: found) r
    | _ => none

def members? : (fuel : Nat) → (found : List (String × Json)) → List Char →
    Option (List (String × Json) × List Char)
  | 0, _, _ => none
  | fuel + 1, found, s => do
    let (name, r) ← memberName? s
    match skip r with
    | ':' :: r =>
      let (v, r) ← value? fuel (skip r)
      match skip r with
      | '\x7d' :: r => some (((name, v) :: found).reverse, r)
      | ',' :: r =>
        match skip r with
        | '\x7d' :: r => some (((name, v) :: found).reverse, r)
        | r => members? fuel ((name, v) :: found) r
      | _ => none
    | _ => none

end

def read? (s : List Char) : Option Json :=
  match value? (2 * s.length + 2) (skip s) with
  | some (v, r) => if (skip r).isEmpty then some v else none
  | none => none

end Flowchart.Json.Relaxed
