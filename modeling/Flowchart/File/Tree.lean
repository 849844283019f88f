import Flowchart.File.Path

namespace Flowchart

inductive FileError where
  | missing
  | notDirectory
  | isDirectory
  | nameTooLong
  | other (text : String)
  deriving DecidableEq, Repr

def FileError.message : FileError → String
  | .missing => "No such file or directory (os error 2)"
  | .notDirectory => "Not a directory (os error 20)"
  | .isDirectory => "Is a directory (os error 21)"
  | .nameTooLong => "File name too long (os error 36)"
  | .other text => text

inductive FileEntry where
  | directory
  | file (content : ByteArray)

abbrev Place := List String

structure FileTree where
  working : Place := []
  entries : List (Place × FileEntry) := []

namespace FileTree

def find? (t : FileTree) (p : Place) : Option FileEntry :=
  if p = [] then some .directory else t.entries.lookup p

def put (t : FileTree) (p : Place) (e : FileEntry) : FileTree :=
  { t with entries := (p, e) :: t.entries.filter (·.1 != p) }

/-- What is at a place after something is put somewhere below the root: that thing at its own place,
and all else as before. -/
theorem find?_put (t : FileTree) (p q : Place) (e : FileEntry) (h : p ≠ []) :
    (t.put p e).find? q = if q = p then some e else t.find? q := by
  by_cases hq : q = p
  · subst hq
    simp [find?, put, h]
  · have hqp : (q == p) = false := by simpa using hq
    have hkept : ∀ found : List (Place × FileEntry),
        (found.filter (·.1 != p)).lookup q = found.lookup q := by
      intro found
      induction found with
      | nil => rfl
      | cons entry rest ih =>
        obtain ⟨r, f⟩ := entry
        by_cases hr : r = p
        · subst hr
          simp [List.lookup_cons, hqp, ih]
        · simp [List.lookup_cons, hr, ih]
    simp [find?, put, hq, List.lookup_cons, hqp, hkept]

def putParents (t : FileTree) (p : Place) : FileTree :=
  ((List.range p.length).map p.take).foldl
    (fun t q => if (t.find? q).isSome then t else t.put q .directory) t

/-- The longest name that a directory can hold, in bytes. -/
def longestName : Nat := 255

def stepFrom (p : Place) (step : String) : Place :=
  if step = "." then p else if step = ".." then p.dropLast else p ++ [step]

/-- The place that the steps lead to. Each step has to start in a directory; where the last one
leads, there need not be anything yet. -/
def follow (t : FileTree) : Place → List String → Except FileError Place
  | p, [] => .ok p
  | p, step :: rest =>
    match t.find? p with
    | none => .error .missing
    | some (.file _) => .error .notDirectory
    | some .directory =>
      if longestName < step.utf8ByteSize then .error .nameTooLong
      else t.follow (stepFrom p step) rest

def start (t : FileTree) (p : Path) : Place := if p.absolute then [] else t.working

def place (t : FileTree) (p : Path) : Except FileError Place := t.follow (t.start p) p.steps

def isDirectory (t : FileTree) (p : Path) : Bool :=
  match t.place p with
  | .error _ => false
  | .ok place =>
    match t.find? place with
    | some .directory => true
    | _ => false

def read (t : FileTree) (p : Path) : Except FileError ByteArray := do
  let place ← t.place p
  match t.find? place with
  | none => throw .missing
  | some .directory => throw .isDirectory
  | some (.file content) => if p.slashed then throw .notDirectory else pure content

/-- The place where a file of this path is written. A path that names a new thing and ends with a
slash can only mean a directory. -/
def writable (t : FileTree) (p : Path) : Except FileError Place := do
  if p.slashed ∧ p.steps.getLast? ≠ some "." ∧ p.steps.getLast? ≠ some ".." then
    let _ ← t.follow (t.start p) (p.steps.dropLast ++ ["."])
    throw .isDirectory
  let place ← t.place p
  match t.find? place with
  | some .directory => throw .isDirectory
  | _ => pure place

def write (t : FileTree) (p : Path) (content : ByteArray) : Except FileError FileTree := do
  let place ← t.writable p
  pure (t.put place (.file content))

def filesBelow (t : FileTree) (p : Place) : List (List String × ByteArray) :=
  t.entries.filterMap fun (q, e) =>
    match p.isPrefixOf? q, e with
    | some names, .file content => some (names, content)
    | _, _ => none

end FileTree
end Flowchart
