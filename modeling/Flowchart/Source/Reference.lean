import Flowchart.Source.Connector

namespace Flowchart.Source

structure Wrapper where
  opening : List Char
  closing : List Char
  shape : NodeShape
  deriving DecidableEq, Repr

/-- The wrappers in order of preference: double brackets come before the single ones they begin
with. -/
def wrappers : List Wrapper := [
  ⟨['[', '['], [']', ']'], .doubleRect⟩,
  ⟨['(', '['], [']', ')'], .stadium⟩,
  ⟨['[', '('], [')', ']'], .roundRect⟩,
  ⟨['\x7b', '\x7b'], ['\x7d', '\x7d'], .hexagon⟩,
  ⟨['('], [')'], .circle⟩,
  ⟨['<'], ['>'], .diamond⟩,
  ⟨['\x7b'], ['\x7d'], .diamond⟩,
  ⟨['['], [']'], .rectangle⟩]

def Wrapper.inside? (w : Wrapper) (s : List Char) : Option (List Char) :=
  if w.opening.length + w.closing.length ≤ s.length ∧ w.opening.isPrefixOf s ∧
      w.closing.isSuffixOf s then
    some ((s.drop w.opening.length).take (s.length - w.opening.length - w.closing.length))
  else none

def wrapped? (s : List Char) : Option (List Char × NodeShape) :=
  wrappers.findSome? fun w => (w.inside? s).map fun inside => (Text.unquote inside, w.shape)

def isShapeOpener (c : Char) : Bool := isOpener c || c == '<'

structure NodeRef where
  id : String
  label : Option String
  shape : Option NodeShape
  classes : List String
  deriving DecidableEq, Repr

def classMarker : List Char := [':', ':', ':']

/-- What a token refers to by identifier and wrapper. The wrapper begins at the first character that
may begin one; a text that no wrapper closes belongs to the identifier, and without an identifier
the text in the wrapper takes its place. -/
def readBase? (base : List Char) : Option (List Char × Option (List Char × NodeShape)) :=
  let text := Text.trim base
  if text.isEmpty then none
  else
    match wrapped? (text.dropWhile (!isShapeOpener ·)) with
    | none => some (text, none)
    | some (label, shape) =>
      let id := Text.trim (text.takeWhile (!isShapeOpener ·))
      let id := if id.isEmpty then label else id
      if id.isEmpty then none else some (id, some (label, shape))

def readRef? (token : List Char) : Option NodeRef :=
  match Text.splitAt classMarker token with
  | [] => none
  | base :: classes =>
    (readBase? base).map fun (id, wrapper) => {
      id := String.ofList id
      label := wrapper.map fun (label, _) => String.ofList label
      shape := wrapper.map (·.2)
      classes := ((classes.map Text.trim).filter (!·.isEmpty)).map String.ofList }

def readGroup? (token : List Char) : Option (List NodeRef) := (groupParts token).mapM readRef?

structure Link where
  connector : Connector
  label : Option String
  group : List NodeRef
  deriving DecidableEq, Repr

structure Chain where
  first : List NodeRef
  links : List Link
  deriving DecidableEq, Repr

/-- The links of a chain. The label of a connector stands in the token after it; `early` is a label
in front of the first connector, which goes before the one after it. -/
def readLinks? (early : Option (List Char)) : List (Connector × List Char) → Option (List Link)
  | [] => some []
  | (connector, token) :: rest => do
    let (late, nodes) := takeLabel token
    let group ← readGroup? nodes
    let links ← readLinks? none rest
    pure (⟨connector, (early <|> late).map String.ofList, group⟩ :: links)

def readChain? (line : List Char) : Option Chain := do
  let (token, rest) ← splitConnectors? line
  let (early, nodes) := takeLabel token
  let first ← readGroup? nodes
  let links ← readLinks? early rest
  pure ⟨first, links⟩

/-- The node that a line consists of: its identifier holds no blank. -/
def readNode? (line : List Char) : Option NodeRef :=
  (readRef? line).filter fun r => !r.id.toList.any Text.isBlank

theorem Wrapper.eq_of_inside? {w : Wrapper} {s inside : List Char} (h : w.inside? s = some inside) :
    s = w.opening ++ inside ++ w.closing := by
  unfold Wrapper.inside? at h
  split at h
  · next hfits =>
    obtain ⟨hlength, hprefix, hsuffix⟩ := hfits
    obtain ⟨r, rfl⟩ := List.isPrefixOf_iff_prefix.1 hprefix
    have hr : w.closing <:+ r := by
      refine List.suffix_of_suffix_length_le (List.isSuffixOf_iff_suffix.1 hsuffix)
        (List.suffix_append _ _) ?_
      rw [List.length_append] at hlength
      omega
    obtain ⟨m, rfl⟩ := hr
    have hinside : m = inside := by simpa using h
    rw [hinside, List.append_assoc]
  · exact absurd h (by simp)

theorem exists_of_wrapped? {s label : List Char} {shape : NodeShape}
    (h : wrapped? s = some (label, shape)) :
    ∃ w ∈ wrappers, ∃ inside, s = w.opening ++ inside ++ w.closing ∧ label = Text.unquote inside ∧
      shape = w.shape := by
  obtain ⟨w, hw, hfound⟩ := List.exists_of_findSome?_eq_some h
  obtain ⟨inside, hinside, hlabel⟩ := Option.map_eq_some_iff.1 hfound
  obtain ⟨rfl, rfl⟩ := Prod.mk.inj hlabel
  exact ⟨w, hw, inside, Wrapper.eq_of_inside? hinside, rfl, rfl⟩

theorem readBase?_eq_some {base id : List Char} {wrapper : Option (List Char × NodeShape)}
    (h : readBase? base = some (id, wrapper)) :
    id ≠ [] ∧ (id = Text.trim base ∧ wrapper = none ∨
      ∃ label shape, wrapper = some (label, shape) ∧
        wrapped? ((Text.trim base).dropWhile (!isShapeOpener ·)) = some (label, shape) ∧
        (id = label ∨ id = Text.trim ((Text.trim base).takeWhile (!isShapeOpener ·)))) := by
  unfold readBase? at h
  dsimp only at h
  split at h
  · exact absurd h (by simp)
  next htext =>
  split at h
  · obtain ⟨rfl, rfl⟩ := Prod.mk.inj (Option.some.inj h)
    exact ⟨by simpa using htext, .inl ⟨rfl, rfl⟩⟩
  next label shape hwrapped =>
  rw [Option.ite_none_left_eq_some] at h
  obtain ⟨hne, h⟩ := h
  obtain ⟨rfl, rfl⟩ := Prod.mk.inj (Option.some.inj h)
  refine ⟨by simpa using hne, .inr ⟨label, shape, rfl, hwrapped, ?_⟩⟩
  split
  · exact .inl rfl
  · exact .inr rfl

theorem exists_of_readRef? {token : List Char} {r : NodeRef} (h : readRef? token = some r) :
    ∃ base classes, Text.splitAt classMarker token = base :: classes ∧
      ∃ id wrapper, readBase? base = some (id, wrapper) ∧ r.id = String.ofList id ∧
        r.label = wrapper.map (fun (label, _) => String.ofList label) ∧
        r.shape = wrapper.map (·.2) := by
  unfold readRef? at h
  split at h
  · exact absurd h (by simp)
  next base classes hsplit =>
  obtain ⟨⟨id, wrapper⟩, hbase, rfl⟩ := Option.map_eq_some_iff.1 h
  exact ⟨base, classes, hsplit, id, wrapper, hbase, rfl, rfl, rfl⟩

end Flowchart.Source
