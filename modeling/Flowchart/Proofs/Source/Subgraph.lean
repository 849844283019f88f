import Flowchart.Proofs.Source.WellFormed

/-! A reading keeps the current subgraph apart from those around it: there is no current subgraph
exactly when the stack of names is empty. -/
namespace Flowchart.Source

/-- The names of the subgraphs around what comes after a statement, the innermost first. -/
def stacked (names : List String) (text : List Char) : List String :=
  if text = "end".toList then names.tail
  else
    match "subgraph".toList.isPrefixOf? text with
    | some rest =>
      if rest.head?.all Text.isBlank then String.ofList (Text.unquote rest) :: names else names
    | none => names

/-- The form in which a reading keeps a stack. -/
def Enclosing.ofNames : List String → Enclosing
  | [] => {}
  | name :: rest => ⟨some name, rest.map some ++ [none]⟩

namespace Enclosing

theorem ofNames_enter (name : String) (names : List String) :
    (ofNames names).enter name = ofNames (name :: names) := by
  cases names <;> rfl

theorem ofNames_leave (names : List String) : (ofNames names).leave = ofNames names.tail := by
  cases names with
  | nil => rfl
  | cons name rest => cases rest <;> rfl

@[simp] theorem current_ofNames (names : List String) : (ofNames names).current = names.head? := by
  cases names <;> rfl

end Enclosing

def Statement.nest (names : List String) : Statement → List String
  | .beginSubgraph name => name :: names
  | .endSubgraph => names.tail
  | _ => names

theorem enclosing_apply_of_ofNames {d : Defaults} {s : State} {names : List String}
    (h : s.enclosing = .ofNames names) (st : Statement) :
    (s.apply d st).enclosing = .ofNames (st.nest names) := by
  rw [State.enclosing_apply, h]
  cases st with
  | beginSubgraph name => exact Enclosing.ofNames_enter name names
  | endSubgraph => exact Enclosing.ofNames_leave names
  | header | defineClasses | assignClasses | styleNodes | styleEdges | styleLinks | chain | node
  | nothing => rfl

theorem stacked_eq {text : List Char} (hend : text ≠ "end".toList) (names : List String) :
    stacked names text = (readSubgraph? text).elim names (· :: names) := by
  rw [stacked, if_neg hend]
  unfold readSubgraph? afterWord?
  cases "subgraph".toList.isPrefixOf? text with
  | none => rfl
  | some rest =>
    cases rest with
    | nil => rfl
    | cons c rest =>
      dsimp only [List.head?_cons, Option.all_some]
      by_cases hc : Text.isBlank c = true <;> simp [hc]

/-- A header begins with a letter that no statement about subgraphs begins with. -/
theorem stacked_of_header {text : List Char} {direction : Direction}
    (h : readHeader? text = some direction) (names : List String) : stacked names text = names := by
  obtain ⟨rest, hrest, -⟩ := Option.bind_eq_some_iff.1 h
  have hword : "flowchart".toList ++ rest = text ∨ "graph".toList ++ rest = text := by
    cases hflowchart : afterWord? "flowchart".toList text with
    | some r =>
      rw [hflowchart] at hrest
      obtain rfl := Option.some.inj hrest
      exact .inl (List.isPrefixOf?_eq_some_iff_append_eq.1 hflowchart)
    | none =>
      rw [hflowchart] at hrest
      exact .inr (List.isPrefixOf?_eq_some_iff_append_eq.1 hrest)
  rcases hword with rfl | rfl <;> rfl

theorem nest_read (names : List String) (text : List Char) :
    (Statement.read text).nest names = stacked names text := by
  have hassign (rest : List Char) : (readAssignment rest).nest names = names := by
    unfold readAssignment
    split <;> rfl
  have hstyle (rest : List Char) : (readStyle rest).nest names = names := by
    unfold readStyle
    split
    · rfl
    split
    · dsimp only
      split <;> rfl
    · rfl
  -- only a header, an `end` and a `subgraph` line change the stack
  unfold Statement.read
  split
  · next direction hheader => exact (stacked_of_header hheader names).symm
  split
  · next hend => rw [stacked, if_pos hend, Statement.nest]
  next hend =>
  rw [stacked_eq hend]
  cases readSubgraph? text with
  | some name => rfl
  | none =>
    dsimp only [Option.elim]
    split
    · split <;> rfl
    split
    · exact hassign _
    split
    · exact hstyle _
    split
    · split <;> rfl
    split
    · rfl
    split <;> rfl

theorem enclosing_run (d : Defaults) (texts : List (List Char)) :
    ((texts.map Statement.read).foldl (State.apply d) {}).enclosing =
      .ofNames (texts.foldl stacked []) := by
  -- the stack is what all earlier statements leave, so a run grows at its end
  induction texts using List.reverseRecOn with
  | nil => rfl
  | append_singleton texts text ih =>
    rw [List.map_append, List.foldl_append, List.foldl_append, List.foldl_cons, List.foldl_nil,
      ← nest_read]
    exact enclosing_apply_of_ofNames ih (Statement.read text)

def textsOfLine (inNote : Bool) (line : List Char) : List (List Char) :=
  let line := Text.trim line
  if line.isEmpty ∨ inNote ∨ (initPayload? line).isSome ∨ isComment line then []
  else
    let line := withoutComment line
    if isNoteStart line then [] else statements line

def textsBy (inNote : Bool) : List (List Char) → List (List Char)
  | [] => []
  | line :: rest => textsOfLine inNote line ++ textsBy (said inNote line).2 rest

def textsOf (source : List Char) : List (List Char) := textsBy false (Text.lines source)

theorem said_textsOfLine (inNote : Bool) (line : List Char) :
    (said inNote line).1 = (textsOfLine inNote line).map Statement.read := by
  unfold said textsOfLine
  dsimp only
  split
  · next hblank => rw [if_pos (.inl hblank), List.map_nil]
  next hblank =>
  split
  · next hnote => rw [if_pos (.inr (.inl hnote)), List.map_nil]
  next hnote =>
  split
  · next haside =>
    rw [if_pos (.inr (.inr (Bool.or_eq_true_iff.1 haside))), List.map_nil]
  next haside =>
  rw [Bool.or_eq_true_iff] at haside
  rw [if_neg (not_or.2 ⟨hblank, not_or.2 ⟨hnote, haside⟩⟩)]
  split
  · next hempty =>
    -- a line that is all comment has no statements either
    rw [List.isEmpty_iff.1 hempty]
    rfl
  split <;> rfl

theorem statementsOf_eq (source : List Char) :
    statementsOf source = (textsOf source).map Statement.read := by
  have hlines (inNote : Bool) (lines : List (List Char)) :
      saidBy inNote lines = (textsBy inNote lines).map Statement.read := by
    induction lines generalizing inNote with
    | nil => rfl
    | cons line rest ih => rw [saidBy, textsBy, List.map_append, ih, said_textsOfLine]
  exact hlines false (Text.lines source)

/-- Under every theme, after every statement, the current subgraph and those around it are a stack
of names, and there is no current one exactly when the stack is empty. Every node of the graph that
the reading ends with belongs to the top of the stack at the statement that first refers to it. -/
theorem reading_keeps_stack (t : Theme) (source : String) :
    (∀ count,
      let names := ((textsOf source.toList).take count).foldl stacked []
      let enclosing := (stateAfter (.ofTheme t) source.toList count).enclosing
      enclosing = .ofNames names ∧ (enclosing.current = none ↔ names = [])) ∧
    ∀ id n, (readWith t source).graph.node? id = some n →
      ∃ before text after, textsOf source.toList = before ++ text :: after ∧
        (∀ earlier ∈ before, id ∉ (Statement.read earlier).refs) ∧
        id ∈ (Statement.read text).refs ∧
        n.subgraph = (before.foldl stacked []).head? := by
  constructor
  · intro count names enclosing
    have henclosing : enclosing = .ofNames names := by
      change (stateAfter (.ofTheme t) source.toList count).enclosing = _
      rw [stateAfter, statementsOf_eq, ← List.map_take]
      exact enclosing_run (.ofTheme t) _
    refine ⟨henclosing, ?_⟩
    rw [henclosing, Enclosing.current_ofNames, List.head?_eq_none_iff]
  · intro id n hn
    rw [graph_readWith, statementsOf_eq] at hn
    -- classes at the end do not move a node, so it is in the subgraph in which it was made
    obtain ⟨m, hm, hsame⟩ := State.exists_entry_of_finish hn
    obtain ⟨before, st, after, hsplit, hearlier, r, hr, hfresh⟩ := State.entry_run hm
    obtain ⟨rfl, rfl⟩ := Prod.mk.inj hfresh
    have hsubgraph : (before.foldl (State.apply _) {}).enclosing.current = n.subgraph :=
      congrArg Node.subgraph hsame
    have hfirst : r.id ∈ st.refs := Statement.map_id_nodeRefs st ▸ List.mem_map_of_mem hr
    obtain ⟨texts, rest, htexts, rfl, hrest⟩ := List.map_eq_append_iff.1 hsplit
    obtain ⟨text, later, rfl, rfl, rfl⟩ := List.map_eq_cons_iff.1 hrest
    refine ⟨texts, text, later, htexts, ?_, hfirst, ?_⟩
    · exact fun earlier h => hearlier _ (List.mem_map_of_mem h)
    · rw [← hsubgraph, enclosing_run, Enclosing.current_ofNames]

/-- Ends too many at both ends, a subgraph without a name around a quoted one, and a node that a style
is the first to refer to. -/
def nestedSource : String :=
  "end\nsubgraph\nA --> B\nsubgraph \" Inner \"\nstyle C fill:#fff\nend\nD\nend; end\nE --> C"

example : ((textsOf nestedSource.toList).scanl stacked []) =
    [[], [], [""], [""], [" Inner ", ""], [" Inner ", ""], [""], [""], [], [], []] := by
  decide +kernel

theorem nestedSource_keeps_stack :
    ∃ n, (readWith .standard nestedSource).graph.node? "C" = some n ∧
      n.subgraph = some " Inner " ∧
      ∃ before text after, textsOf nestedSource.toList = before ++ text :: after ∧
        (∀ earlier ∈ before, "C" ∉ (Statement.read earlier).refs) ∧
        "C" ∈ (Statement.read text).refs ∧
        n.subgraph = (before.foldl stacked []).head? := by
  have hnode : ((readWith .standard nestedSource).graph.node? "C").map Node.subgraph =
      some (some " Inner ") := by
    decide +kernel
  obtain ⟨n, hn, hsubgraph⟩ := Option.map_eq_some_iff.1 hnode
  exact ⟨n, hn, hsubgraph, (reading_keeps_stack .standard nestedSource).2 "C" n hn⟩

end Flowchart.Source
