import Flowchart.Source.Document

namespace Flowchart.Source

def said (inNote : Bool) (line : List Char) : List Statement × Bool :=
  let line := Text.trim line
  if line.isEmpty then ([], inNote)
  else if inNote then ([], !isNoteEnd line)
  else if (initPayload? line).isSome || isComment line then ([], false)
  else
    let line := withoutComment line
    if line.isEmpty then ([], false)
    else if isNoteStart line then ([], !isWholeNote line)
    else ((statements line).map Statement.read, false)

def saidBy (inNote : Bool) : List (List Char) → List Statement
  | [] => []
  | line :: rest => (said inNote line).1 ++ saidBy (said inNote line).2 rest

def statementsOf (source : List Char) : List Statement := saidBy false (Text.lines source)

/-- A line changes a reading by its statements and by opening or closing a note. -/
theorem Progress.readBy_said (parse : List Char → Option Json) (d : Defaults) (p : Progress)
    (line : List Char) :
    (p.readBy parse d line).state = (said p.inNote line).1.foldl (State.apply d) p.state ∧
      (p.readBy parse d line).inNote = (said p.inNote line).2 := by
  unfold Progress.readBy said
  dsimp only
  split
  · exact ⟨rfl, rfl⟩
  split
  · exact ⟨rfl, rfl⟩
  next hnote =>
  have hnote : p.inNote = false := by simpa using hnote
  cases initPayload? (Text.trim line) with
  | some payload => exact ⟨rfl, hnote⟩
  | none =>
    cases isComment (Text.trim line) with
    | true => exact ⟨rfl, hnote⟩
    | false =>
      simp only [Option.isSome_none, Bool.or_self, Bool.false_eq_true, if_false,
        Progress.readStatements]
      split
      · exact ⟨rfl, hnote⟩
      split
      · exact ⟨rfl, rfl⟩
      · exact ⟨by rw [List.foldl_map], hnote⟩

theorem state_foldl_readBy (parse : List Char → Option Json) (d : Defaults)
    (lines : List (List Char)) (p : Progress) :
    (lines.foldl (Progress.readBy parse d) p).state =
      (saidBy p.inNote lines).foldl (State.apply d) p.state := by
  induction lines generalizing p with
  | nil => rfl
  | cons line rest ih =>
    obtain ⟨hstate, hnote⟩ := p.readBy_said parse d line
    rw [List.foldl_cons, ih, hstate, hnote, saidBy, List.foldl_append]

theorem state_foldl_read (d : Defaults) (lines : List (List Char)) (p : Progress) :
    (lines.foldl (Progress.read d) p).state =
      (saidBy p.inNote lines).foldl (State.apply d) p.state :=
  state_foldl_readBy readInit? d lines p

/-- The state of a reading is what the statements of the source make of the empty state. -/
theorem state_readLines (d : Defaults) (source : List Char) :
    (readLines d source).state = (statementsOf source).foldl (State.apply d) {} :=
  state_foldl_read d (Text.lines source) {}

theorem graph_readWith (t : Theme) (source : String) :
    (readWith t source).graph =
      ((statementsOf source.toList).foldl (State.apply (.ofTheme t)) {}).finish :=
  congrArg State.finish (state_readLines (.ofTheme t) source.toList)

end Flowchart.Source
