import Flowchart.Proofs.Text.Rows
import Flowchart.Source.Document

namespace Flowchart.Source

open Text (rows ofRows trim)

def progressAfter (d : Defaults) (found : List (List Char)) : Progress :=
  found.foldl (Progress.read d) {}

def Progress.document (p : Progress) : Document := ⟨p.state.finish, p.init⟩

theorem progressAfter_append (d : Defaults) (before after : List (List Char)) :
    progressAfter d (before ++ after) = after.foldl (Progress.read d) (progressAfter d before) :=
  List.foldl_append

section Parse

variable (parse : List Char → Option Json) (d : Defaults)

theorem Progress.readBy_congr (p : Progress) {a b : List Char} (h : trim a = trim b) :
    p.readBy parse d a = p.readBy parse d b := by
  rw [Progress.readBy, h, Progress.readBy]

theorem Progress.readBy_blank (p : Progress) {a : List Char} (h : trim a = []) :
    p.readBy parse d a = p := by
  rw [Progress.readBy, h]
  rfl

/-- Blank rows change nothing, so it does not matter that the lines of a source may lack the last
one. -/
theorem foldl_readBy_lines (source : List Char) :
    (Text.lines source).foldl (Progress.readBy parse d) {} =
      (rows source).foldl (Progress.readBy parse d) {} :=
  Text.foldl_lines (Progress.readBy parse d) (fun p _ _ h => p.readBy_congr parse d h)
    (fun p => p.readBy_blank parse d rfl) source {}

theorem foldl_readBy_ofRows {found : List (List Char)} (h : ∀ row ∈ found, '\n' ∉ row) :
    (Text.lines (ofRows found)).foldl (Progress.readBy parse d) {} =
      found.foldl (Progress.readBy parse d) {} := by
  rw [foldl_readBy_lines]
  cases found with
  -- the text of no rows is empty, and has one empty row
  | nil => exact Progress.readBy_blank parse d {} (a := []) rfl
  | cons row rest => rw [Text.rows_ofRows (List.cons_ne_nil row rest) h]

end Parse

theorem Progress.read_congr (d : Defaults) (p : Progress) {a b : List Char} (h : trim a = trim b) :
    p.read d a = p.read d b := p.readBy_congr readInit? d h

theorem Progress.read_blank (d : Defaults) (p : Progress) {a : List Char} (h : trim a = []) :
    p.read d a = p := p.readBy_blank readInit? d h

/-- In a note a line counts only if it closes the note. -/
theorem Progress.read_of_inNote (d : Defaults) {p : Progress} (h : p.inNote = true)
    (line : List Char) : p.read d line = { p with inNote := !isNoteEnd (trim line) } := by
  by_cases hblank : trim line = []
  · obtain ⟨state, inNote, init⟩ := p
    obtain rfl : inNote = true := h
    rw [Progress.read_blank d _ hblank, hblank]
    rfl
  · rw [Progress.read, Progress.readBy, if_neg (by simpa using hblank), if_pos h]

/-- Outside notes a line without a directive is a comment or makes statements. -/
theorem Progress.read_of_plain (d : Defaults) {p : Progress} (h : p.inNote = false)
    {line : List Char} (hplain : initPayload? (trim line) = none) :
    p.read d line = if isComment (trim line) then p else p.readStatements d (trim line) := by
  by_cases hblank : trim line = []
  · rw [Progress.read_blank d p hblank, hblank]
    rfl
  · rw [Progress.read, Progress.readBy, if_neg (by simpa using hblank), if_neg (by simp [h]), hplain]

theorem readLines_eq_progressAfter (d : Defaults) (source : List Char) :
    readLines d source = progressAfter d (rows source) := foldl_readBy_lines readInit? d source

theorem readWith_eq_progressAfter (t : Theme) (source : String) :
    readWith t source = (progressAfter (.ofTheme t) (rows source.toList)).document :=
  congrArg Progress.document (readLines_eq_progressAfter (.ofTheme t) source.toList)

theorem readWith_ofRows (t : Theme) {found : List (List Char)} (h : ∀ row ∈ found, '\n' ∉ row) :
    readWith t (String.ofList (ofRows found)) = (progressAfter (.ofTheme t) found).document := by
  have hlines : readLines (.ofTheme t) (String.ofList (ofRows found)).toList =
      progressAfter (.ofTheme t) found := by
    rw [String.toList_ofList]
    exact foldl_readBy_ofRows readInit? (.ofTheme t) h
  exact congrArg Progress.document hlines

/-- Rows that are the same once they are trimmed are read alike. -/
theorem progressAfter_congr (d : Defaults) {found others : List (List Char)}
    (h : found.map trim = others.map trim) : progressAfter d found = progressAfter d others := by
  have hread (p : Progress) (row : List Char) : p.read d row = p.read d (trim row) :=
    p.read_congr d (Text.trim_trim row).symm
  have htrimmed (found : List (List Char)) :
      progressAfter d found = (found.map trim).foldl (Progress.read d) {} := by
    rw [progressAfter, List.foldl_map]
    congr 1
    funext p row
    exact hread p row
  rw [htrimmed, htrimmed, h]

end Flowchart.Source
