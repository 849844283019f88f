import Flowchart.Label
import Flowchart.Proofs.Text.Marker
import Mathlib.Data.List.Infix

namespace Flowchart.Label

/-- The texts that end a line: the markers, and the line feed itself. -/
def breaks : List (List Char) := breakMarkers ++ [['\n']]

/-- The markers hold no line feed, and a bracket or a backslash is only where a marker begins. -/
theorem apart_breakMarkers : Text.Apart '\n' breakMarkers where
  ne_nil := by decide
  separator_not_mem := by decide
  head_not_inside := by simp [breakMarkers]

theorem splitLines_eq (text : List Char) :
    splitLines text = (Text.splitAtAny breaks text).map Text.trim := by
  rw [splitLines, normalize, Text.pieces_foldl_replaceAll apart_breakMarkers, breaks]

theorem splitLines_ne_nil (text : List Char) : splitLines text ≠ [] := by
  rw [splitLines_eq, ne_eq, List.map_eq_nil_iff]
  exact Text.splitAtAny_ne_nil breaks text

theorem not_infix_of_mem_splitLines {text line m : List Char} (h : line ∈ splitLines text)
    (hm : m ∈ breaks) : ¬ m <:+: line := by
  have hne : ∀ m ∈ breaks, m ≠ [] := by decide
  rw [splitLines_eq] at h
  obtain ⟨piece, hpiece, rfl⟩ := List.mem_map.1 h
  intro hinside
  exact Text.not_infix_of_mem_piecesAtAny hne hm hpiece (hinside.trans (Text.trim_isInfix piece))

theorem trim_of_mem_splitLines {text line : List Char} (h : line ∈ splitLines text) :
    Text.trim line = line := by
  rw [splitLines_eq] at h
  obtain ⟨piece, -, rfl⟩ := List.mem_map.1 h
  exact Text.trim_trim piece

/-- The lines of a label are those of the text that they make. -/
theorem splitLines_join (text : List Char) :
    splitLines (Text.join ['\n'] (splitLines text)) = splitLines text := by
  have hcut : Text.splitAtAny breaks (Text.join ['\n'] (splitLines text)) = splitLines text :=
    Text.splitAtAny_join apart_breakMarkers (splitLines_ne_nil text)
      fun _ hline _ hm => not_infix_of_mem_splitLines hline hm
  calc splitLines (Text.join ['\n'] (splitLines text))
    _ = (splitLines text).map Text.trim := by rw [splitLines_eq, hcut]
    _ = (splitLines text).map id := List.map_congr_left fun _ h => trim_of_mem_splitLines h
    _ = splitLines text := List.map_id _

theorem toList_intercalate_lines (text : String) :
    ("\n".intercalate (lines text)).toList = Text.join ['\n'] (splitLines text.toList) := by
  have hlines : (lines text).map String.toList = splitLines text.toList := by
    rw [lines, List.map_map]
    exact (List.map_congr_left fun _ _ => String.toList_ofList).trans (List.map_id _)
  rw [String.toList_intercalate, hlines]
  rfl

/-- Three replacements, a cut and a trim come to one cut from left to right at the three markers and at
line feeds. It leaves at least one line, and only clean ones, which come back from the text that they
make. -/
theorem lines_are_one_cut (text : String) :
    lines text = ((Text.splitAtAny ["<br/>".toList, "<br>".toList, "\\n".toList, "\n".toList]
      text.toList).map Text.trim).map String.ofList ∧
    lines text ≠ [] ∧
    (∀ line ∈ lines text, '\n' ∉ line.toList ∧
      (∀ m ∈ ["<br/>", "<br>", "\\n"], ¬ m.toList <:+: line.toList) ∧
      (line = "" ∨ Text.Snug line.toList)) ∧
    lines ("\n".intercalate (lines text)) = lines text := by
  refine ⟨by rw [lines, splitLines_eq]; rfl, ?_, ?_, ?_⟩
  · rw [lines, ne_eq, List.map_eq_nil_iff]
    exact splitLines_ne_nil text.toList
  · intro line hline
    obtain ⟨chars, hchars, rfl⟩ := List.mem_map.1 hline
    rw [String.toList_ofList]
    refine ⟨fun hfeed => ?_, fun m hm => ?_, ?_⟩
    · have hbreak : ['\n'] ∈ breaks := List.mem_append_right _ List.mem_cons_self
      exact not_infix_of_mem_splitLines hchars hbreak ((List.singleton_infix_iff _ _).2 hfeed)
    · have hmarker : m.toList ∈ breakMarkers := List.mem_map_of_mem (f := String.toList) hm
      exact not_infix_of_mem_splitLines hchars (List.mem_append_left _ hmarker)
    · by_cases hnil : chars = []
      · exact .inl (by rw [hnil])
      · have htrim := trim_of_mem_splitLines hchars
        rw [← htrim] at hnil
        exact .inr (htrim ▸ Text.snug_trim hnil)
  · rw [lines, toList_intercalate_lines, splitLines_join, lines]

/-- The pieces of a marker around another one make no third one. -/
theorem nestedMarkers_lines :
    lines "<b<br>r> \\n<br/>c" = ["<b", "r>", "", "c"] ∧ '\n' ∉ "r>".toList ∧
      (∀ m ∈ ["<br/>", "<br>", "\\n"], ¬ m.toList <:+: "r>".toList) ∧
      lines ("\n".intercalate (lines "<b<br>r> \\n<br/>c")) = ["<b", "r>", "", "c"] := by
  have hlines : lines "<b<br>r> \\n<br/>c" = ["<b", "r>", "", "c"] := by decide
  obtain ⟨-, -, hclean, hagain⟩ := lines_are_one_cut "<b<br>r> \\n<br/>c"
  rw [hlines] at hclean hagain
  obtain ⟨hfeed, hmarkers, -⟩ := hclean "r>" (by decide)
  exact ⟨hlines, hfeed, hmarkers, by rw [hlines, hagain]⟩

end Flowchart.Label
