import Flowchart.Proofs.Markdown.Fence
import Flowchart.Proofs.Text.Lines

namespace Flowchart.Markdown

open Text (HasLines)

/-- A diagram in a document, from the line with three markers that opens it. No line of its body closes
it. -/
structure Embedded where
  marker : Char
  opening : List Char
  body : List (List Char)
  opens : OpensBy 3 marker opening
  stays : ∀ line ∈ body, ¬ IsFence marker line

namespace Embedded

def lines (d : Embedded) : List (List Char) := d.opening :: d.body

def text (d : Embedded) : List Char := Text.join ['\n'] d.body

end Embedded

/-- A part of a document: a line that opens no diagram, or a diagram and the line that closes it. -/
inductive Part where
  | line (text : List Char) (plain : ∀ marker, ¬ Opens marker text)
  | diagram (d : Embedded) (closing : List Char) (closes : IsFence d.marker closing)

namespace Part

def lines : Part → List (List Char)
  | .line text _ => [text]
  | .diagram d closing _ => d.lines ++ [closing]

def text? : Part → Option (List Char)
  | .line _ _ => none
  | .diagram d _ _ => some d.text

end Part

section Inside

variable {marker : Char} (hmarker : marker ∈ markers) {inside : List (List Char)}
  (hinside : ∀ line ∈ inside, ¬ IsFence marker line)
include hmarker hinside

/-- Lines that are no fence are put on the block. -/
theorem blocksFrom_append (body rest : List (List Char)) :
    blocksFrom (some ⟨marker, body⟩) (inside ++ rest) =
      blocksFrom (some ⟨marker, inside.reverse ++ body⟩) rest := by
  induction inside generalizing body with
  | nil => rfl
  | cons line inside ih =>
    have hline : closes marker line ≠ true :=
      mt (closes_iff hmarker line).1 (hinside line List.mem_cons_self)
    have hrest := ih (fun l hl => hinside l (List.mem_cons_of_mem line hl)) (line :: body)
    rw [List.cons_append, blocksFrom, if_neg hline, hrest, List.reverse_cons, List.append_assoc]
    rfl

theorem blocksFrom_unclosed (body : List (List Char)) :
    blocksFrom (some ⟨marker, body⟩) inside = [] := by
  rw [← List.append_nil inside, blocksFrom_append hmarker hinside, blocksFrom]

theorem blocksFrom_closed {closing : List Char} (hclosing : IsFence marker closing)
    (body rest : List (List Char)) :
    blocksFrom (some ⟨marker, body⟩) (inside ++ closing :: rest) =
      Text.join ['\n'] (body.reverse ++ inside) :: blocksFrom none rest := by
  rw [blocksFrom_append hmarker hinside, blocksFrom, if_pos ((closes_iff hmarker closing).2 hclosing),
    Block.text, List.reverse_append, List.reverse_reverse]

end Inside

theorem blocksFrom_plain {line : List Char} (h : ∀ marker, ¬ Opens marker line)
    (rest : List (List Char)) : blocksFrom none (line :: rest) = blocksFrom none rest := by
  rw [blocksFrom, opening?_eq_none_iff.2 h, Option.map_none]

theorem blocksFrom_opening {marker : Char} {line : List Char} (h : Opens marker line)
    (rest : List (List Char)) :
    blocksFrom none (line :: rest) = blocksFrom (some ⟨marker, []⟩) rest := by
  rw [blocksFrom, opening?_eq_some_iff.2 h, Option.map_some]

theorem Embedded.blocksFrom_lines (d : Embedded) : blocksFrom none d.lines = [] := by
  rw [Embedded.lines, blocksFrom_opening ⟨3, le_rfl, d.opens⟩, blocksFrom_unclosed d.opens.1 d.stays]

theorem Part.blocksFrom_lines (p : Part) (rest : List (List Char)) :
    blocksFrom none (p.lines ++ rest) = p.text?.toList ++ blocksFrom none rest := by
  cases p with
  | line text plain => exact blocksFrom_plain plain rest
  | diagram d closing closes =>
    have hlines : (Part.diagram d closing closes).lines ++ rest =
        d.opening :: (d.body ++ closing :: rest) := by simp [Part.lines, Embedded.lines]
    rw [hlines, blocksFrom_opening ⟨3, le_rfl, d.opens⟩, blocksFrom_closed d.opens.1 d.stays closes]
    rfl

theorem blocksFrom_parts (parts : List Part) (rest : List (List Char)) :
    blocksFrom none (parts.flatMap Part.lines ++ rest) =
      parts.filterMap Part.text? ++ blocksFrom none rest := by
  induction parts with
  | nil => rfl
  | cons p parts ih =>
    rw [List.flatMap_cons, List.append_assoc, p.blocksFrom_lines, ih, ← List.append_assoc]
    cases p <;> rfl

/-- What is taken out of a document are the texts of its diagrams, in order. A diagram at its end that
is not closed adds nothing. -/
theorem blocks_of_parts {document : List Char} {parts : List Part} {unclosed : Option Embedded}
    (h : HasLines document (parts.flatMap Part.lines ++ (unclosed.map Embedded.lines).getD [])) :
    blocks document = parts.filterMap Part.text? := by
  have hend : blocksFrom none ((unclosed.map Embedded.lines).getD []) = [] := by
    cases unclosed with
    | none => rfl
    | some d => exact d.blocksFrom_lines
  rw [blocks, h.lines_eq, blocksFrom_parts, hend, List.append_nil]

def interleaved : List Char :=
  ("Text\r\n~~~rust\nlet x = 1;\n~~~\n  ``` mermaid title\n  A --> B\n~~~\n```mermaid\n ```  \n" ++
    "~~~flowchart\nC\n~~~\n```mermaid\nD").toList

def interleavedParts : List Part := [
  .line "Text".toList (opening?_eq_none_iff.1 (by decide)),
  .line "~~~rust".toList (opening?_eq_none_iff.1 (by decide)),
  .line "let x = 1;".toList (opening?_eq_none_iff.1 (by decide)),
  .line "~~~".toList (opening?_eq_none_iff.1 (by decide)),
  .diagram ⟨'`', "  ``` mermaid title".toList,
    ["  A --> B".toList, "~~~".toList, "```mermaid".toList],
    ⟨by decide, [' ', ' '], [' '], "mermaid title".toList, rfl, by simp [Text.isBlank],
      by simp [Text.isBlank], "mermaid".toList, by decide, by decide⟩,
    by decide⟩ " ```  ".toList (by decide),
  .diagram ⟨'~', "~~~flowchart".toList, ["C".toList],
    ⟨by decide, [], [], "flowchart".toList, rfl, nofun, nofun, "flowchart".toList, by decide,
      by decide⟩, by decide⟩ "~~~".toList (by decide)]

def interleavedEnd : Embedded :=
  ⟨'`', "```mermaid".toList, ["D".toList], opensBy_run (by decide) 3, by decide⟩

theorem interleaved_blocks :
    HasLines interleaved
      (interleavedParts.flatMap Part.lines ++ ((some interleavedEnd).map Embedded.lines).getD []) ∧
    blocks interleaved = ["  A --> B\n~~~\n```mermaid".toList, "C".toList] := by
  have hlines : HasLines interleaved
      (interleavedParts.flatMap Part.lines ++ ((some interleavedEnd).map Embedded.lines).getD []) :=
    Text.hasLines_iff.2 (by decide +kernel)
  refine ⟨hlines, (blocks_of_parts hlines).trans ?_⟩
  decide +kernel

/-- A fence closes a block also when it is indented, so a line of a body must not be one even with
blanks in front of it. -/
theorem indentedFence_closes :
    let body := ["A".toList, "  ```".toList, "B".toList]
    let document := "```mermaid\nA\n  ```\nB\n```".toList
    HasLines document ("```mermaid".toList :: (body ++ ["```".toList])) ∧
      (∀ line ∈ body, ¬ ∃ blanks, (∀ c ∈ blanks, Text.isBlank c = true) ∧
        line = fence '`' ++ blanks) ∧
      blocks document ≠ [Text.join ['\n'] body] := by
  intro body document
  have hstart : ∀ line ∈ body, ¬ fence '`' <+: line := by decide
  refine ⟨Text.hasLines_iff.2 (by decide), ?_, by decide⟩
  rintro line hline ⟨blanks, -, rfl⟩
  exact hstart _ hline (List.prefix_append _ _)

/-- Either no line is a fence, or there is a first one. -/
theorem exists_first_fence (marker : Char) (found : List (List Char)) :
    (∀ line ∈ found, ¬ IsFence marker line) ∨
      ∃ inside closing after, found = inside ++ closing :: after ∧
        (∀ line ∈ inside, ¬ IsFence marker line) ∧ IsFence marker closing := by
  cases hfirst : found.find? (IsFence marker ·) with
  | none =>
    left
    simpa using List.find?_eq_none.1 hfirst
  | some closing =>
    right
    obtain ⟨hclosing, inside, after, hfound, hinside⟩ := List.find?_eq_some_iff_append.1 hfirst
    exact ⟨inside, closing, after, hfound, by simpa using hinside, by simpa using hclosing⟩

section Runs

variable {marker : Char} (hmarker : marker ∈ markers) {n : Nat} (hn : 3 ≤ n) {document : List Char}
  {body rest : List (List Char)}
  (hlines : HasLines document ((List.replicate n marker ++ "mermaid".toList) ::
    (body ++ List.replicate n marker :: rest)))
include hmarker hn hlines

theorem blocks_run : blocks document =
    blocksFrom (some ⟨marker, []⟩) (body ++ List.replicate n marker :: rest) := by
  rw [blocks, hlines.lines_eq, blocksFrom_opening ⟨n, hn, opensBy_run hmarker n⟩]

/-- A longer run than three markers is a line of the block, which goes on to the next fence. -/
theorem blocks_longRun (hlong : n ≠ 3) (hbody : ∀ line ∈ body, ¬ IsFence marker line) :
    ((∀ line ∈ rest, ¬ IsFence marker line) → blocks document = []) ∧
    ∀ inside closing after, rest = inside ++ closing :: after →
      (∀ line ∈ inside, ¬ IsFence marker line) → IsFence marker closing →
      blocks document = Text.join ['\n'] (body ++ List.replicate n marker :: inside) ::
        blocksFrom none after := by
  have hrun : ¬ IsFence marker (List.replicate n marker) :=
    mt (isFence_replicate_iff hmarker n).1 hlong
  have hstays {more : List (List Char)} (hmore : ∀ line ∈ more, ¬ IsFence marker line) :
      ∀ line ∈ body ++ List.replicate n marker :: more, ¬ IsFence marker line :=
    List.forall_mem_append.2 ⟨hbody, List.forall_mem_cons.2 ⟨hrun, hmore⟩⟩
  rw [blocks_run hmarker hn hlines]
  constructor
  · intro hrest
    exact blocksFrom_unclosed hmarker (hstays hrest) []
  · rintro inside closing after rfl hinside hclosing
    have hclosed := blocksFrom_closed hmarker (hstays hinside) hclosing [] after
    simpa using hclosed

/-- As many markers as opened a block close it exactly when they are three and no line of the body is a
fence. A longer run closes nothing: the block goes on to the next fence and takes in what stands
between, and without one nothing is taken out of the document. -/
theorem run_closes_iff :
    (blocks document = Text.join ['\n'] body :: blocksFrom none rest ↔
      n = 3 ∧ ∀ line ∈ body, ¬ IsFence marker line) ∧
    (n ≠ 3 → (∀ line ∈ body, ¬ IsFence marker line) →
      ((∀ line ∈ rest, ¬ IsFence marker line) → blocks document = []) ∧
      ∀ inside closing after, rest = inside ++ closing :: after →
        (∀ line ∈ inside, ¬ IsFence marker line) → IsFence marker closing →
        blocks document = Text.join ['\n'] (body ++ List.replicate n marker :: inside) ::
          blocksFrom none after) := by
  refine ⟨⟨?_, ?_⟩, blocks_longRun hmarker hn hlines⟩
  · intro hblocks
    have hrun : List.replicate n marker ≠ [] := by
      rw [Ne, List.replicate_eq_nil_iff]
      omega
    rcases exists_first_fence marker body with hbody | ⟨inside, closing, after, rfl, hinside, hclosing⟩
    · refine ⟨by_contra fun hlong => ?_, hbody⟩
      obtain ⟨hunclosed, hclosed⟩ := blocks_longRun hmarker hn hlines hlong hbody
      rcases exists_first_fence marker rest with hrest | ⟨inside, closing, after, hrest, hinside, hclosing⟩
      · rw [hunclosed hrest] at hblocks
        exact absurd hblocks.symm (List.cons_ne_nil _ _)
      · rw [hclosed inside closing after hrest hinside hclosing] at hblocks
        have hlt := Text.length_join_lt ['\n'] body hrun inside
        rw [(List.cons.inj hblocks).1] at hlt
        exact absurd hlt (lt_irrefl _)
    -- a fence in the body ends the block there
    · have hearly : blocks document = Text.join ['\n'] inside ::
          blocksFrom none (after ++ List.replicate n marker :: rest) := by
        rw [blocks_run hmarker hn hlines, List.append_assoc, List.cons_append]
        exact blocksFrom_closed hmarker hinside hclosing [] _
      have hclosing_ne : closing ≠ [] := by
        rintro rfl
        exact absurd hclosing.symm (List.cons_ne_nil _ _)
      have hlt := Text.length_join_lt ['\n'] inside hclosing_ne after
      rw [hearly] at hblocks
      rw [(List.cons.inj hblocks).1] at hlt
      exact absurd hlt (lt_irrefl _)
  · rintro ⟨rfl, hbody⟩
    rw [blocks_run hmarker hn hlines]
    exact blocksFrom_closed hmarker hbody ((isFence_replicate_iff hmarker 3).2 rfl) [] rest

end Runs

/-- The diagram that four markers open takes in the one after it. -/
theorem fourMarkers_take_in :
    let document := "````mermaid\nA --> B\n````\n```mermaid\nC\n```".toList
    HasLines document ((List.replicate 4 '`' ++ "mermaid".toList) :: (["A --> B".toList] ++
        List.replicate 4 '`' :: ["```mermaid".toList, "C".toList, "```".toList])) ∧
      blocks document = ["A --> B\n````\n```mermaid\nC".toList] := by
  intro document
  have hlines : HasLines document ((List.replicate 4 '`' ++ "mermaid".toList) :: (["A --> B".toList] ++
      List.replicate 4 '`' :: ["```mermaid".toList, "C".toList, "```".toList])) :=
    Text.hasLines_iff.2 (by decide)
  have htaken := (run_closes_iff (by decide) (by decide) hlines).2 (by decide) (by decide)
  refine ⟨hlines, (htaken.2 ["```mermaid".toList, "C".toList] "```".toList [] rfl (by decide)
    (by decide)).trans ?_⟩
  decide

/-- A diagram that four markers open and close is lost. -/
theorem fourMarkers_lost :
    blocks "````mermaid\nA --> B\n````".toList ≠ ["A --> B".toList] := by
  decide

end Flowchart.Markdown
