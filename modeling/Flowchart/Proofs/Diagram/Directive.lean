import Flowchart.Diagram
import Flowchart.Proofs.Source.Said

namespace Flowchart

namespace Source

def payload? (inNote : Bool) (line : List Char) : Option (List Char) :=
  if inNote then none else initPayload? (Text.trim line)

def payloadsBy (inNote : Bool) : List (List Char) → List (List Char)
  | [] => []
  | line :: rest => (payload? inNote line).toList ++ payloadsBy (said inNote line).2 rest

def directive? (source : List Char) : Option Json :=
  (payloadsBy false (Text.lines source)).getLast?.bind readInit?

theorem init_readBy (parse : List Char → Option Json) (d : Defaults) (p : Progress)
    (line : List Char) :
    (p.readBy parse d line).init = ((payload? p.inNote line).map parse).getD p.init := by
  unfold Progress.readBy payload?
  dsimp only
  split
  · next hempty =>
    have hnone : initPayload? (Text.trim line) = none := by
      rw [List.isEmpty_iff.1 hempty]
      rfl
    rw [hnone, ite_self]
    rfl
  split
  · rfl
  cases initPayload? (Text.trim line) with
  | some payload => rfl
  | none =>
    dsimp only
    split
    · rfl
    · unfold Progress.readStatements
      dsimp only
      split
      · rfl
      · split <;> rfl

theorem init_foldl_readBy (parse : List Char → Option Json) (d : Defaults)
    (lines : List (List Char)) (p : Progress) :
    (lines.foldl (Progress.readBy parse d) p).init =
      ((payloadsBy p.inNote lines).getLast?.map parse).getD p.init := by
  induction lines generalizing p with
  | nil => rfl
  | cons line rest ih =>
    rw [List.foldl_cons, ih, (p.readBy_said parse d line).2, init_readBy, payloadsBy, List.getLast?_append]
    -- a directive in the lines that follow decides, else the one on this line
    cases (payloadsBy (said p.inNote line).2 rest).getLast? with
    | some payload => rfl
    | none =>
      rw [Option.none_or]
      cases payload? p.inNote line <;> rfl

/-- The document of a source, when `parse` reads the objects of directives. -/
def readBy (parse : List Char → Option Json) (t : Theme) (source : String) : Document :=
  let progress := (Text.lines source.toList).foldl (Progress.readBy parse (.ofTheme t)) {}
  ⟨progress.state.finish, progress.init⟩

theorem readBy_readInit? (t : Theme) (source : String) :
    readBy readInit? t source = readWith t source := rfl

theorem init_document_readBy (parse : List Char → Option Json) (t : Theme) (source : String) :
    (readBy parse t source).init =
      (payloadsBy false (Text.lines source.toList)).getLast?.bind parse := by
  have hlines := init_foldl_readBy parse (.ofTheme t) (Text.lines source.toList) {}
  refine hlines.trans ?_
  cases (payloadsBy false (Text.lines source.toList)).getLast? <;> rfl

/-- Every theme gives the same directive. -/
theorem init_readWith (t : Theme) (source : String) :
    (readWith t source).init = directive? source.toList :=
  init_document_readBy readInit? t source

theorem Defaults.ofTheme_eq_of_sameDefaults {t u : Theme} (h : t.sameDefaults u = true) :
    Defaults.ofTheme t = .ofTheme u := by
  simp only [Theme.sameDefaults, Bool.and_eq_true, beq_iff_eq] at h
  obtain ⟨⟨⟨hfill, hborder⟩, htext⟩, hline⟩ := h
  rw [ofTheme, ofTheme, Theme.nodeFill, Theme.nodeBorder, Theme.textColor, Theme.edgeColor, hfill,
    hborder, htext, hline]
  rfl

/-- A reading under a theme with the same four colours stands for the one under this theme. -/
theorem graph_reread (t u : Theme) (source : String) :
    (if t.sameDefaults u then (readWith u source).graph else (readWith t source).graph) =
      (readWith t source).graph := by
  split
  · next hsame => rw [readWith, readWith, Defaults.ofTheme_eq_of_sameDefaults hsame]
  · rfl

end Source

/-- A diagram is its source read under the theme that the directive leaves, laid out and drawn. The
directive may be taken from a reading under any theme. -/
theorem Diagram.ofSource_eq_read_once (source : String) (base : Config) (t : Theme) :
    let config := match (Source.readWith t source).init with
      | some settings => base.merge settings
      | none => base
    let graph := (Source.readWith config.theme source).graph.arrange config.layout
    ofSource source base = ⟨config, graph, graph.scene config.layout⟩ := by
  have hinit : (Source.readWith base.theme source).init = (Source.readWith t source).init := by
    rw [Source.init_readWith, Source.init_readWith]
  intro config graph
  have hgraph := Source.graph_reread config.theme base.theme source
  unfold ofSource
  dsimp only
  rw [hinit]
  exact congrArg (fun g : Graph => Diagram.mk config (g.arrange config.layout)
    ((g.arrange config.layout).scene config.layout)) hgraph

end Flowchart
