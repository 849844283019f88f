import Flowchart.Proofs.Script.Line
import Flowchart.Proofs.Source.Growth

/-! Every line of a printed script makes the statement that was written. Items are read inside the
subgraphs around them and leave these as they were; so what a list of items adds to a graph does not
depend on what was said before. -/
namespace Flowchart.Script

open Source

theorem exists_says {lines : List (List Char)} {statements : List Statement}
    (h : List.Forall₂ Says lines statements) : ∀ l ∈ lines, ∃ st, Says l st := by
  induction h with
  | nil => exact fun l hl => absurd hl List.not_mem_nil
  | cons hsays _ ih => exact List.forall_mem_cons.2 ⟨⟨_, hsays⟩, ih⟩

theorem foldl_read_of_says {lines : List (List Char)} {statements : List Statement}
    (h : List.Forall₂ Says lines statements) (d : Defaults) {p : Progress} (hp : p.inNote = false) :
    lines.foldl (Progress.read d) p = { p with state := statements.foldl (State.apply d) p.state } := by
  induction h generalizing p with
  | nil => rfl
  | cons hsays _ ih =>
    rw [List.foldl_cons, hsays.progress d hp]
    exact ih hp

theorem readLines_print (d : Defaults) (p : Script) :
    readLines d p.print.toList =
      { state := (Statement.header p.direction :: p.items.statements).foldl (State.apply d) {} } := by
  have hsays := List.Forall₂.cons (says_header p.direction) p.items.says
  have hlines : Text.lines p.print.toList = header p.direction :: p.items.lines := by
    rw [Script.print, String.toList_ofList]
    refine Text.lines_join (fun l hl => ?_) fun l hl => ?_
    · obtain ⟨st, hl⟩ := exists_says hsays l hl
      exact hl.snug
    · obtain ⟨st, hl⟩ := exists_says hsays l hl
      exact hl.oneLine
  rw [readLines, hlines]
  exact foldl_read_of_says hsays d rfl

variable {d : Defaults}

def addMention (d : Defaults) (nodes : Table String Node) (m : Mention × Option String) :
    Table String Node :=
  nodes.insertNew m.1.id (m.1.node d m.2)

def grown (d : Defaults) (s : State) (mentions : List (Mention × Option String))
    (edges : List Edge) : State :=
  { s with
    graph := { s.graph with
      nodes := mentions.foldl (addMention d) s.graph.nodes
      edges := s.graph.edges ++ edges } }

theorem node_eq_freshNode (around : Option String) (x : Mention) :
    x.node d around = freshNode d around x.ref := by
  unfold Mention.node freshNode Mention.ref
  cases x.dress <;> rfl

theorem ensureNode_ref (e : Enclosing) (g : Graph) (x : Mention) :
    State.ensureNode d e g x.ref = { g with nodes := addMention d g.nodes (x, e.current) } := by
  have hnodes : (State.ensureNode d e g x.ref).nodes = addMention d g.nodes (x, e.current) := by
    apply Table.ext
    rw [State.entries_ensureNode, addMention, node_eq_freshNode]
    change _ = (g.nodes.insertNew x.ref.id _).entries
    by_cases h : x.ref.id ∈ g.nodes.keys
    · rw [if_pos h, Table.insertNew_of_mem h]
    · rw [if_neg h, Table.entries_insertNew_of_not_mem h]
  have hedges := State.edges_ensureNode (d := d) e g x.ref
  have hdirection : (State.ensureNode d e g x.ref).direction = g.direction := by
    unfold State.ensureNode
    split <;> rfl
  rw [← hnodes, ← hedges, ← hdirection]

theorem touch_ref (s : State) (x : Mention) :
    s.touch d x.ref = grown d s [(x, s.enclosing.current)] [] := by
  have htouch : s.touch d x.ref =
      { s with graph := State.ensureNode d s.enclosing s.graph x.ref } := rfl
  rw [htouch, ensureNode_ref, grown, List.append_nil]
  rfl

theorem grown_grown (s : State) (ms ns : List (Mention × Option String)) (es fs : List Edge) :
    grown d (grown d s ms es) ns fs = grown d s (ms ++ ns) (es ++ fs) := by
  simp [grown, List.foldl_append, List.append_assoc]

theorem foldl_touch_refs (mentions : List Mention) (s : State) :
    (mentions.map Mention.ref).foldl (State.touch d) s =
      grown d s (mentions.map (·, s.enclosing.current)) [] := by
  induction mentions generalizing s with
  | nil => simp [grown]
  | cons x rest ih =>
    rw [List.map_cons, List.foldl_cons, touch_ref, ih, grown_grown]
    rfl

/-- Without styles for ends the edges of a chain are those of its path. -/
theorem chainEdges_links (g : Group) (hops : List Hop) :
    chainEdges d .empty (g.mentions.map Mention.ref) (hops.map Hop.link) = hopEdges d g hops := by
  induction hops generalizing g with
  | nil => rfl
  | cons h rest ih =>
    have hedges : linkEdges d .empty (g.mentions.map Mention.ref) h.link =
        g.mentions.flatMap fun a => h.group.mentions.map fun b => h.edge d a b := by
      simp only [linkEdges, List.flatMap_map, Hop.link, List.map_map]
      rfl
    rw [List.map_cons, chainEdges, hedges, hopEdges, ← ih]
    rfl

theorem addChain_path {s : State} (hs : s.edgeStyles = .empty) (p : Path) :
    s.addChain d p.chain =
      grown d s (p.mentions.map (·, s.enclosing.current)) (hopEdges d p.start (p.hop :: p.hops)) := by
  have hrefs : p.chain.first ++ p.chain.links.flatMap (·.group) = p.mentions.map Mention.ref := by
    simp [Path.chain, Path.mentions, List.flatMap_map, List.map_flatMap, Hop.link]
  have hstyles : (grown d s (p.mentions.map (·, s.enclosing.current)) []).edgeStyles = .empty := hs
  rw [State.addChain]
  simp only [hrefs, foldl_touch_refs, State.addLinks_eq, hstyles]
  rw [Path.chain, chainEdges_links]
  simp [State.withEdges, grown]

/-- Items add what they mean, and leave subgraphs and styles as they are. -/
theorem foldl_apply_items (items : Items) {s : State} (hs : s.edgeStyles = .empty) :
    items.statements.foldl (State.apply d) s =
      grown d s (items.mentions s.enclosing.current) (items.edges d) := by
  -- what is said before does not matter but for the subgraph around, so `s` is any state
  induction items generalizing s with
  | done => simp [Items.statements, Items.mentions, Items.edges, grown]
  | path p rest ih =>
    have hpath : (s.addChain d p.chain).edgeStyles = .empty := by rwa [addChain_path hs]
    rw [Items.statements, List.foldl_cons, State.apply, ih hpath, addChain_path hs, grown_grown]
    rfl
  | node x rest ih =>
    have hnode : (s.touch d x.ref).edgeStyles = .empty := hs
    rw [Items.statements, List.foldl_cons, State.apply, ih hnode, touch_ref, grown_grown]
    rfl
  | subgraph t inside rest hinside hrest =>
    let entered : State := { s with enclosing := s.enclosing.enter (String.ofList t.chars) }
    have hentered : entered.edgeStyles = .empty := hs
    -- the end of a subgraph gives the state its surroundings back
    have hleft : (grown d entered (inside.mentions entered.enclosing.current)
        (inside.edges d)).apply d .endSubgraph =
        grown d s (inside.mentions (some (String.ofList t.chars))) (inside.edges d) := rfl
    have hgrown : (grown d s (inside.mentions (some (String.ofList t.chars)))
        (inside.edges d)).edgeStyles = .empty := hs
    have hcons : (Items.subgraph t inside rest).statements.foldl (State.apply d) s =
        (.endSubgraph :: rest.statements).foldl (State.apply d)
          (inside.statements.foldl (State.apply d) entered) := by
      rw [Items.statements, List.cons_append, List.foldl_cons, List.foldl_append]
      rfl
    rw [hcons, hinside hentered, List.foldl_cons, hleft, hrest hgrown, grown_grown]
    rfl

/-- Without styles and classes the graph stays as it is. -/
theorem finish_of_unstyled {s : State} (hstyles : s.nodeStyles = .empty) (hclasses : s.classes = .empty) :
    s.finish = s.graph := by
  rw [State.finish, hstyles, hclasses]
  rfl

/-- Under every theme reading a printed script gives the graph that the script means, and no
directive. -/
theorem readWith_print (t : Theme) (p : Script) :
    readWith t p.print = ⟨p.graph (.ofTheme t), none⟩ := by
  have hstate : (Statement.header p.direction :: p.items.statements).foldl
      (State.apply (.ofTheme t)) {} =
      grown (.ofTheme t) { graph := { direction := p.direction } } (p.items.mentions none)
        (p.items.edges (.ofTheme t)) :=
    foldl_apply_items p.items rfl
  rw [readWith, readLines_print, hstate]
  dsimp only
  rw [finish_of_unstyled rfl rfl]
  rfl

def nameA : Name := ⟨['A'], by decide, List.forall_mem_singleton.2 rfl, by decide, by decide⟩

def nameB : Name := ⟨['B'], by decide, List.forall_mem_singleton.2 rfl, by decide, by decide⟩

def nestedScript : Script :=
  let c : Name := ⟨['C', '_', '1'], by decide, by simp [isNameChar], by decide, by decide⟩
  let text : Inscription := ⟨"x --> y".toList, by decide, by decide, by decide⟩
  let barrel : Dress := ⟨⟨"[(".toList, ")]".toList, .roundRect⟩, by decide, text⟩
  let yes : Caption := ⟨" yes ".toList, ⟨'y', by decide, by decide⟩, by simp [isOpener, isCloser],
    by decide⟩
  let title : Title := ⟨['g'], by decide, List.forall_mem_singleton.2 (.inl (by decide))⟩
  { direction := .leftRight
    items :=
      .path ⟨⟨⟨nameA, some barrel⟩, [⟨nameB, none⟩]⟩,
        ⟨⟨"-->".toList, .solid, .arrow⟩, by decide, some yes, ⟨⟨c, none⟩, []⟩⟩, []⟩ <|
      .subgraph title
        (.path ⟨⟨⟨c, none⟩, []⟩,
          ⟨⟨"-.-".toList, .dotted, .bare⟩, by decide, none, ⟨⟨nameA, none⟩, []⟩⟩, []⟩ .done)
        .done }

theorem nestedScript_read :
    nestedScript.print =
      "flowchart LR\nA[(\"x --> y\")] & B --> | yes | C_1\nsubgraph g\nC_1 -.- A\nend" ∧
    readWith .standard nestedScript.print = ⟨nestedScript.graph (.ofTheme .standard), none⟩ ∧
    (nestedScript.graph (.ofTheme .standard)).nodes.values.map
      (fun n => (n.id, n.label, n.shape, n.subgraph)) =
      [("A", "x --> y", .roundRect, none), ("B", "B", .rectangle, none),
        ("C_1", "C_1", .rectangle, none)] ∧
    (nestedScript.graph (.ofTheme .standard)).edges.map
      (fun e => (e.source, e.target, e.label, e.style, e.arrowhead)) =
      [("A", "C_1", some "yes", .solid, .arrow), ("B", "C_1", some "yes", .solid, .arrow),
        ("C_1", "A", none, .dotted, .bare)] := by
  refine ⟨by decide +kernel, readWith_print .standard nestedScript, by decide +kernel,
    by decide +kernel⟩

end Flowchart.Script
