import Flowchart.Proofs.Label.Lines
import Flowchart.Proofs.Layout.Skeleton
import Flowchart.Proofs.Scene.Dump
import Flowchart.Proofs.Scene.Frame
import Flowchart.Proofs.Scene.Resolve
import Flowchart.Proofs.Source.Origin

namespace Flowchart

open scoped List

structure Graph.From (source : List Char) (g : Graph) : Prop where
  labels : ∀ n ∈ g.nodes.values, n.label.toList <+ source
  subgraphs : ∀ n ∈ g.nodes.values, ∀ name ∈ n.subgraph, name.toList <+ source
  edges : ∀ e ∈ g.edges, ∀ label ∈ e.label, label.toList <+ source

namespace Source

structure State.From (source : List Char) (s : State) : Prop where
  graph : s.graph.From source
  current : ∀ name ∈ s.enclosing.current, name.toList <+ source
  outer : ∀ around ∈ s.enclosing.outer, ∀ name ∈ around, name.toList <+ source

namespace State

variable {d : Defaults} {source : List Char}

theorem labels_of_mem_chainEdges {styles : Table (String × String) Properties}
    {sources : List NodeRef} {links : List Link}
    (h : ∀ link ∈ links, ∀ label ∈ link.label, label.toList <+ source) :
    ∀ e ∈ chainEdges d styles sources links, ∀ label ∈ e.label, label.toList <+ source := by
  intro e he
  rw [chainEdges_eq] at he
  obtain ⟨k, hk, rfl⟩ := List.mem_map.1 he
  obtain ⟨link, hlink, a, -, b, -, rfl⟩ := exists_of_mem_declarationsFrom hk
  have hlabel : (freshEdge d styles a.id b.id link.label link.connector).label = link.label :=
    congrArg Edge.label (unstyled_freshEdge d styles a.id b.id link.label link.connector)
  rw [hlabel]
  exact h link hlink

theorem labels_of_mem_newEdges {s : State} {st : Statement} (h : st.From source) :
    ∀ e ∈ newEdges d s st, ∀ label ∈ e.label, label.toList <+ source := by
  cases st with
  | chain c => exact labels_of_mem_chainEdges h.labels
  | header | beginSubgraph | endSubgraph | defineClasses | assignClasses | styleNodes | styleEdges
  | styleLinks | node | nothing => exact fun e he => absurd he List.not_mem_nil

theorem from_freshNode {r : NodeRef} (h : r.From source) (subgraph : Option String) :
    (freshNode d subgraph r).label.toList <+ source := by
  change (r.label.getD r.id).toList <+ source
  cases hlabel : r.label with
  | none => exact h.id
  | some label => exact h.label label hlabel

theorem from_nodeRefs {st : Statement} (h : st.From source) : ∀ r ∈ st.nodeRefs, r.From source := by
  cases st with
  | chain c => exact h.refs
  | node r => exact List.forall_mem_singleton.2 h
  | styleNodes ids ps =>
    intro r hr
    obtain ⟨id, hid, rfl⟩ := List.mem_map.1 hr
    exact ⟨h id hid, fun label hlabel => absurd hlabel (by simp)⟩
  | header | beginSubgraph | endSubgraph | defineClasses | assignClasses | styleEdges | styleLinks
  | nothing => exact fun r hr => absurd hr List.not_mem_nil

theorem from_entries_apply {s : State} (h : s.From source) {st : Statement} (hst : st.From source) :
    ∀ e ∈ (s.apply d st).graph.nodes.entries, e.2.label.toList <+ source ∧
      ∀ name ∈ e.2.subgraph, name.toList <+ source := by
  rw [nodes_apply]
  apply forall_foldl_ensureNode (P := fun e => e.2.label.toList <+ source ∧
    ∀ name ∈ e.2.subgraph, name.toList <+ source) s.enclosing
  · exact fun r hr => ⟨from_freshNode (from_nodeRefs hst r hr) _, h.current⟩
  · intro e he
    have hmem : e.2 ∈ s.graph.nodes.values := List.mem_map_of_mem he
    exact ⟨h.graph.labels e.2 hmem, h.graph.subgraphs e.2 hmem⟩

theorem from_edges_apply {s : State} (h : s.From source) {st : Statement} (hst : st.From source) :
    ∀ e ∈ (s.apply d st).graph.edges, ∀ label ∈ e.label, label.toList <+ source := by
  intro e he
  have hmem := List.mem_map_of_mem (f := Edge.unstyled) he
  rw [unstyled_edges_apply, ← List.map_append] at hmem
  obtain ⟨f, hf, hsame⟩ := List.mem_map.1 hmem
  have hlabel := congrArg Edge.label hsame
  change f.label = e.label at hlabel
  rw [← hlabel]
  rcases List.mem_append.1 hf with hold | hnew
  · exact h.graph.edges f hold
  · exact labels_of_mem_newEdges hst f hnew

theorem from_enclosing_apply {s : State} (h : s.From source) {st : Statement}
    (hst : st.From source) :
    (∀ name ∈ (s.apply d st).enclosing.current, name.toList <+ source) ∧
      ∀ around ∈ (s.apply d st).enclosing.outer, ∀ name ∈ around, name.toList <+ source := by
  rw [enclosing_apply]
  cases st with
  | beginSubgraph name =>
    refine ⟨fun found hfound => ?_, List.forall_mem_cons.2 ⟨h.current, h.outer⟩⟩
    rw [← Option.some.inj hfound]
    exact hst
  | endSubgraph =>
    change (∀ name ∈ s.enclosing.leave.current, _) ∧ ∀ around ∈ s.enclosing.leave.outer, _
    unfold Enclosing.leave
    split
    · exact ⟨nofun, fun around haround => absurd haround List.not_mem_nil⟩
    · next around rest houter =>
      have hboth := h.outer
      rw [houter] at hboth
      exact List.forall_mem_cons.1 hboth
  | header | defineClasses | assignClasses | styleNodes | styleEdges | styleLinks | chain | node
  | nothing => exact ⟨h.current, h.outer⟩

theorem from_apply {s : State} (h : s.From source) {st : Statement} (hst : st.From source) :
    (s.apply d st).From source := by
  have hvalues {n : Node} (hn : n ∈ (s.apply d st).graph.nodes.values) :
      n.label.toList <+ source ∧ ∀ name ∈ n.subgraph, name.toList <+ source := by
    obtain ⟨e, he, rfl⟩ := List.mem_map.1 hn
    exact from_entries_apply h hst e he
  obtain ⟨hcurrent, houter⟩ := from_enclosing_apply (d := d) h hst
  exact ⟨⟨fun n hn => (hvalues hn).1, fun n hn => (hvalues hn).2, from_edges_apply h hst⟩,
    hcurrent, houter⟩

/-- Styles change no text. -/
theorem from_finish {s : State} (h : s.graph.From source) : s.finish.From source := by
  have hnode {n : Node} (hn : n ∈ s.finish.nodes.values) :
      ∃ m ∈ s.graph.nodes.values, m.label = n.label ∧ m.subgraph = n.subgraph := by
    obtain ⟨e, he, rfl⟩ := List.mem_map.1 hn
    have hmem : (e.1, e.2.unstyled) ∈ unstyledEntries s.graph.nodes :=
      unstyledEntries_finish s ▸ List.mem_map_of_mem he
    obtain ⟨f, hf, hsame⟩ := List.mem_map.1 hmem
    have hnode := congrArg Prod.snd hsame
    have hlabel := congrArg Node.label hnode
    have hsubgraph := congrArg Node.subgraph hnode
    exact ⟨f.2, List.mem_map_of_mem hf, hlabel, hsubgraph⟩
  refine ⟨fun n hn => ?_, fun n hn => ?_, h.edges⟩
  · obtain ⟨m, hm, hlabel, -⟩ := hnode hn
    exact hlabel ▸ h.labels m hm
  · obtain ⟨m, hm, -, hsubgraph⟩ := hnode hn
    exact hsubgraph ▸ h.subgraphs m hm

end State

/-- The texts of a graph are written in the source that it is read from. -/
theorem from_readWith (t : Theme) (source : String) :
    (readWith t source).graph.From source.toList := by
  rw [graph_readWith]
  apply State.from_finish
  refine (List.foldlRecOn (motive := State.From source.toList) _ (State.apply (.ofTheme t)) ?_
    fun s hs st hst => State.from_apply hs (from_statementsOf source.toList st hst)).graph
  exact {
    graph := {
      labels := fun n hn => absurd hn List.not_mem_nil
      subgraphs := fun n hn => absurd hn List.not_mem_nil
      edges := fun e he => absurd he List.not_mem_nil }
    current := fun name hname => absurd hname (by simp)
    outer := fun around haround => absurd haround List.not_mem_nil }

end Source

namespace Label

theorem lines_sublist (text : String) : ∀ line ∈ lines text, line.toList <+ text.toList := by
  intro line hline
  rw [lines, splitLines_eq] at hline
  obtain ⟨trimmed, htrimmed, rfl⟩ := List.mem_map.1 hline
  obtain ⟨piece, hpiece, rfl⟩ := List.mem_map.1 htrimmed
  rw [String.toList_ofList]
  have hcut := (List.sublist_flatten_of_mem hpiece).trans
    (Text.flatten_piecesAtAny_sublist breaks 0 text.toList)
  exact (Text.trim_sublist piece).trans hcut

end Label

namespace Graph

variable {source : List Char} {g : Graph}

theorem From.arrange (h : g.From source) (c : LayoutConfig) : (g.arrange c).From source := by
  have hunlaid := Layout.unlaid_arrange c g
  have hnode {n : Node} (hn : n ∈ (g.arrange c).nodes.values) :
      ∃ m ∈ g.nodes.values, m.label = n.label ∧ m.subgraph = n.subgraph := by
    have hvalues : (g.arrange c).nodes.values.map Node.unlaid = g.nodes.values.map Node.unlaid := by
      have h := congrArg (fun g : Graph => g.nodes.values) hunlaid
      simpa [Graph.unlaid, Graph.recast, Table.values_mapPlaces_const] using h
    obtain ⟨m, hm, hsame⟩ := List.mem_map.1 (hvalues ▸ List.mem_map_of_mem hn)
    have hlabel := congrArg Node.label hsame
    have hsubgraph := congrArg Node.subgraph hsame
    exact ⟨m, hm, hlabel, hsubgraph⟩
  refine ⟨fun n hn => ?_, fun n hn => ?_, fun e he => ?_⟩
  · obtain ⟨m, hm, hlabel, -⟩ := hnode hn
    exact hlabel ▸ h.labels m hm
  · obtain ⟨m, hm, -, hsubgraph⟩ := hnode hn
    exact hsubgraph ▸ h.subgraphs m hm
  · have hedges : (g.arrange c).edges.map Edge.unlaid = g.edges.map Edge.unlaid :=
      congrArg Graph.edges hunlaid
    obtain ⟨f, hf, hsame⟩ := List.mem_map.1 (hedges ▸ List.mem_map_of_mem he)
    have hlabel := congrArg Edge.label hsame
    change f.label = e.label at hlabel
    exact hlabel ▸ h.edges f hf

/-- What a scene of a graph shows is taken from the texts of the graph. -/
theorem From.scene (h : g.From source) (c : LayoutConfig) :
    ∀ text ∈ (g.scene c).texts, text.toList <+ source := by
  intro text htext
  rcases List.mem_append.1 htext with hmem | hmem
  rcases List.mem_append.1 hmem with hmem | hmem
  · obtain ⟨f, hf, rfl⟩ := List.mem_map.1 hmem
    obtain ⟨hlabel, -⟩ := exists_of_mem_frames hf
    obtain ⟨n, hn, hname⟩ := mem_subgraphLabels_iff.1 hlabel
    exact h.subgraphs n hn f.label hname
  · obtain ⟨drawn, hdrawn, hlines⟩ := List.mem_flatMap.1 hmem
    obtain ⟨l, hl, hline⟩ := List.mem_flatMap.1 hlines
    obtain ⟨i, hresolved⟩ := exists_of_mem_edges hdrawn
    obtain ⟨e, _, _, _, _, he, -, -, -, -, rfl⟩ := exists_of_resolveEdge hresolved
    obtain ⟨placed, hplaced, rfl⟩ := Option.map_eq_some_iff.1 (Option.mem_toList.1 hl)
    obtain ⟨label, hlabel, rfl⟩ := Option.map_eq_some_iff.1 hplaced
    have hedge := h.edges e (List.mem_of_getElem? he) label hlabel
    exact (Label.lines_sublist label text hline).trans hedge
  · obtain ⟨drawn, hdrawn, hline⟩ := List.mem_flatMap.1 hmem
    obtain ⟨n, hn, hdrawn⟩ := exists_of_mem_nodes hdrawn
    obtain ⟨_, _, _, _, _, _, rfl⟩ := n.exists_of_drawn? hdrawn
    exact (Label.lines_sublist n.label text hline).trans (h.labels n hn)

end Graph

/-- A diagram shows only what is written in its source, whatever directives it has. -/
theorem Diagram.texts_from_source (source : String) (base : Config) :
    ∀ text ∈ (ofSource source base).scene.texts, text.toList <+ source.toList := by
  obtain ⟨t, c, -, hscene⟩ := exists_arranged_ofSource source base
  rw [hscene]
  exact ((Source.from_readWith t source).arrange c).scene c

end Flowchart
