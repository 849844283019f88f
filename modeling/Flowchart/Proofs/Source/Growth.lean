import Flowchart.Proofs.Source.Said
import Mathlib.Data.List.Basic

namespace Flowchart.Source

theorem foldl_keeps {σ α β : Type} (view : σ → β) {f : σ → α → σ}
    (h : ∀ s a, view (f s a) = view s) (l : List α) (s : σ) : view (l.foldl f s) = view s := by
  induction l generalizing s with
  | nil => rfl
  | cons a l ih => rw [List.foldl_cons, ih, h]

theorem getLast?_filterMap_cons {α β : Type} (f : α → Option β) (a : α) (l : List α) :
    ((a :: l).filterMap f).getLast? = (l.filterMap f).getLast?.or (f a) := by
  cases ha : f a with
  | none => rw [List.filterMap_cons_none ha, Option.or_none]
  | some b => rw [List.filterMap_cons_some ha, List.getLast?_cons, Option.or_some]

theorem foldl_filterMap_cons {α β γ : Type} (f : α → Option γ) (step : β → γ → β) (a : α)
    (l : List α) (b : β) :
    ((a :: l).filterMap f).foldl step b = (l.filterMap f).foldl step ((f a).elim b (step b)) := by
  cases ha : f a with
  | none => rw [List.filterMap_cons_none ha, Option.elim_none]
  | some c => rw [List.filterMap_cons_some ha, List.foldl_cons, Option.elim_some]

/-- The last of many changes that set a view decides what it is. -/
theorem foldl_sets {σ α β : Type} (view : σ → Option β) {f : σ → α → σ} (sets : α → Option β)
    (h : ∀ s a, view (f s a) = (sets a).or (view s)) (l : List α) (s : σ) :
    view (l.foldl f s) = (l.filterMap sets).getLast?.or (view s) := by
  induction l generalizing s with
  | nil => rfl
  | cons a l ih => rw [List.foldl_cons, ih, h, getLast?_filterMap_cons, Option.or_assoc]

/-- The same for a part that is always there. -/
theorem foldl_sets_part {σ α β : Type} (part : σ → β) {f : σ → α → σ} (sets : α → Option β)
    (h : ∀ s a, part (f s a) = (sets a).getD (part s)) (l : List α) (s : σ) :
    part (l.foldl f s) = (l.filterMap sets).getLast?.getD (part s) := by
  have hone (s : σ) (a : α) : some (part (f s a)) = (sets a).or (some (part s)) := by
    rw [h, Option.or_some]
  have hall := foldl_sets (fun s => some (part s)) sets hone l s
  rw [Option.or_some] at hall
  exact Option.some.inj hall

def freshNode (d : Defaults) (subgraph : Option String) (r : NodeRef) : Node :=
  { Node.new r.id (r.label.getD r.id) (r.shape.getD .rectangle) subgraph with
    fill := d.fill
    border := d.border
    textColor := d.text }

def freshEdge (d : Defaults) (styles : Table (String × String) Properties) (source target : String)
    (label : Option String) (k : Connector) : Edge :=
  let edge := { Edge.new source target label k.style k.arrowhead with color := d.edge }
  match styles.find? (source, target) with
  | some ps => styleEdgeAll edge ps
  | none => edge

/-- No styles given to the ends are the same as an empty list of properties. -/
theorem freshEdge_eq (d : Defaults) (styles : Table (String × String) Properties)
    (source target : String) (label : Option String) (k : Connector) :
    freshEdge d styles source target label k =
      styleEdgeAll { Edge.new source target label k.style k.arrowhead with color := d.edge }
        ((styles.find? (source, target)).getD .empty) := by
  unfold freshEdge
  cases styles.find? (source, target) <;> rfl

def linkEdges (d : Defaults) (styles : Table (String × String) Properties) (sources : List NodeRef)
    (link : Link) : List Edge :=
  sources.flatMap fun source => link.group.map fun target =>
    freshEdge d styles source.id target.id link.label link.connector

def chainEdges (d : Defaults) (styles : Table (String × String) Properties)
    (sources : List NodeRef) : List Link → List Edge
  | [] => []
  | link :: rest => linkEdges d styles sources link ++ chainEdges d styles link.group rest

structure Declaration where
  source : String
  target : String
  label : Option String
  connector : Connector
  deriving DecidableEq

def Link.declarations (sources : List NodeRef) (link : Link) : List Declaration :=
  sources.flatMap fun source => link.group.map fun target =>
    ⟨source.id, target.id, link.label, link.connector⟩

def declarationsFrom (sources : List NodeRef) : List Link → List Declaration
  | [] => []
  | link :: rest => link.declarations sources ++ declarationsFrom link.group rest

/-- The edges of a chain are made one by one, as it declares them. -/
theorem chainEdges_eq (d : Defaults) (styles : Table (String × String) Properties)
    (sources : List NodeRef) (links : List Link) :
    chainEdges d styles sources links =
      (declarationsFrom sources links).map fun k =>
        freshEdge d styles k.source k.target k.label k.connector := by
  induction links generalizing sources with
  | nil => rfl
  | cons link rest ih =>
    rw [chainEdges, ih, declarationsFrom, List.map_append, linkEdges, Link.declarations,
      List.map_flatMap]
    simp only [List.map_map, Function.comp_def]

/-- A declared edge ends at a node of its link, and starts at one of the nodes before. -/
theorem exists_of_mem_declarationsFrom {sources : List NodeRef} {links : List Link} {k : Declaration}
    (hk : k ∈ declarationsFrom sources links) :
    ∃ link ∈ links, ∃ a ∈ sources ++ links.flatMap (·.group), ∃ b ∈ link.group,
      k = ⟨a.id, b.id, link.label, link.connector⟩ := by
  -- the targets of a link are the sources of the next one
  induction links generalizing sources with
  | nil => exact absurd hk List.not_mem_nil
  | cons link rest ih =>
    rcases List.mem_append.1 hk with hk | hk
    · obtain ⟨a, ha, hk⟩ := List.mem_flatMap.1 hk
      obtain ⟨b, hb, rfl⟩ := List.mem_map.1 hk
      exact ⟨link, List.mem_cons_self, a, List.mem_append_left _ ha, b, hb, rfl⟩
    · obtain ⟨later, hlater, a, ha, b, hb, rfl⟩ := ih hk
      exact ⟨later, List.mem_cons_of_mem link hlater, a, List.mem_append_right sources ha, b, hb, rfl⟩

def Chain.refs (c : Chain) : List NodeRef := c.first ++ c.links.flatMap (·.group)

def State.withEdges (s : State) (edges : List Edge) : State :=
  { s with graph := { s.graph with edges := s.graph.edges ++ edges } }

namespace State

variable {d : Defaults}

theorem withEdges_nil (s : State) : s.withEdges [] = s := by simp [withEdges]

theorem withEdges_withEdges (s : State) (es fs : List Edge) :
    (s.withEdges es).withEdges fs = s.withEdges (es ++ fs) := by
  simp [withEdges, List.append_assoc]

theorem addEdge_eq (s : State) (source target : String) (label : Option String) (k : Connector) :
    s.addEdge d source target label k =
      s.withEdges [freshEdge d s.edgeStyles source target label k] := rfl

theorem addLink_eq (s : State) (sources : List NodeRef) (link : Link) :
    s.addLink d sources link = s.withEdges (linkEdges d s.edgeStyles sources link) := by
  have htargets (source : NodeRef) (targets : List NodeRef) (s : State) :
      targets.foldl (fun s target =>
          s.addEdge d source.id target.id link.label link.connector) s =
        s.withEdges (targets.map fun target =>
          freshEdge d s.edgeStyles source.id target.id link.label link.connector) := by
    induction targets generalizing s with
    | nil => exact (withEdges_nil s).symm
    | cons target rest ih =>
      rw [List.foldl_cons, ih, addEdge_eq, withEdges_withEdges]
      rfl
  unfold addLink linkEdges
  induction sources generalizing s with
  | nil => exact (withEdges_nil s).symm
  | cons source rest ih =>
    rw [List.foldl_cons, ih, htargets, withEdges_withEdges]
    rfl

theorem addLinks_eq (s : State) (sources : List NodeRef) (links : List Link) :
    s.addLinks d sources links = s.withEdges (chainEdges d s.edgeStyles sources links) := by
  induction links generalizing s sources with
  | nil => exact (withEdges_nil s).symm
  | cons link rest ih =>
    rw [addLinks, ih, addLink_eq, withEdges_withEdges]
    rfl

/-- The state `t` has what `s` has, but for the graph and the classes of nodes. -/
structure Keeps (s t : State) : Prop where
  enclosing : t.enclosing = s.enclosing
  nodeStyles : t.nodeStyles = s.nodeStyles
  edgeStyles : t.edgeStyles = s.edgeStyles
  classStyles : t.classStyles = s.classStyles

theorem Keeps.trans {s t u : State} (h : s.Keeps t) (h' : t.Keeps u) : s.Keeps u where
  enclosing := h'.enclosing.trans h.enclosing
  nodeStyles := h'.nodeStyles.trans h.nodeStyles
  edgeStyles := h'.edgeStyles.trans h.edgeStyles
  classStyles := h'.classStyles.trans h.classStyles

theorem Keeps.foldl {α : Type} {f : State → α → State} (h : ∀ (s : State) a, s.Keeps (f s a))
    (l : List α) (s : State) : s.Keeps (l.foldl f s) where
  enclosing := foldl_keeps State.enclosing (fun s a => (h s a).enclosing) l s
  nodeStyles := foldl_keeps State.nodeStyles (fun s a => (h s a).nodeStyles) l s
  edgeStyles := foldl_keeps State.edgeStyles (fun s a => (h s a).edgeStyles) l s
  classStyles := foldl_keeps State.classStyles (fun s a => (h s a).classStyles) l s

theorem keeps_graph (s : State) (g : Graph) : s.Keeps { s with graph := g } := ⟨rfl, rfl, rfl, rfl⟩

theorem keeps_assignClass (s : State) (id className : String) :
    s.Keeps (s.assignClass id className) := ⟨rfl, rfl, rfl, rfl⟩

theorem keeps_touch (s : State) (r : NodeRef) : s.Keeps (s.touch d r) :=
  (keeps_graph s _).trans (.foldl (fun s name => keeps_assignClass s r.id name) r.classes _)

theorem entries_ensureNode (e : Enclosing) (g : Graph) (r : NodeRef) :
    (ensureNode d e g r).nodes.entries =
      if r.id ∈ g.nodes.keys then g.nodes.entries
      else g.nodes.entries ++ [(r.id, freshNode d e.current r)] := by
  unfold ensureNode
  by_cases h : r.id ∈ g.nodes.keys
  · rw [if_pos (Table.contains_iff.2 h), if_pos h]
  · rw [if_neg (mt Table.contains_iff.1 h), if_neg h]
    exact Table.entries_modify_insertNew h _ _

def addKey (keys : List String) (id : String) : List String :=
  if id ∈ keys then keys else keys ++ [id]

theorem keys_ensureNode (e : Enclosing) (g : Graph) (r : NodeRef) :
    (ensureNode d e g r).nodes.keys = addKey g.nodes.keys r.id := by
  rw [Table.keys, entries_ensureNode, addKey]
  by_cases h : r.id ∈ g.nodes.keys
  · rw [if_pos h, if_pos h]
    rfl
  · rw [if_neg h, if_neg h, List.map_append]
    rfl

@[simp] theorem edges_ensureNode (e : Enclosing) (g : Graph) (r : NodeRef) :
    (ensureNode d e g r).edges = g.edges := by
  unfold ensureNode
  split <;> rfl

theorem graph_touch (s : State) (r : NodeRef) :
    (s.touch d r).graph = ensureNode d s.enclosing s.graph r :=
  foldl_keeps State.graph (f := fun s c => s.assignClass r.id c) (fun _ _ => rfl) r.classes _

theorem graph_foldl_touch (refs : List NodeRef) (s : State) :
    (refs.foldl (touch d) s).graph = refs.foldl (ensureNode d s.enclosing) s.graph := by
  induction refs generalizing s with
  | nil => rfl
  | cons r rest ih =>
    rw [List.foldl_cons, ih, graph_touch, (keeps_touch s r).enclosing, List.foldl_cons]

theorem keys_foldl_ensureNode (e : Enclosing) (refs : List NodeRef) (g : Graph) :
    (refs.foldl (ensureNode d e) g).nodes.keys = (refs.map (·.id)).foldl addKey g.nodes.keys := by
  induction refs generalizing g with
  | nil => rfl
  | cons r rest ih => rw [List.foldl_cons, ih, keys_ensureNode, List.map_cons, List.foldl_cons]

theorem edges_foldl_ensureNode (e : Enclosing) (refs : List NodeRef) (g : Graph) :
    (refs.foldl (ensureNode d e) g).edges = g.edges :=
  foldl_keeps Graph.edges (fun g r => edges_ensureNode e g r) refs g

/-- Beside the edges a chain changes what its references change. -/
theorem addChain_eq (s : State) (c : Chain) :
    s.addChain d c =
      (c.refs.foldl (touch d) s).withEdges (chainEdges d s.edgeStyles c.first c.links) := by
  -- the styles that new edges take are those from before the references
  have hstyles : (c.refs.foldl (touch d) s).edgeStyles = s.edgeStyles :=
    (Keeps.foldl keeps_touch c.refs s).edgeStyles
  rw [← hstyles]
  exact addLinks_eq _ c.first c.links

/-- A chain refers to its nodes and then appends its edges. -/
theorem graph_addChain (s : State) (c : Chain) :
    (s.addChain d c).graph =
      { c.refs.foldl (ensureNode d s.enclosing) s.graph with
        edges := s.graph.edges ++ chainEdges d s.edgeStyles c.first c.links } := by
  rw [addChain_eq, withEdges]
  simp only [graph_foldl_touch, edges_foldl_ensureNode]

theorem keeps_addChain (s : State) (c : Chain) : s.Keeps (s.addChain d c) := by
  rw [addChain_eq]
  exact (Keeps.foldl keeps_touch c.refs s).trans (keeps_graph _ _)

theorem keeps_assignClasses (s : State) (ids classes : List String) :
    s.Keeps (s.apply d (.assignClasses ids classes)) :=
  .foldl (fun s id => .foldl (fun s name => keeps_assignClass s id name) classes s) ids s

/-- The styles of nodes after a statement: only style statements put properties to them. -/
theorem nodeStyles_apply (s : State) (st : Statement) :
    (s.apply d st).nodeStyles =
      match st with
      | .styleNodes ids ps =>
        ids.foldl (fun t id => t.update id .empty (·.insertAll ps)) s.nodeStyles
      | _ => s.nodeStyles := by
  cases st with
  | styleNodes ids ps =>
    have hone (s : State) (id : String) : (s.styleNode d ps id).nodeStyles =
        s.nodeStyles.update id .empty (·.insertAll ps) := by
      rw [← (keeps_touch (d := d) s ⟨id, none, none, []⟩).nodeStyles]
      rfl
    exact (List.foldl_hom State.nodeStyles fun s id => (hone s id).symm).symm
  | chain c => exact (keeps_addChain s c).nodeStyles
  | node r => exact (keeps_touch s r).nodeStyles
  | assignClasses ids classes => exact (keeps_assignClasses s ids classes).nodeStyles
  | header | beginSubgraph | endSubgraph | defineClasses | styleEdges | styleLinks | nothing => rfl

/-- The properties of classes after a statement. -/
theorem classStyles_apply (s : State) (st : Statement) :
    (s.apply d st).classStyles =
      match st with
      | .defineClasses names ps => names.foldl (fun t name => t.insert name ps) s.classStyles
      | _ => s.classStyles := by
  cases st with
  | styleNodes ids ps =>
    refine foldl_keeps State.classStyles (fun s id => ?_) ids s
    exact (keeps_touch (d := d) s ⟨id, none, none, []⟩).classStyles
  | chain c => exact (keeps_addChain s c).classStyles
  | node r => exact (keeps_touch s r).classStyles
  | assignClasses ids classes => exact (keeps_assignClasses s ids classes).classStyles
  | header | beginSubgraph | endSubgraph | defineClasses | styleEdges | styleLinks | nothing => rfl

/-- The properties of edges by their ends after a statement. -/
theorem edgeStyles_apply (s : State) (st : Statement) :
    (s.apply d st).edgeStyles =
      match st with
      | .styleEdges source target ps =>
        s.edgeStyles.update (source, target) .empty (·.insertAll ps)
      | _ => s.edgeStyles := by
  cases st with
  | styleNodes ids ps =>
    refine foldl_keeps State.edgeStyles (fun s id => ?_) ids s
    exact (keeps_touch (d := d) s ⟨id, none, none, []⟩).edgeStyles
  | chain c => exact (keeps_addChain s c).edgeStyles
  | node r => exact (keeps_touch s r).edgeStyles
  | assignClasses ids classes => exact (keeps_assignClasses s ids classes).edgeStyles
  | header | beginSubgraph | endSubgraph | defineClasses | styleEdges | styleLinks | nothing => rfl

/-- Only the ends of subgraphs change what is around new nodes. -/
theorem enclosing_apply (s : State) (st : Statement) :
    (s.apply d st).enclosing =
      match st with
      | .beginSubgraph name => s.enclosing.enter name
      | .endSubgraph => s.enclosing.leave
      | _ => s.enclosing := by
  cases st with
  | styleNodes ids ps =>
    refine foldl_keeps State.enclosing (fun s id => ?_) ids s
    exact (keeps_touch (d := d) s ⟨id, none, none, []⟩).enclosing
  | chain c => exact (keeps_addChain s c).enclosing
  | node r => exact (keeps_touch s r).enclosing
  | assignClasses ids classes => exact (keeps_assignClasses s ids classes).enclosing
  | header | beginSubgraph | endSubgraph | defineClasses | styleEdges | styleLinks | nothing => rfl

end State
end Flowchart.Source
