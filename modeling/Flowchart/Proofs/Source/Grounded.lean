import Flowchart.Proofs.Source.Growth
import Mathlib.Data.List.Induction

namespace Flowchart

/-- Nodes are found under their own identifiers, and edges run between nodes. -/
structure Graph.Grounded (g : Graph) : Prop where
  keyed : ∀ e ∈ g.nodes.entries, e.2.id = e.1
  ends : ∀ e ∈ g.edges, e.source ∈ g.nodes.keys ∧ e.target ∈ g.nodes.keys

def Node.unstyled (n : Node) : Node :=
  { Node.new n.id n.label n.shape n.subgraph with
    position := n.position
    rank := n.rank
    size := n.size }

def Edge.unstyled (e : Edge) : Edge :=
  { Edge.new e.source e.target e.label .solid e.arrowhead with
    exitPort := e.exitPort
    entryPort := e.entryPort
    exitOffset := e.exitOffset
    entryOffset := e.entryOffset }

namespace Source

open State (addKey)

def Statement.refs : Statement → List String
  | .chain c => c.refs.map (·.id)
  | .node r => [r.id]
  | .styleNodes ids _ => ids
  | _ => []

def Statement.nodeRefs : Statement → List NodeRef
  | .chain c => c.refs
  | .node r => [r]
  | .styleNodes ids _ => ids.map fun id => ⟨id, none, none, []⟩
  | _ => []

theorem Statement.map_id_nodeRefs (st : Statement) : st.nodeRefs.map (·.id) = st.refs := by
  cases st with
  | styleNodes ids ps => exact (List.map_map ..).trans (List.map_id ids)
  | chain | node | header | beginSubgraph | endSubgraph | defineClasses | assignClasses | styleEdges
  | styleLinks | nothing => rfl

def firstRefs (source : List Char) : List String :=
  ((statementsOf source).flatMap Statement.refs).eraseDups

theorem mem_foldl_addKey {id : String} (ids keys : List String) :
    id ∈ ids.foldl addKey keys ↔ id ∈ keys ∨ id ∈ ids := by
  induction ids generalizing keys with
  | nil => simp
  | cons a rest ih =>
    have hone : id ∈ addKey keys a ↔ id ∈ keys ∨ id = a := by
      unfold addKey
      by_cases h : a ∈ keys
      · rw [if_pos h]
        constructor
        · exact .inl
        · rintro (hid | rfl)
          · exact hid
          · exact h
      · rw [if_neg h]
        simp
    rw [List.foldl_cons, ih, hone, List.mem_cons, or_assoc]

theorem foldl_addKey_eq_eraseDups (ids : List String) : ids.foldl addKey [] = ids.eraseDups := by
  -- from the end, since both sides decide on the last identifier by those before it
  induction ids using List.reverseRecOn with
  | nil => rfl
  | append_singleton ids a ih =>
    rw [List.foldl_append, ih, List.foldl_cons, List.foldl_nil, addKey, List.eraseDups_append]
    by_cases h : a ∈ ids
    · rw [if_pos (List.mem_eraseDups.2 h)]
      simp [List.removeAll, h]
    · rw [if_neg (mt List.mem_eraseDups.1 h)]
      simp [List.removeAll, h, List.eraseDups_cons]

theorem unstyled_styleEdgeAll (e : Edge) (ps : Properties) :
    (styleEdgeAll e ps).unstyled = e.unstyled := by
  refine foldl_keeps Edge.unstyled (fun e p => ?_) ps.entries e
  unfold styleEdge
  split
  · rfl
  · split <;> rfl
  · split <;> rfl
  · rfl

theorem unstyled_freshEdge (d : Defaults) (styles : Table (String × String) Properties)
    (source target : String) (label : Option String) (k : Connector) :
    (freshEdge d styles source target label k).unstyled =
      Edge.new source target label .solid k.arrowhead := by
  rw [freshEdge_eq, unstyled_styleEdgeAll]
  rfl

theorem unstyled_of_mem_chainEdges {d : Defaults} {styles : Table (String × String) Properties}
    {sources : List NodeRef} {links : List Link} {e : Edge}
    (he : e ∈ chainEdges d styles sources links) :
    ∃ a ∈ sources ++ links.flatMap (·.group), ∃ b ∈ sources ++ links.flatMap (·.group),
      ∃ label arrowhead, e.unstyled = Edge.new a.id b.id label .solid arrowhead := by
  rw [chainEdges_eq] at he
  obtain ⟨k, hk, rfl⟩ := List.mem_map.1 he
  obtain ⟨link, hlink, a, ha, b, hb, rfl⟩ := exists_of_mem_declarationsFrom hk
  have hgroup : b ∈ links.flatMap (·.group) := List.mem_flatMap.2 ⟨link, hlink, hb⟩
  exact ⟨a, ha, b, List.mem_append_right sources hgroup, link.label, link.connector.arrowhead,
    unstyled_freshEdge d styles a.id b.id link.label link.connector⟩

theorem unstyled_styleTargets (edges : List Edge) (ps : Properties) (targets : EdgeTargets) :
    (State.styleTargets edges ps targets).map Edge.unstyled = edges.map Edge.unstyled := by
  cases targets with
  | all =>
    rw [State.styleTargets, List.map_map]
    exact List.map_congr_left fun e _ => unstyled_styleEdgeAll e ps
  | numbers indices =>
    -- a number may be given twice, and then the edge is styled twice
    refine foldl_keeps (List.map Edge.unstyled) (fun edges i => ?_) indices edges
    apply List.ext_getElem?
    intro j
    rw [List.getElem?_map, List.getElem?_map, List.getElem?_modify, Option.map_eq_map,
      Option.map_map]
    congr 1
    funext e
    by_cases hij : i = j
    · simp [hij, unstyled_styleEdgeAll]
    · simp [hij]

theorem unstyled_styleNodeAll (n : Node) (ps : Properties) :
    (styleNodeAll n ps).unstyled = n.unstyled := by
  refine foldl_keeps Node.unstyled (fun n p => ?_) ps.entries n
  unfold styleNode
  split <;> simp only [Node.unstyled]

def unstyledEntries (nodes : Table String Node) : List (String × Node) :=
  nodes.entries.map fun e => (e.1, e.2.unstyled)

theorem unstyledEntries_modify (nodes : Table String Node) (id : String) (ps : Properties) :
    unstyledEntries (nodes.modify id (styleNodeAll · ps)) = unstyledEntries nodes := by
  rw [unstyledEntries, unstyledEntries, Table.entries_modify, List.map_map]
  refine List.map_congr_left fun e _ => ?_
  by_cases h : e.1 = id
  · simp [h, unstyled_styleNodeAll]
  · simp [h]

/-- The styles at the end of a reading leave edges, and the unstyled part of nodes. -/
theorem unstyledEntries_finish (s : State) :
    unstyledEntries s.finish.nodes = unstyledEntries s.graph.nodes := by
  unfold State.finish
  dsimp only
  -- classes come after the styles of nodes, so they are the outer of the two folds
  refine (foldl_keeps unstyledEntries (fun nodes e => ?_) s.classes.entries _).trans
    (foldl_keeps unstyledEntries (fun nodes e => ?_) s.nodeStyles.entries _)
  · refine foldl_keeps unstyledEntries (fun nodes name => ?_) e.2 nodes
    split
    · exact unstyledEntries_modify _ _ _
    · rfl
  · exact unstyledEntries_modify _ _ _

theorem keys_of_unstyledEntries {t u : Table String Node}
    (h : unstyledEntries t = unstyledEntries u) : t.keys = u.keys := by
  have hkeys (t : Table String Node) : t.keys = (unstyledEntries t).map (·.1) := by
    simp [Table.keys, unstyledEntries]
  rw [hkeys, hkeys, h]

namespace State

variable {d : Defaults}

theorem graph_foldl_styleNode (ps : Properties) (ids : List String) (s : State) :
    (ids.foldl (styleNode d ps) s).graph =
      (ids.map fun id => ⟨id, none, none, []⟩).foldl (ensureNode d s.enclosing) s.graph := by
  induction ids generalizing s with
  | nil => rfl
  | cons id rest ih =>
    have hgraph : (s.styleNode d ps id).graph =
        ensureNode d s.enclosing s.graph ⟨id, none, none, []⟩ := graph_touch s _
    have henclosing : (s.styleNode d ps id).enclosing = s.enclosing := (keeps_touch s _).enclosing
    rw [List.foldl_cons, ih, hgraph, henclosing, List.map_cons, List.foldl_cons]

theorem graph_assignClasses (s : State) (ids classes : List String) :
    (s.apply d (.assignClasses ids classes)).graph = s.graph := by
  have hone (id : String) (s : State) :
      (classes.foldl (fun s name => s.assignClass id name) s).graph = s.graph :=
    foldl_keeps graph (f := fun s name => s.assignClass id name) (fun _ _ => rfl) classes s
  exact foldl_keeps graph (fun s id => hone id s) ids s

/-- A statement makes nodes by references, and then at most appends or styles edges. -/
theorem nodes_apply (s : State) (st : Statement) :
    (s.apply d st).graph.nodes = (st.nodeRefs.foldl (ensureNode d s.enclosing) s.graph).nodes := by
  cases st with
  | chain c => rw [apply, graph_addChain, Statement.nodeRefs]
  | node r => exact congrArg Graph.nodes (graph_touch s r)
  | styleNodes ids ps => exact congrArg Graph.nodes (graph_foldl_styleNode ps ids s)
  | assignClasses ids classes => exact congrArg Graph.nodes (graph_assignClasses s ids classes)
  | header | beginSubgraph | endSubgraph | defineClasses | styleEdges | styleLinks | nothing => rfl

theorem keys_apply (s : State) (st : Statement) :
    (s.apply d st).graph.nodes.keys = st.refs.foldl addKey s.graph.nodes.keys := by
  rw [nodes_apply, keys_foldl_ensureNode, Statement.map_id_nodeRefs]

theorem keys_foldl_apply (statements : List Statement) (s : State) :
    (statements.foldl (apply d) s).graph.nodes.keys =
      (statements.flatMap Statement.refs).foldl addKey s.graph.nodes.keys := by
  induction statements generalizing s with
  | nil => rfl
  | cons st rest ih =>
    rw [List.foldl_cons, ih, keys_apply, List.flatMap_cons, List.foldl_append]

def newEdges (d : Defaults) (s : State) : Statement → List Edge
  | .chain c => chainEdges d s.edgeStyles c.first c.links
  | _ => []

/-- The edges that are there, after a statement: only statements about edges by number style them. -/
def restyledEdges (s : State) : Statement → List Edge
  | .styleLinks targets ps => styleTargets s.graph.edges ps targets
  | _ => s.graph.edges

/-- A statement styles the edges that are there and appends the ones it makes. -/
theorem edges_apply (s : State) (st : Statement) :
    (s.apply d st).graph.edges = s.restyledEdges st ++ newEdges d s st := by
  cases st with
  | chain c =>
    rw [apply, graph_addChain]
    rfl
  | node r =>
    refine Eq.trans ?_ (List.append_nil _).symm
    rw [apply, graph_touch, edges_ensureNode]
    rfl
  | styleNodes ids ps =>
    refine Eq.trans ?_ (List.append_nil _).symm
    rw [apply, graph_foldl_styleNode, edges_foldl_ensureNode]
    rfl
  | assignClasses ids classes =>
    refine Eq.trans ?_ (List.append_nil _).symm
    rw [graph_assignClasses]
    rfl
  | header | beginSubgraph | endSubgraph | defineClasses | styleEdges | styleLinks | nothing =>
    exact (List.append_nil _).symm

theorem unstyled_restyledEdges (s : State) (st : Statement) :
    (s.restyledEdges st).map Edge.unstyled = s.graph.edges.map Edge.unstyled := by
  cases st with
  | styleLinks targets ps => exact unstyled_styleTargets _ ps targets
  | chain | node | styleNodes | assignClasses | header | beginSubgraph | endSubgraph
  | defineClasses | styleEdges | nothing => rfl

theorem length_restyledEdges (s : State) (st : Statement) :
    (s.restyledEdges st).length = s.graph.edges.length := by
  have hedges := congrArg List.length (s.unstyled_restyledEdges st)
  rwa [List.length_map, List.length_map] at hedges

/-- A statement leaves the edges that are there, but for their styles, and appends the ones it
makes. -/
theorem unstyled_edges_apply (s : State) (st : Statement) :
    (s.apply d st).graph.edges.map Edge.unstyled =
      s.graph.edges.map Edge.unstyled ++ (newEdges d s st).map Edge.unstyled := by
  rw [edges_apply, List.map_append, unstyled_restyledEdges]

theorem length_edges_apply (s : State) (st : Statement) :
    (s.apply d st).graph.edges.length = s.graph.edges.length + (newEdges d s st).length := by
  rw [edges_apply, List.length_append, length_restyledEdges]

theorem unstyled_of_mem_newEdges {s : State} {st : Statement} {e : Edge}
    (he : e ∈ newEdges d s st) :
    ∃ a ∈ st.refs, ∃ b ∈ st.refs, ∃ label arrowhead,
      e.unstyled = Edge.new a b label .solid arrowhead := by
  cases st with
  | chain c =>
    obtain ⟨a, ha, b, hb, hedge⟩ := unstyled_of_mem_chainEdges he
    exact ⟨a.id, List.mem_map_of_mem ha, b.id, List.mem_map_of_mem hb, hedge⟩
  | _ => exact absurd he List.not_mem_nil

/-- Edges after a statement are old edges, perhaps styled, or new ones between references of the
statement. -/
theorem unstyled_apply {s : State} {st : Statement} {e : Edge}
    (he : e ∈ (s.apply d st).graph.edges) :
    (∃ f ∈ s.graph.edges, f.unstyled = e.unstyled) ∨
      ∃ a ∈ st.refs, ∃ b ∈ st.refs, ∃ label arrowhead,
        e.unstyled = Edge.new a b label .solid arrowhead := by
  have hmem := List.mem_map_of_mem (f := Edge.unstyled) he
  rw [unstyled_edges_apply, List.mem_append] at hmem
  rcases hmem with hold | hnew
  · exact .inl (List.mem_map.1 hold)
  · obtain ⟨f, hf, hsame⟩ := List.mem_map.1 hnew
    rw [← hsame]
    exact .inr (unstyled_of_mem_newEdges hf)

/-- What holds of the entries that are there and of the fresh ones holds after references. -/
theorem forall_foldl_ensureNode {P : String × Node → Prop} (enclosing : Enclosing)
    {refs : List NodeRef} {g : Graph}
    (hfresh : ∀ r ∈ refs, P (r.id, freshNode d enclosing.current r))
    (h : ∀ e ∈ g.nodes.entries, P e) :
    ∀ e ∈ (refs.foldl (ensureNode d enclosing) g).nodes.entries, P e := by
  induction refs generalizing g with
  | nil => exact h
  | cons r rest ih =>
    refine ih (fun r' hr' => hfresh r' (List.mem_cons_of_mem r hr')) fun e he => ?_
    rw [entries_ensureNode] at he
    split at he
    · exact h e he
    · rcases List.mem_append.1 he with he | he
      · exact h e he
      · obtain rfl := List.mem_singleton.1 he
        exact hfresh r List.mem_cons_self

/-- The same for a statement. -/
theorem forall_apply {P : String × Node → Prop} {s : State}
    (hfresh : ∀ subgraph r, P (r.id, freshNode d subgraph r))
    (h : ∀ e ∈ s.graph.nodes.entries, P e) (st : Statement) :
    ∀ e ∈ (s.apply d st).graph.nodes.entries, P e := by
  rw [nodes_apply]
  exact forall_foldl_ensureNode s.enclosing (fun r _ => hfresh s.enclosing.current r) h

/-- No statement takes the graph off its ground. -/
theorem grounded_apply {s : State} (h : s.graph.Grounded) (st : Statement) :
    (s.apply d st).graph.Grounded := by
  constructor
  · exact forall_apply (fun _ _ => rfl) h.keyed st
  · intro e he
    rw [keys_apply, mem_foldl_addKey, mem_foldl_addKey]
    rcases unstyled_apply he with ⟨f, hf, hedge⟩ | ⟨a, ha, b, hb, _, _, hedge⟩
    · have hsource := congrArg Edge.source hedge
      have htarget := congrArg Edge.target hedge
      change f.source = e.source at hsource
      change f.target = e.target at htarget
      exact ⟨.inl (hsource ▸ (h.ends f hf).1), .inl (htarget ▸ (h.ends f hf).2)⟩
    · have hsource := congrArg Edge.source hedge
      have htarget := congrArg Edge.target hedge
      change e.source = a at hsource
      change e.target = b at htarget
      exact ⟨.inr (hsource ▸ ha), .inr (htarget ▸ hb)⟩

theorem grounded_foldl_apply (statements : List Statement) {s : State} (h : s.graph.Grounded) :
    (statements.foldl (apply d) s).graph.Grounded := by
  induction statements generalizing s with
  | nil => exact h
  | cons st rest ih => exact ih (grounded_apply h st)

/-- References leave the entries that are there and add fresh ones under other identifiers. -/
theorem entry_foldl_ensureNode {enclosing : Enclosing} {refs : List NodeRef} {g : Graph}
    {e : String × Node} (he : e ∈ (refs.foldl (ensureNode d enclosing) g).nodes.entries) :
    e ∈ g.nodes.entries ∨
      e.1 ∉ g.nodes.keys ∧ ∃ r ∈ refs, e = (r.id, freshNode d enclosing.current r) := by
  induction refs generalizing g with
  | nil => exact .inl he
  | cons r rest ih =>
    rcases ih he with he | ⟨hnew, r', hr', rfl⟩
    · rw [entries_ensureNode] at he
      split at he
      · exact .inl he
      next hr =>
      rcases List.mem_append.1 he with he | he
      · exact .inl he
      · obtain rfl := List.mem_singleton.1 he
        exact .inr ⟨hr, r, List.mem_cons_self, rfl⟩
    · refine .inr ⟨fun hold => hnew ?_, r', List.mem_cons_of_mem r hr', rfl⟩
      rw [keys_ensureNode]
      exact (mem_foldl_addKey [r.id] g.nodes.keys).2 (.inl hold)

/-- Every node is as the statement that first refers to it made it. -/
theorem entry_run {statements : List Statement} {e : String × Node}
    (he : e ∈ (statements.foldl (apply d) {}).graph.nodes.entries) :
    ∃ before st after, statements = before ++ st :: after ∧
      (∀ earlier ∈ before, e.1 ∉ earlier.refs) ∧
      ∃ r ∈ st.nodeRefs,
        e = (r.id, freshNode d (before.foldl (apply d) {}).enclosing.current r) := by
  induction statements using List.reverseRecOn with
  | nil => exact absurd he List.not_mem_nil
  | append_singleton statements st ih =>
    rw [List.foldl_append] at he
    change e ∈ (apply d _ st).graph.nodes.entries at he
    rw [nodes_apply] at he
    rcases entry_foldl_ensureNode he with he | ⟨hnew, hfresh⟩
    · obtain ⟨before, first, after, rfl, hfirst⟩ := ih he
      exact ⟨before, first, after ++ [st], by simp, hfirst⟩
    · refine ⟨statements, st, [], rfl, fun earlier hearlier hmem => hnew ?_, hfresh⟩
      rw [keys_foldl_apply, mem_foldl_addKey]
      exact .inr (List.mem_flatMap.2 ⟨earlier, hearlier, hmem⟩)

theorem fresh_run (statements : List Statement) :
    ∀ e ∈ (statements.foldl (apply d) {}).graph.nodes.entries,
      ∃ subgraph r, e = (r.id, freshNode d subgraph r) := by
  intro e he
  obtain ⟨before, _, _, _, _, r, _, hfresh⟩ := entry_run he
  exact ⟨_, r, hfresh⟩

theorem keys_finish (s : State) : s.finish.nodes.keys = s.graph.nodes.keys :=
  keys_of_unstyledEntries (unstyledEntries_finish s)

theorem exists_entry_of_finish {s : State} {id : String} {n : Node}
    (h : s.finish.node? id = some n) :
    ∃ m, (id, m) ∈ s.graph.nodes.entries ∧ m.unstyled = n.unstyled := by
  have hmem : (id, n.unstyled) ∈ unstyledEntries s.graph.nodes :=
    unstyledEntries_finish s ▸ List.mem_map_of_mem (Table.mem_entries_of_find? h)
  obtain ⟨⟨id', m⟩, hm, hsame⟩ := List.mem_map.1 hmem
  obtain ⟨rfl, hnode⟩ := Prod.mk.inj hsame
  exact ⟨m, hm, hnode⟩

theorem grounded_finish {s : State} (h : s.graph.Grounded) : s.finish.Grounded := by
  constructor
  · intro e he
    have hmem : (e.1, e.2.unstyled) ∈ unstyledEntries s.graph.nodes :=
      unstyledEntries_finish s ▸ List.mem_map_of_mem he
    obtain ⟨f, hf, heq⟩ := List.mem_map.1 hmem
    obtain ⟨hkey, hnode⟩ := Prod.mk.inj heq
    have hid : f.2.unstyled.id = e.2.unstyled.id := congrArg Node.id hnode
    exact hid.symm.trans ((h.keyed f hf).trans hkey)
  · intro e he
    rw [keys_finish]
    exact h.ends e he

end State

/-- Under every theme the nodes of a source are the identifiers it refers to, in order of first
reference. -/
theorem keys_readWith (t : Theme) (source : String) :
    (readWith t source).graph.nodes.keys = firstRefs source.toList := by
  have hempty : ({} : State).graph.nodes.keys = [] := rfl
  rw [graph_readWith, State.keys_finish, State.keys_foldl_apply, hempty, firstRefs,
    foldl_addKey_eq_eraseDups]

theorem grounded_readWith (t : Theme) (source : String) : (readWith t source).graph.Grounded := by
  have hempty : ({} : State).graph.Grounded :=
    ⟨fun _ he => absurd he List.not_mem_nil, fun _ he => absurd he List.not_mem_nil⟩
  rw [graph_readWith]
  exact State.grounded_finish (State.grounded_foldl_apply _ hempty)

end Source
end Flowchart
