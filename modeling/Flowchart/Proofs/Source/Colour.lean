import Flowchart.Proofs.Graph.Recast
import Flowchart.Proofs.Source.Growth

/-! Between any two statements the states of two readings are alike: they are the same but for the
colours of nodes and edges. -/
namespace Flowchart

def Node.uncoloured (n : Node) : Node :=
  { n with fill := .black, border := .black, textColor := .black }

def Edge.uncoloured (e : Edge) : Edge := { e with color := .black }

namespace Graph

def uncoloured (g : Graph) : Graph := g.recast g.direction Node.uncoloured Edge.uncoloured

def uncolouredEntries (nodes : Table String Node) : List (String × Node) :=
  nodes.entries.map fun e => (e.1, e.2.uncoloured)

variable {g h : Graph}

theorem uncoloured_eq_iff :
    g.uncoloured = h.uncoloured ↔ g.direction = h.direction ∧
      uncolouredEntries g.nodes = uncolouredEntries h.nodes ∧
      g.edges.map Edge.uncoloured = h.edges.map Edge.uncoloured := by
  simp only [uncoloured, recast, Graph.mk.injEq, Table.ext_iff, Table.entries_mapPlaces_const,
    uncolouredEntries]

theorem keys_of_uncoloured (hgh : g.uncoloured = h.uncoloured) : g.nodes.keys = h.nodes.keys := by
  rw [← g.keys_recast g.direction, ← h.keys_recast h.direction]
  exact congrArg (fun k : Graph => k.nodes.keys) hgh

end Graph

open Flowchart.Graph (uncolouredEntries)

namespace Source

theorem uncoloured_styleNode (n : Node) (p : String × String) :
    (styleNode n p).uncoloured = (styleNode n.uncoloured p).uncoloured := by
  unfold styleNode
  split <;> rfl

theorem uncoloured_styleEdge (e : Edge) (p : String × String) :
    (styleEdge e p).uncoloured = (styleEdge e.uncoloured p).uncoloured := by
  unfold styleEdge
  split
  · rfl
  · split <;> rfl
  · split <;> rfl
  · rfl

theorem uncoloured_styleNodeAll {n m : Node} (hnm : n.uncoloured = m.uncoloured)
    (ps : Properties) : (styleNodeAll n ps).uncoloured = (styleNodeAll m ps).uncoloured := by
  refine List.foldl_rel (r := fun n m : Node => n.uncoloured = m.uncoloured) hnm ?_
  intro p _ n m hnm
  rw [uncoloured_styleNode n, hnm, ← uncoloured_styleNode m]

theorem uncoloured_styleEdgeAll {e f : Edge} (hef : e.uncoloured = f.uncoloured)
    (ps : Properties) : (styleEdgeAll e ps).uncoloured = (styleEdgeAll f ps).uncoloured := by
  refine List.foldl_rel (r := fun e f : Edge => e.uncoloured = f.uncoloured) hef ?_
  intro p _ e f hef
  rw [uncoloured_styleEdge e, hef, ← uncoloured_styleEdge f]

theorem uncoloured_freshEdge (d d' : Defaults) (styles : Table (String × String) Properties)
    (source target : String) (label : Option String) (k : Connector) :
    (freshEdge d styles source target label k).uncoloured =
      (freshEdge d' styles source target label k).uncoloured := by
  rw [freshEdge_eq, freshEdge_eq]
  refine uncoloured_styleEdgeAll ?_ _
  rfl

theorem uncoloured_chainEdges (d d' : Defaults) (styles : Table (String × String) Properties)
    (sources : List NodeRef) (links : List Link) :
    (chainEdges d styles sources links).map Edge.uncoloured =
      (chainEdges d' styles sources links).map Edge.uncoloured := by
  rw [chainEdges_eq, chainEdges_eq, List.map_map, List.map_map]
  exact List.map_congr_left fun k _ =>
    uncoloured_freshEdge d d' styles k.source k.target k.label k.connector

theorem uncoloured_styleTargets {edges edges' : List Edge}
    (hedges : edges.map Edge.uncoloured = edges'.map Edge.uncoloured) (ps : Properties)
    (targets : EdgeTargets) :
    (State.styleTargets edges ps targets).map Edge.uncoloured =
      (State.styleTargets edges' ps targets).map Edge.uncoloured := by
  have hstyle (e : Edge) :
      (styleEdgeAll e ps).uncoloured = (styleEdgeAll e.uncoloured ps).uncoloured := by
    refine uncoloured_styleEdgeAll ?_ ps
    rfl
  cases targets with
  | all =>
    have hall (edges : List Edge) : (edges.map (styleEdgeAll · ps)).map Edge.uncoloured =
        (edges.map Edge.uncoloured).map fun e => (styleEdgeAll e ps).uncoloured := by
      rw [List.map_map, List.map_map]
      exact List.map_congr_left fun e _ => hstyle e
    rw [State.styleTargets, State.styleTargets, hall, hall, hedges]
  | numbers indices =>
    have hone (edges : List Edge) (i : Nat) :
        (edges.modify i (styleEdgeAll · ps)).map Edge.uncoloured =
          (edges.map Edge.uncoloured).modify i fun e => (styleEdgeAll e ps).uncoloured := by
      apply List.ext_getElem?
      intro j
      rw [List.getElem?_map, List.getElem?_modify, List.getElem?_modify, List.getElem?_map]
      cases edges[j]? with
      | none => rfl
      | some e => by_cases hij : i = j <;> simp [hij, ← hstyle e]
    refine List.foldl_rel
      (r := fun l m : List Edge => l.map Edge.uncoloured = m.map Edge.uncoloured) hedges ?_
    intro i _ l m hlm
    rw [hone, hone, hlm]

namespace State

theorem direction_ensureNode (d : Defaults) (enclosing : Enclosing) (g : Graph) (r : NodeRef) :
    (ensureNode d enclosing g r).direction = g.direction := by
  unfold ensureNode
  split <;> rfl

theorem uncoloured_ensureNode (d d' : Defaults) (enclosing : Enclosing) {g h : Graph}
    (hgh : g.uncoloured = h.uncoloured) (r : NodeRef) :
    (ensureNode d enclosing g r).uncoloured = (ensureNode d' enclosing h r).uncoloured := by
  obtain ⟨hdirection, hentries, hedges⟩ := Graph.uncoloured_eq_iff.1 hgh
  refine Graph.uncoloured_eq_iff.2 ⟨?_, ?_, ?_⟩
  · rw [direction_ensureNode, direction_ensureNode, hdirection]
  · rw [uncolouredEntries, uncolouredEntries, entries_ensureNode, entries_ensureNode,
      Graph.keys_of_uncoloured hgh]
    rw [uncolouredEntries, uncolouredEntries] at hentries
    by_cases hr : r.id ∈ h.nodes.keys
    · rw [if_pos hr, if_pos hr, hentries]
    · rw [if_neg hr, if_neg hr, List.map_append, List.map_append, hentries]
      rfl
  · rw [edges_ensureNode, edges_ensureNode, hedges]

structure Alike (s t : State) : Prop where
  graph : s.graph.uncoloured = t.graph.uncoloured
  enclosing : s.enclosing = t.enclosing
  nodeStyles : s.nodeStyles = t.nodeStyles
  edgeStyles : s.edgeStyles = t.edgeStyles
  classStyles : s.classStyles = t.classStyles
  classes : s.classes = t.classes

variable {s t : State}

theorem Alike.assignClass (hst : s.Alike t) (id className : String) :
    (s.assignClass id className).Alike (t.assignClass id className) :=
  { hst with classes := by rw [State.assignClass, State.assignClass, hst.classes] }

theorem Alike.touch (d d' : Defaults) (hst : s.Alike t) (r : NodeRef) :
    (s.touch d r).Alike (t.touch d' r) := by
  refine List.foldl_rel (r := Alike) ?_ fun className _ s t hst => hst.assignClass r.id className
  refine { hst with graph := ?_ }
  rw [hst.enclosing]
  exact uncoloured_ensureNode d d' t.enclosing hst.graph r

theorem Alike.withEdges (hst : s.Alike t) {edges edges' : List Edge}
    (hedges : edges.map Edge.uncoloured = edges'.map Edge.uncoloured) :
    (s.withEdges edges).Alike (t.withEdges edges') := by
  obtain ⟨hdirection, hentries, hbefore⟩ := Graph.uncoloured_eq_iff.1 hst.graph
  refine { hst with graph := Graph.uncoloured_eq_iff.2 ⟨hdirection, hentries, ?_⟩ }
  rw [State.withEdges, State.withEdges, List.map_append, List.map_append, hbefore, hedges]

/-- A statement keeps states alike, under any two themes. -/
theorem Alike.apply (d d' : Defaults) (hst : s.Alike t) (st : Statement) :
    (s.apply d st).Alike (t.apply d' st) := by
  obtain ⟨hdirection, hentries, hedges⟩ := Graph.uncoloured_eq_iff.1 hst.graph
  cases st with
  | header direction =>
    exact { hst with graph := Graph.uncoloured_eq_iff.2 ⟨rfl, hentries, hedges⟩ }
  | beginSubgraph name =>
    exact { hst with enclosing := congrArg (Enclosing.enter · name) hst.enclosing }
  | endSubgraph => exact { hst with enclosing := congrArg Enclosing.leave hst.enclosing }
  | defineClasses names ps =>
    exact { hst with classStyles := by rw [State.apply, State.apply, hst.classStyles] }
  | assignClasses ids classes =>
    refine List.foldl_rel (r := Alike) hst fun id _ s t hst => ?_
    exact List.foldl_rel (r := Alike) hst fun name _ s t hst => hst.assignClass id name
  | styleNodes ids ps =>
    refine List.foldl_rel (r := Alike) hst fun id _ s t hst => ?_
    have htouch := hst.touch d d' ⟨id, none, none, []⟩
    exact { htouch with
      nodeStyles := congrArg (fun t => t.update id .empty (·.insertAll ps)) htouch.nodeStyles }
  | styleEdges source target ps =>
    exact { hst with
      edgeStyles := congrArg (fun t => t.update (source, target) .empty (·.insertAll ps))
        hst.edgeStyles }
  | styleLinks targets ps =>
    have hstyled := uncoloured_styleTargets hedges ps targets
    exact { hst with graph := Graph.uncoloured_eq_iff.2 ⟨hdirection, hentries, hstyled⟩ }
  | chain c =>
    have hrefs : (c.refs.foldl (State.touch d) s).Alike (c.refs.foldl (State.touch d') t) :=
      List.foldl_rel (r := Alike) hst fun r _ s t hst => hst.touch d d' r
    rw [State.apply, State.apply, addChain_eq, addChain_eq, hst.edgeStyles]
    exact hrefs.withEdges (uncoloured_chainEdges d d' t.edgeStyles c.first c.links)
  | node r => exact hst.touch d d' r
  | nothing => exact hst

/-- So do the statements of a whole source. -/
theorem alike_run (d d' : Defaults) (statements : List Statement) :
    (statements.foldl (State.apply d) {}).Alike (statements.foldl (State.apply d') {}) :=
  List.foldl_rel (r := Alike) ⟨rfl, rfl, rfl, rfl, rfl, rfl⟩
    fun st _ _ _ hst => hst.apply d d' st

/-- The styles at the end of a reading do not set states apart. -/
theorem Alike.finish (hst : s.Alike t) : s.finish.uncoloured = t.finish.uncoloured := by
  have hmodify (id : String) (ps : Properties) (nodes : Table String Node) :
      uncolouredEntries (nodes.modify id (styleNodeAll · ps)) =
        (uncolouredEntries nodes).map fun e =>
          if e.1 = id then (e.1, (styleNodeAll e.2 ps).uncoloured) else e := by
    rw [uncolouredEntries, uncolouredEntries, Table.entries_modify, List.map_map, List.map_map]
    refine List.map_congr_left fun e _ => ?_
    have hstyle : (styleNodeAll e.2 ps).uncoloured =
        (styleNodeAll e.2.uncoloured ps).uncoloured := by
      refine uncoloured_styleNodeAll ?_ ps
      rfl
    by_cases he : e.1 = id <;> simp [he, hstyle]
  obtain ⟨hdirection, hentries, hedges⟩ := Graph.uncoloured_eq_iff.1 hst.graph
  refine Graph.uncoloured_eq_iff.2 ⟨hdirection, ?_, hedges⟩
  -- the styles and the classes are the same in both states, so the folds run over the same lists
  unfold State.finish
  rw [hst.nodeStyles, hst.classes, hst.classStyles]
  refine List.foldl_rel (r := (uncolouredEntries · = uncolouredEntries ·))
    (List.foldl_rel (r := (uncolouredEntries · = uncolouredEntries ·))
      hentries ?_) ?_
  · intro e _ nodes nodes' hnodes
    rw [hmodify, hmodify, hnodes]
  · intro e _ nodes nodes' hnodes
    refine List.foldl_rel (r := (uncolouredEntries · = uncolouredEntries ·)) hnodes ?_
    intro name _ nodes nodes' hnodes
    cases t.classStyles.find? name with
    | none => exact hnodes
    | some ps =>
      dsimp only
      rw [hmodify, hmodify, hnodes]

end State

theorem uncoloured_readWith (t u : Theme) (source : String) :
    (readWith t source).graph.uncoloured = (readWith u source).graph.uncoloured := by
  rw [graph_readWith, graph_readWith]
  exact (State.alike_run _ _ _).finish

end Source
end Flowchart
