import Flowchart.Proofs.Source.Grounded
import Flowchart.Proofs.Source.Row

namespace Flowchart

open Source (unstyledEntries)

/-- The graph begins with the nodes and the edges of `g`, and they differ in their styles only. -/
structure Graph.Extends (h g : Graph) : Prop where
  nodes : unstyledEntries g.nodes <+: unstyledEntries h.nodes
  edges : g.edges.map Edge.unstyled <+: h.edges.map Edge.unstyled

theorem Graph.Extends.refl (g : Graph) : g.Extends g :=
  ⟨List.prefix_refl _, List.prefix_refl _⟩

theorem Graph.Extends.trans {g h k : Graph} (hk : k.Extends h) (hg : h.Extends g) : k.Extends g :=
  ⟨hg.nodes.trans hk.nodes, hg.edges.trans hk.edges⟩

namespace Source

namespace State

variable {d : Defaults}

/-- References append the nodes that are not there, and pass over the others. -/
theorem entries_prefix_foldl_ensureNode (e : Enclosing) (refs : List NodeRef) (g : Graph) :
    g.nodes.entries <+: (refs.foldl (ensureNode d e) g).nodes.entries := by
  induction refs generalizing g with
  | nil => exact List.prefix_refl _
  | cons r rest ih =>
    have hone : g.nodes.entries <+: (ensureNode d e g r).nodes.entries := by
      rw [entries_ensureNode]
      split
      · exact List.prefix_refl _
      · exact List.prefix_append _ _
    exact hone.trans (ih (ensureNode d e g r))

theorem extends_apply (s : State) (st : Statement) : (s.apply d st).graph.Extends s.graph := by
  constructor
  · rw [nodes_apply]
    exact (entries_prefix_foldl_ensureNode s.enclosing st.nodeRefs s.graph).map _
  · rw [unstyled_edges_apply]
    exact List.prefix_append _ _

theorem extends_foldl_apply (statements : List Statement) (s : State) :
    (statements.foldl (apply d) s).graph.Extends s.graph := by
  induction statements generalizing s with
  | nil => exact .refl _
  | cons st rest ih => exact (ih (s.apply d st)).trans (extends_apply s st)

/-- The styles at the end of a reading touch nothing that counts here. -/
theorem extends_finish {s s' : State} (h : s'.graph.Extends s.graph) :
    s'.finish.Extends s.finish := by
  constructor
  · rw [unstyledEntries_finish, unstyledEntries_finish]
    exact h.nodes
  · exact h.edges

end State

/-- Under every theme a source that goes on extends the graph of the source. -/
theorem readWith_append_extends (t : Theme) (source more : String) :
    (readWith t (source ++ "\n" ++ more)).graph.Extends (readWith t source).graph := by
  have hrows : Text.rows (source ++ "\n" ++ more).toList =
      Text.rows source.toList ++ Text.rows more.toList := by
    rw [← Text.rows_append]
    simp
  rw [readWith_eq_progressAfter, readWith_eq_progressAfter, hrows, progressAfter_append]
  -- the second reading goes on from the state in which the first one ends
  refine State.extends_finish ?_
  rw [state_foldl_read]
  exact State.extends_foldl_apply _ _

end Source
end Flowchart
