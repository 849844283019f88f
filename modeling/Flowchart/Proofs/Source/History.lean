import Flowchart.Proofs.Source.Restyle

namespace Flowchart.Source

def Statement.declarations : Statement → List Declaration
  | .chain c => declarationsFrom c.first c.links
  | _ => []

/-- The properties that a statement gives to the edges to come between two nodes. -/
def Statement.endsStyle? (source target : String) : Statement → Option Properties
  | .styleEdges a b ps => if a = source ∧ b = target then some ps else none
  | _ => none

def endsProperties (statements : List Statement) (source target : String) : Properties :=
  (statements.filterMap (·.endsStyle? source target)).foldl Table.insertAll .empty

def Statement.numberStyle? (i : Nat) : Statement → Option Properties
  | .styleLinks targets ps => if targets.means i then some ps else none
  | _ => none

namespace Declaration

def bare (t : Theme) (k : Declaration) : Edge where
  source := k.source
  target := k.target
  label := k.label
  color := t.edgeColor
  strokeWidth := 1.4
  style := k.connector.style
  arrowhead := k.connector.arrowhead
  exitPort := none
  entryPort := none
  exitOffset := .zero
  entryOffset := .zero

/-- The edge of a number that is declared after some statements and before others. -/
def edge (t : Theme) (before after : List Statement) (i : Nat) (k : Declaration) : Edge :=
  (after.filterMap (·.numberStyle? i)).foldl styleEdgeAll
    (styleEdgeAll (k.bare t) (endsProperties before k.source k.target))

end Declaration

/-- What is at a place of a flattened list is at a place of one of the lists. -/
theorem exists_of_getElem?_flatMap {α β : Type} {f : α → List β} {l : List α} {i : Nat} {b : β}
    (h : (l.flatMap f)[i]? = some b) :
    ∃ before a after j, l = before ++ a :: after ∧ (f a)[j]? = some b ∧
      i = (before.flatMap f).length + j := by
  induction l generalizing i with
  | nil => exact absurd h (by simp)
  | cons a rest ih =>
    rw [List.flatMap_cons] at h
    by_cases hi : i < (f a).length
    · rw [List.getElem?_append_left hi] at h
      exact ⟨[], a, rest, i, rfl, h, (Nat.zero_add i).symm⟩
    · have hle : (f a).length ≤ i := Nat.le_of_not_lt hi
      rw [List.getElem?_append_right hle] at h
      obtain ⟨before, a', after, j, rfl, hj, hplace⟩ := ih h
      refine ⟨a :: before, a', after, j, rfl, hj, ?_⟩
      rw [List.flatMap_cons, List.length_append]
      omega

namespace State

variable {d : Defaults}

def endsProperties (s : State) (source target : String) : Properties :=
  (s.edgeStyles.find? (source, target)).getD .empty

/-- A new edge is put under the properties given to its ends so far, if there are any. -/
theorem freshEdge_ofTheme (t : Theme) (s : State) (k : Declaration) :
    freshEdge (.ofTheme t) s.edgeStyles k.source k.target k.label k.connector =
      styleEdgeAll (k.bare t) (s.endsProperties k.source k.target) :=
  freshEdge_eq _ _ _ _ _ _

theorem newEdges_eq (s : State) (st : Statement) :
    newEdges d s st = st.declarations.map fun k =>
      freshEdge d s.edgeStyles k.source k.target k.label k.connector := by
  cases st with
  | chain c => exact chainEdges_eq d s.edgeStyles c.first c.links
  | _ => rfl

theorem length_edges_run (statements : List Statement) :
    (statements.foldl (apply d) {}).graph.edges.length =
      (statements.flatMap Statement.declarations).length := by
  have hall (s : State) : (statements.foldl (apply d) s).graph.edges.length =
      s.graph.edges.length + (statements.flatMap Statement.declarations).length := by
    induction statements generalizing s with
    | nil => rfl
    | cons st rest ih =>
      rw [List.foldl_cons, ih, length_edges_apply, newEdges_eq, List.length_map,
        List.flatMap_cons, List.length_append, Nat.add_assoc]
  exact (hall {}).trans (Nat.zero_add _)

theorem endsProperties_apply (s : State) (st : Statement) (source target : String) :
    (s.apply d st).endsProperties source target =
      (st.endsStyle? source target).elim (s.endsProperties source target)
        (s.endsProperties source target).insertAll := by
  rw [endsProperties, edgeStyles_apply]
  cases st with
  | styleEdges a b ps =>
    rw [Table.find?_update, Statement.endsStyle?]
    by_cases hends : a = source ∧ b = target
    · obtain ⟨rfl, rfl⟩ := hends
      rw [if_pos rfl, if_pos ⟨rfl, rfl⟩]
      rfl
    · have hkey : (source, target) ≠ (a, b) := by
        rintro ⟨⟩
        exact hends ⟨rfl, rfl⟩
      rw [if_neg hkey, if_neg hends]
      rfl
  | header | beginSubgraph | endSubgraph | defineClasses | assignClasses | styleNodes | styleLinks
  | chain | node | nothing => rfl

/-- A reading merges the properties of the statements about two ends. -/
theorem endsProperties_run (statements : List Statement) (source target : String) :
    (statements.foldl (apply d) {}).endsProperties source target =
      Source.endsProperties statements source target := by
  have hall (s : State) : (statements.foldl (apply d) s).endsProperties source target =
      (statements.filterMap (·.endsStyle? source target)).foldl Table.insertAll
        (s.endsProperties source target) := by
    induction statements generalizing s with
    | nil => rfl
    | cons st rest ih => rw [List.foldl_cons, ih, endsProperties_apply, foldl_filterMap_cons]
  exact hall {}

/-- A statement puts an edge that is there under the properties it gives to its number. -/
theorem getElem?_edges_apply {s : State} {i : Nat} {e : Edge} (he : s.graph.edges[i]? = some e)
    (st : Statement) :
    (s.apply d st).graph.edges[i]? = some ((st.numberStyle? i).elim e (styleEdgeAll e)) := by
  have hold : (s.restyledEdges st)[i]? = some ((st.numberStyle? i).elim e (styleEdgeAll e)) := by
    cases st with
    | styleLinks targets ps =>
      rw [restyledEdges, getElem?_styleTargets, he, Option.map_some, Statement.numberStyle?]
      cases targets.means i <;> rfl
    | header | beginSubgraph | endSubgraph | defineClasses | assignClasses | styleNodes | styleEdges
    | chain | node | nothing => exact he
  obtain ⟨hlt, -⟩ := List.getElem?_eq_some_iff.1 hold
  rw [edges_apply, List.getElem?_append_left hlt, hold]

theorem getElem?_edges_foldl_apply {s : State} {i : Nat} {e : Edge}
    (he : s.graph.edges[i]? = some e) (statements : List Statement) :
    (statements.foldl (apply d) s).graph.edges[i]? =
      some ((statements.filterMap (·.numberStyle? i)).foldl styleEdgeAll e) := by
  induction statements generalizing s e with
  | nil => exact he
  | cons st rest ih => rw [List.foldl_cons, ih (getElem?_edges_apply he st), foldl_filterMap_cons]

/-- A declared edge is there, with the look of its history. -/
theorem getElem?_edges_of_declared (t : Theme) (before : List Statement) {st : Statement}
    (after : List Statement) {j : Nat} {k : Declaration} (hk : st.declarations[j]? = some k) :
    let i := (before.flatMap Statement.declarations).length + j
    ((before ++ st :: after).foldl (apply (.ofTheme t)) {}).graph.edges[i]? =
      some (k.edge t before after i) := by
  intro i
  have hlength : ((before.foldl (apply (.ofTheme t)) {}).restyledEdges st).length =
      (before.flatMap Statement.declarations).length := by
    rw [length_restyledEdges, length_edges_run]
  have hnew : ((before.foldl (apply (.ofTheme t)) {}).apply (.ofTheme t) st).graph.edges[i]? =
      some (styleEdgeAll (k.bare t) (Source.endsProperties before k.source k.target)) := by
    rw [edges_apply, List.getElem?_append_right (hlength ▸ Nat.le_add_right _ j), hlength,
      Nat.add_sub_cancel_left, newEdges_eq, List.getElem?_map, hk, Option.map_some, freshEdge_ofTheme,
      endsProperties_run]
  rw [List.foldl_append, List.foldl_cons]
  exact getElem?_edges_foldl_apply hnew after

end State

/-- Under every theme the edges of a source are those that its statements declare, in order, and
each one has the look of its history. -/
theorem edges_have_histories (t : Theme) (source : String) (i : Nat) (e : Edge) :
    (readWith t source).graph.edges[i]? = some e ↔
      ∃ before st after j k, statementsOf source.toList = before ++ st :: after ∧
        st.declarations[j]? = some k ∧
        i = (before.flatMap Statement.declarations).length + j ∧ e = k.edge t before after i := by
  have hgraph : (readWith t source).graph.edges =
      ((statementsOf source.toList).foldl (State.apply (.ofTheme t)) {}).graph.edges := by
    -- what is left for the end of a reading are styles of nodes
    rw [graph_readWith]
    rfl
  rw [hgraph]
  constructor
  · intro he
    -- there are as many edges as declarations, so the number is that of a declaration
    obtain ⟨hlt, -⟩ := List.getElem?_eq_some_iff.1 he
    rw [State.length_edges_run] at hlt
    have hdeclared := List.getElem?_eq_getElem hlt
    generalize ((statementsOf source.toList).flatMap Statement.declarations)[i] = k at hdeclared
    obtain ⟨before, st, after, j, hsplit, hk, rfl⟩ := exists_of_getElem?_flatMap hdeclared
    rw [hsplit, State.getElem?_edges_of_declared t before after hk] at he
    exact ⟨before, st, after, j, k, hsplit, hk, rfl, (Option.some.inj he).symm⟩
  · rintro ⟨before, st, after, j, k, hsplit, hk, rfl, rfl⟩
    rw [hsplit]
    exact State.getElem?_edges_of_declared t before after hk

/-- A style of two ends comes too late for the edge that is there, which a style of its number still
changes, and in time for the next one. -/
theorem restyledEdge_history :
    let source := "A & B --> C\nlinkStyle 1 stroke:#00f\nstyle B->C stroke:#f00\nB --> C"
    let edge (color : Color) : Edge :=
      ⟨"B", "C", none, color, 1.4, .solid, .arrow, none, none, .zero, .zero⟩
    (readWith .standard source).graph.edges[1]? = some (edge (.rgb 0 0 255)) ∧
      (readWith .standard source).graph.edges[2]? = some (edge (.rgb 255 0 0)) := by
  intro source edge
  let node (id : String) : NodeRef := ⟨id, none, none, []⟩
  let chain (first : List NodeRef) : Statement :=
    .chain ⟨first, [⟨⟨"-->".toList, .solid, .arrow⟩, none, [node "C"]⟩]⟩
  let blue : Statement := .styleLinks (.numbers [1]) (readProperties "stroke:#00f".toList)
  let red : Statement := .styleEdges "B" "C" (readProperties "stroke:#f00".toList)
  let declared : Declaration := ⟨"B", "C", none, ⟨"-->".toList, .solid, .arrow⟩⟩
  have hsource : statementsOf source.toList =
      [chain [node "A", node "B"], blue, red, chain [node "B"]] := by decide +kernel
  have hblue := edges_have_histories .standard source 1 (edge (.rgb 0 0 255))
  have hred := edges_have_histories .standard source 2 (edge (.rgb 255 0 0))
  exact ⟨hblue.2 ⟨[], chain [node "A", node "B"], [blue, red, chain [node "B"]], 1, declared, hsource,
      rfl, rfl, by decide +kernel⟩,
    hred.2 ⟨[chain [node "A", node "B"], blue, red], chain [node "B"], [], 0, declared, hsource,
      rfl, rfl, by decide +kernel⟩⟩

end Flowchart.Source
