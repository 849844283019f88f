import Flowchart.Proofs.Source.History
import Mathlib.Data.List.Nodup

/-! A property that is given again keeps the place of the first one, so the order in a table tells
of values that are long gone. What properties make of an edge depends on their last values alone. -/
namespace Flowchart

namespace Table

variable {κ ν : Type} [DecidableEq κ]

/-- Tables have the same entries, in any order, just when the same is found in them. -/
theorem perm_entries_iff {t u : Table κ ν} :
    t.entries.Perm u.entries ↔ ∀ k, t.find? k = u.find? k := by
  constructor
  · intro h k
    apply Option.ext
    intro v
    rw [find?_eq_some_iff, find?_eq_some_iff, h.mem_iff]
  · intro h
    have hnodup (t : Table κ ν) : t.entries.Nodup := List.Nodup.of_map _ t.distinct
    rw [List.perm_ext_iff_of_nodup (hnodup t) (hnodup u)]
    rintro ⟨k, v⟩
    rw [← find?_eq_some_iff, ← find?_eq_some_iff, h]

end Table

namespace Source

/-- Properties make the same of an edge in any order. -/
theorem styleEdgeAll_perm {p q : Properties} (h : p.entries.Perm q.entries) (e : Edge) :
    styleEdgeAll e p = styleEdgeAll e q := by
  have hfind := Table.perm_entries_iff.1 h
  have hwidth : lineWidth? p = lineWidth? q := by rw [lineWidth?, lineWidth?, hfind]
  refine edge_eq_of_look ?_ ?_ ?_ ?_
  · rw [unstyled_styleEdgeAll, unstyled_styleEdgeAll]
  -- the rest of a look is given by what is found under three names
  · rw [color_styleEdgeAll, color_styleEdgeAll, lineColour?, lineColour?, hfind]
  · rw [strokeWidth_styleEdgeAll, strokeWidth_styleEdgeAll, hwidth]
  · rw [style_styleEdgeAll, style_styleEdgeAll, lineStyle, lineStyle, drawsDashes, drawsDashes,
      hfind, hwidth]

/-- The tables give the same properties to any two ends, perhaps in another order. -/
def Reordered (styles others : Table (String × String) Properties) : Prop :=
  ∀ ends, ((styles.find? ends).getD .empty).entries.Perm ((others.find? ends).getD .empty).entries

section Reordered

variable {d : Defaults} {styles others : Table (String × String) Properties}

theorem Reordered.freshEdge (h : Reordered styles others) (source target : String)
    (label : Option String) (k : Connector) :
    freshEdge d styles source target label k = freshEdge d others source target label k := by
  rw [freshEdge_eq, freshEdge_eq, styleEdgeAll_perm (h (source, target))]

theorem Reordered.chainEdges (h : Reordered styles others) (sources : List NodeRef)
    (links : List Link) : chainEdges d styles sources links = chainEdges d others sources links := by
  rw [chainEdges_eq, chainEdges_eq]
  exact List.map_congr_left fun k _ => h.freshEdge k.source k.target k.label k.connector

theorem reordered_insert {p q : Properties} (h : p.entries.Perm q.entries)
    (styles : Table (String × String) Properties) (ends : String × String) :
    Reordered (styles.insert ends p) (styles.insert ends q) := by
  intro pair
  rw [Table.find?_insert, Table.find?_insert]
  by_cases hpair : pair = ends
  · rw [if_pos hpair, if_pos hpair]
    exact h
  · rw [if_neg hpair, if_neg hpair]

theorem Reordered.update (h : Reordered styles others) (ends : String × String) (ps : Properties) :
    Reordered (styles.update ends .empty (·.insertAll ps))
      (others.update ends .empty (·.insertAll ps)) := by
  intro pair
  rw [Table.find?_update, Table.find?_update]
  by_cases hpair : pair = ends
  · rw [if_pos hpair, if_pos hpair, Option.getD_some, Option.getD_some, Table.perm_entries_iff]
    intro name
    rw [Table.find?_insertAll, Table.find?_insertAll, Table.perm_entries_iff.1 (h ends) name]
  · rw [if_neg hpair, if_neg hpair]
    exact h pair

end Reordered

namespace State

variable {d : Defaults} {s : State} {styles : Table (String × String) Properties}

def withEdgeStyles (s : State) (styles : Table (String × String) Properties) : State :=
  { s with edgeStyles := styles }

theorem foldl_withEdgeStyles {α : Type} {f : State → α → State}
    (h : ∀ s a, f (s.withEdgeStyles styles) a = (f s a).withEdgeStyles styles) (l : List α)
    (s : State) : l.foldl f (s.withEdgeStyles styles) = (l.foldl f s).withEdgeStyles styles :=
  List.foldl_hom (State.withEdgeStyles · styles) h

theorem touch_withEdgeStyles (s : State) (r : NodeRef) :
    (s.withEdgeStyles styles).touch d r = (s.touch d r).withEdgeStyles styles :=
  foldl_withEdgeStyles (f := fun s className => s.assignClass r.id className) (fun _ _ => rfl)
    r.classes { s with graph := ensureNode d s.enclosing s.graph r }

/-- A statement makes the same of a state in which these styles are in another order, and they stay
the same but for their order. -/
theorem apply_withEdgeStyles (h : Reordered s.edgeStyles styles) (st : Statement) :
    ∃ after, Reordered (s.apply d st).edgeStyles after ∧
      (s.withEdgeStyles styles).apply d st = (s.apply d st).withEdgeStyles after := by
  rw [edgeStyles_apply]
  cases st with
  | styleEdges source target ps =>
    exact ⟨styles.update (source, target) .empty (·.insertAll ps), h.update _ ps, rfl⟩
  | chain c =>
    -- a chain reads the styles, but only through the look of its edges
    refine ⟨styles, h, ?_⟩
    rw [apply, apply, addChain_eq, addChain_eq, foldl_withEdgeStyles touch_withEdgeStyles,
      h.chainEdges]
    rfl
  | node r => exact ⟨styles, h, touch_withEdgeStyles s r⟩
  | styleNodes ids ps =>
    refine ⟨styles, h, foldl_withEdgeStyles (fun s id => ?_) ids s⟩
    rw [styleNode, styleNode, touch_withEdgeStyles]
    rfl
  | assignClasses ids classes =>
    refine ⟨styles, h, foldl_withEdgeStyles (fun s id => ?_) ids s⟩
    exact foldl_withEdgeStyles (fun _ _ => rfl) classes s
  | header | beginSubgraph | endSubgraph | defineClasses | styleLinks | nothing =>
    exact ⟨styles, h, rfl⟩

theorem foldl_apply_withEdgeStyles (h : Reordered s.edgeStyles styles)
    (statements : List Statement) :
    ∃ after, Reordered (statements.foldl (apply d) s).edgeStyles after ∧
      statements.foldl (apply d) (s.withEdgeStyles styles) =
        (statements.foldl (apply d) s).withEdgeStyles after := by
  induction statements generalizing s styles with
  | nil => exact ⟨styles, h, rfl⟩
  | cons st rest ih =>
    obtain ⟨after, hafter, hstep⟩ := apply_withEdgeStyles (d := d) h st
    rw [List.foldl_cons, List.foldl_cons, hstep]
    exact ih hafter

/-- The order in which styles of edges to come are kept has no part in the graph of a reading. -/
theorem finish_foldl_apply_reordered (h : Reordered s.edgeStyles styles)
    (statements : List Statement) :
    (statements.foldl (apply d) (s.withEdgeStyles styles)).finish =
      (statements.foldl (apply d) s).finish := by
  obtain ⟨after, -, hrun⟩ := foldl_apply_withEdgeStyles (d := d) h statements
  rw [hrun]
  rfl

/-- Only which edges are numbered counts, not in what order or how often. -/
theorem styleTargets_numbers_congr {indices others : List Nat} (h : ∀ i, i ∈ indices ↔ i ∈ others)
    (edges : List Edge) (ps : Properties) :
    styleTargets edges ps (.numbers indices) = styleTargets edges ps (.numbers others) := by
  apply List.ext_getElem?
  intro i
  have hmeans : (EdgeTargets.numbers indices).means i = (EdgeTargets.numbers others).means i := by
    rw [EdgeTargets.means, EdgeTargets.means, Bool.eq_iff_iff, List.contains_iff_mem,
      List.contains_iff_mem, h i]
  rw [getElem?_styleTargets, getElem?_styleTargets, hmeans]

end State

/-- Properties make the same of an edge in any order, and no more when they are given again. So the
places at which values are kept when they are given anew have no part in any reading, and a number
that a statement gives twice counts once. -/
theorem looks_ignore_order :
    (∀ (e : Edge) (p q : Properties), p.entries.Perm q.entries →
      styleEdgeAll e p = styleEdgeAll e q) ∧
    (∀ (e : Edge) (ps : Properties), styleEdgeAll (styleEdgeAll e ps) ps = styleEdgeAll e ps) ∧
    (∀ (d : Defaults) (s : State) (styles : Table (String × String) Properties),
      Reordered s.edgeStyles styles → ∀ statements : List Statement,
      (statements.foldl (State.apply d) { s with edgeStyles := styles }).finish =
        (statements.foldl (State.apply d) s).finish) ∧
    ∀ (d : Defaults) (s : State) (ps : Properties) (indices others : List Nat),
      (∀ i, i ∈ indices ↔ i ∈ others) →
      s.apply d (.styleLinks (.numbers indices) ps) =
        s.apply d (.styleLinks (.numbers others) ps) := by
  refine ⟨fun e p q h => styleEdgeAll_perm h e, styleEdgeAll_again,
    fun d s styles h => State.finish_foldl_apply_reordered h, ?_⟩
  intro d s ps indices others h
  rw [State.apply, State.apply, State.styleTargets_numbers_congr h]

def thinDashes : Properties := readProperties "stroke-width:1,stroke-dasharray:5".toList

def wide : Properties := readProperties "stroke-width:4".toList

def wideDashes : Properties := readProperties "stroke-dasharray:5,stroke-width:4".toList

/-- A width that is given again keeps its place in front of the dashes. -/
theorem overriddenWidth_ignored :
    let d := Defaults.ofTheme .standard
    let s : State := { edgeStyles := Table.empty.insert ("A", "B") (thinDashes.insertAll wide) }
    let styles := Table.empty.insert ("A", "B") wideDashes
    let edge := Statement.read "A --> B".toList
    (thinDashes.insertAll wide).entries ≠ wideDashes.entries ∧
      (thinDashes.insertAll wide).entries.Perm wideDashes.entries ∧
      styleEdgeAll (.new "A" "B" none .solid .arrow) (thinDashes.insertAll wide) =
        styleEdgeAll (.new "A" "B" none .solid .arrow) wideDashes ∧
      Reordered s.edgeStyles styles ∧
      (State.apply d { s with edgeStyles := styles } edge).finish = (s.apply d edge).finish ∧
      s.apply d (.styleLinks (.numbers [2, 0, 2]) wide) =
        s.apply d (.styleLinks (.numbers [0, 2]) wide) := by
  intro d s styles edge
  obtain ⟨horder, -, hkept, hnumbers⟩ := looks_ignore_order
  have hperm : (thinDashes.insertAll wide).entries.Perm wideDashes.entries := by decide +kernel
  have hreordered : Reordered s.edgeStyles styles := reordered_insert hperm .empty ("A", "B")
  exact ⟨by decide +kernel, hperm, horder _ _ _ hperm, hreordered,
    hkept d s styles hreordered [edge], hnumbers d s wide [2, 0, 2] [0, 2] (by simp)⟩

end Source
end Flowchart
