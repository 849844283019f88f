import Flowchart.Proofs.Source.Cascade

/-! A pattern of dashes or, for a solid line, a width gives a line another style, and nothing makes
it solid again; so what an earlier list made of it may stay. Lists that are merged before the edge
is there leave no such trace. -/
namespace Flowchart

namespace Table

open Source.State (addKey)
open Source (mem_foldl_addKey)

variable {κ ν : Type} [DecidableEq κ]

/-- Tables are the same when they have the same keys in order, with the same values. -/
theorem ext_find? {t u : Table κ ν} (hkeys : t.keys = u.keys)
    (hfind : ∀ k, t.find? k = u.find? k) : t = u := by
  have hentries (t : Table κ ν) :
      t.entries.map some = t.keys.map fun k => (t.find? k).map (k, ·) := by
    rw [keys, List.map_map]
    refine List.map_congr_left fun e he => ?_
    have hvalue : t.find? e.1 = some e.2 := find?_eq_some_iff.2 he
    rw [Function.comp_apply, hvalue]
    rfl
  refine Table.ext (List.map_injective_iff.2 (fun _ _ => Option.some.inj) ?_)
  rw [hentries, hentries, hkeys]
  simp only [hfind]

theorem keys_insert (t : Table String ν) (k : String) (v : ν) :
    (t.insert k v).keys = addKey t.keys k := by
  unfold insert addKey
  split
  · next h => rw [keys_modify, if_pos (contains_iff.1 h)]
  · next h =>
    rw [if_neg (mt contains_iff.2 h)]
    exact List.map_append

theorem keys_insertAll (t u : Table String ν) :
    (t.insertAll u).keys = u.keys.foldl addKey t.keys := by
  have hkeys : u.entries.foldl (fun ks e => addKey ks e.1) t.keys =
      (u.entries.foldl (fun t e => t.insert e.1 e.2) t).keys :=
    List.foldl_hom Table.keys fun t e => (keys_insert t e.1 e.2).symm
  exact hkeys.symm.trans (List.foldl_map ..).symm

theorem foldl_addKey_foldl (keys first second : List String) :
    (second.foldl addKey first).foldl addKey keys =
      second.foldl addKey (first.foldl addKey keys) := by
  have hone (first : List String) (a : String) :
      (addKey first a).foldl addKey keys = addKey (first.foldl addKey keys) a := by
    by_cases ha : a ∈ first
    · have hmem : a ∈ first.foldl addKey keys := (mem_foldl_addKey first keys).2 (.inr ha)
      rw [addKey, if_pos ha, addKey, if_pos hmem]
    · rw [addKey, if_neg ha, List.foldl_append]
      rfl
  induction second generalizing first with
  | nil => rfl
  | cons a rest ih => rw [List.foldl_cons, ih, hone, List.foldl_cons]

theorem insertAll_assoc (t u w : Table String ν) :
    (t.insertAll u).insertAll w = t.insertAll (u.insertAll w) := by
  refine ext_find? ?_ fun k => ?_
  · simp only [keys_insertAll, foldl_addKey_foldl]
  · simp only [find?_insertAll, Option.or_assoc]

/-- Two changes of one key are one change. -/
theorem update_update (t : Table κ ν) (k : κ) (start : ν) (f g : ν → ν) :
    (t.update k start f).update k start g = t.update k start (g ∘ f) := by
  have hmem : k ∈ (t.update k start f).keys := by
    rw [update, keys_modify]
    by_cases hk : k ∈ t.keys
    · rwa [insertNew_of_mem hk]
    · rw [keys, entries_insertNew_of_not_mem hk]
      simp
  rw [update, insertNew_of_mem hmem, update, update]
  refine Table.ext ?_
  rw [entries_modify, entries_modify, entries_modify, List.map_map]
  refine List.map_congr_left fun e _ => ?_
  by_cases he : e.1 = k <;> simp [he]

end Table

namespace Source

def lineColour? (ps : Properties) : Option Color := (ps.find? "stroke").map Color.readOrBlack

def lineWidth? (ps : Properties) : Option Float32 := (ps.find? "stroke-width").bind readLength?

def drawsDashes (ps : Properties) : Bool := (ps.find? "stroke-dasharray").any isDashed

/-- The style of a line under properties: dashes come before the width. -/
def lineStyle (style : EdgeStyle) (ps : Properties) : EdgeStyle :=
  if drawsDashes ps then .dashed else (lineWidth? ps).elim style (EdgeStyle.atWidth style)

def colourOf? (p : String × String) : Option Color :=
  if p.1 = "stroke" then some (Color.readOrBlack p.2) else none

def widthOf? (p : String × String) : Option Float32 :=
  if p.1 = "stroke-width" then readLength? p.2 else none

def dashesOf? (p : String × String) : Option Unit :=
  if p.1 = "stroke-dasharray" then (if isDashed p.2 then some () else none) else none

theorem atWidth_of_ne {style : EdgeStyle} (h : style ≠ .solid) (width : Float32) :
    EdgeStyle.atWidth style width = style := by rw [EdgeStyle.atWidth, if_neg h]

/-- An edge under one property, part by part. -/
theorem styleEdge_eq (e : Edge) (p : String × String) : styleEdge e p =
    { e with
      color := (colourOf? p).getD e.color
      strokeWidth := (widthOf? p).getD e.strokeWidth
      style := if (dashesOf? p).isSome then .dashed
        else (widthOf? p).elim e.style (EdgeStyle.atWidth e.style) } := by
  unfold styleEdge colourOf? widthOf? dashesOf?
  split
  · simp
  · next value => cases readLength? value <;> simp
  · next value => by_cases hdashed : isDashed value = true <;> simp [hdashed]
  · next hcolour hwidth hdashes =>
    have hne {name : String} (h : ∀ value, p = (name, value) → False) : p.1 ≠ name :=
      fun hname => h p.2 (Prod.ext hname rfl)
    simp [hne hcolour, hne hwidth, hne hdashes]

theorem color_styleEdgeAll (e : Edge) (ps : Properties) :
    (styleEdgeAll e ps).color = (lineColour? ps).getD e.color := by
  have hcolour : (ps.entries.filterMap colourOf?).getLast? = lineColour? ps := by
    rw [lineColour?, Option.map_eq_bind]
    exact ps.getLast?_filterMap_entries "stroke" fun v => some (Color.readOrBlack v)
  rw [← hcolour]
  exact foldl_sets_part Edge.color _ (fun e p => congrArg Edge.color (styleEdge_eq e p)) _ e

theorem strokeWidth_styleEdgeAll (e : Edge) (ps : Properties) :
    (styleEdgeAll e ps).strokeWidth = (lineWidth? ps).getD e.strokeWidth := by
  have hwidth : (ps.entries.filterMap widthOf?).getLast? = lineWidth? ps :=
    ps.getLast?_filterMap_entries "stroke-width" readLength?
  rw [← hwidth]
  exact foldl_sets_part Edge.strokeWidth _ (fun e p => congrArg Edge.strokeWidth (styleEdge_eq e p))
    _ e

/-- Dashes may come before or after the width: a line with dashes has no use for it. -/
theorem style_foldl_styleEdge (entries : List (String × String)) (e : Edge) :
    (entries.foldl styleEdge e).style =
      if (entries.filterMap dashesOf?).isEmpty then
        (entries.filterMap widthOf?).foldl EdgeStyle.atWidth e.style
      else .dashed := by
  have hdashed (widths : List Float32) : widths.foldl EdgeStyle.atWidth .dashed = .dashed := by
    induction widths with
    | nil => rfl
    | cons width rest ih => rwa [List.foldl_cons, atWidth_of_ne (by decide)]
  induction entries generalizing e with
  | nil => rfl
  | cons p rest ih =>
    rw [List.foldl_cons, ih, styleEdge_eq]
    cases hdash : dashesOf? p with
    | some _ =>
      rw [List.filterMap_cons_some hdash, Option.isSome_some, if_pos rfl, hdashed, ite_self]
      rfl
    | none =>
      rw [List.filterMap_cons_none hdash, Option.isSome_none, if_neg Bool.false_ne_true,
        foldl_filterMap_cons]

theorem style_styleEdgeAll (e : Edge) (ps : Properties) :
    (styleEdgeAll e ps).style = lineStyle e.style ps := by
  have hwidths : ps.entries.filterMap widthOf? = (lineWidth? ps).toList :=
    ps.filterMap_entries "stroke-width" readLength?
  have hdashes : ps.entries.filterMap dashesOf? = ((ps.find? "stroke-dasharray").bind
      fun v => if isDashed v then some () else none).toList :=
    ps.filterMap_entries "stroke-dasharray" fun v => if isDashed v then some () else none
  rw [styleEdgeAll, style_foldl_styleEdge, hwidths, hdashes, lineStyle, drawsDashes]
  cases ps.find? "stroke-dasharray" with
  | none => cases lineWidth? ps <;> rfl
  | some v => by_cases hv : isDashed v = true <;> cases lineWidth? ps <;> simp [hv]

/-- Edges are the same when they differ in nothing that no style changes, and look the same. -/
theorem edge_eq_of_look {e f : Edge} (hrest : e.unstyled = f.unstyled) (hcolour : e.color = f.color)
    (hwidth : e.strokeWidth = f.strokeWidth) (hstyle : e.style = f.style) : e = f := by
  obtain ⟨⟩ := e
  obtain ⟨⟩ := f
  simp only [Edge.unstyled, Edge.new, Edge.mk.injEq] at *
  tauto

theorem atWidth_atWidth (style : EdgeStyle) (width : Float32) :
    EdgeStyle.atWidth (EdgeStyle.atWidth style width) width = EdgeStyle.atWidth style width := by
  by_cases h : EdgeStyle.atWidth style width = .solid
  · have hstyle : style = .solid := by
      by_contra hne
      exact hne (atWidth_of_ne hne width ▸ h)
    rw [h, ← hstyle, h, hstyle]
  · exact atWidth_of_ne h width

theorem atWidth_ne_dashed {style : EdgeStyle} (h : style ≠ .dashed) (width : Float32) :
    EdgeStyle.atWidth style width ≠ .dashed := by
  unfold EdgeStyle.atWidth
  split
  · split
    · decide
    · split <;> decide
  · exact h

theorem lineStyle_of_dashes {ps : Properties} (h : drawsDashes ps = true) (style : EdgeStyle) :
    lineStyle style ps = .dashed := by rw [lineStyle, if_pos h]

theorem lineStyle_of_noDashes {ps : Properties} (h : drawsDashes ps = false) (style : EdgeStyle) :
    lineStyle style ps = (lineWidth? ps).elim style (EdgeStyle.atWidth style) := by
  rw [lineStyle, if_neg (Bool.not_eq_true _ ▸ h)]

theorem lineStyle_dashed (ps : Properties) : lineStyle .dashed ps = .dashed := by
  unfold lineStyle
  split
  · rfl
  · cases lineWidth? ps with
    | none => rfl
    | some width => exact atWidth_of_ne (by decide) width

theorem lineStyle_ne_dashed {ps : Properties} (h : drawsDashes ps = false) {style : EdgeStyle}
    (hstyle : style ≠ .dashed) : lineStyle style ps ≠ .dashed := by
  rw [lineStyle_of_noDashes h]
  cases lineWidth? ps with
  | none => exact hstyle
  | some width => exact atWidth_ne_dashed hstyle width

theorem lineStyle_again (style : EdgeStyle) (ps : Properties) :
    lineStyle (lineStyle style ps) ps = lineStyle style ps := by
  cases hdash : drawsDashes ps with
  | true => rw [lineStyle_of_dashes hdash, lineStyle_of_dashes hdash]
  | false =>
    rw [lineStyle_of_noDashes hdash, lineStyle_of_noDashes hdash]
    cases lineWidth? ps with
    | none => rfl
    | some width => exact atWidth_atWidth style width

/-- Properties given twice are given once. -/
theorem styleEdgeAll_again (e : Edge) (ps : Properties) :
    styleEdgeAll (styleEdgeAll e ps) ps = styleEdgeAll e ps := by
  refine edge_eq_of_look (unstyled_styleEdgeAll _ ps) ?_ ?_ ?_
  · rw [color_styleEdgeAll, color_styleEdgeAll]
    cases lineColour? ps <;> rfl
  · rw [strokeWidth_styleEdgeAll, strokeWidth_styleEdgeAll]
    cases lineWidth? ps <;> rfl
  · rw [style_styleEdgeAll, style_styleEdgeAll, lineStyle_again]

/-- The width, if there is one, is a length. -/
def widthReads (ps : Properties) : Bool :=
  (ps.find? "stroke-width").all fun value => (readLength? value).isSome

/-- What `p` makes of the style of a line stays under `q`, which would make another one of it if
`p` had not been there. -/
inductive Sticks (style : EdgeStyle) (p q : Properties) : Prop where
  /-- Dashes stay under a pattern that draws none. -/
  | dashes {pattern : String} (drawn : drawsDashes p = true)
      (undone : q.find? "stroke-dasharray" = some pattern) (plain : isDashed pattern = false)
      (other : style ≠ .dashed)
  /-- A line that a width made bold or thick stays so under every width. -/
  | width {before after : Float32} (first : drawsDashes p = false) (second : drawsDashes q = false)
      (given : lineWidth? p = some before) (undone : lineWidth? q = some after)
      (solid : style = .solid) (changed : EdgeStyle.atWidth .solid before ≠ .solid)
      (other : EdgeStyle.atWidth .solid before ≠ EdgeStyle.atWidth .solid after)

section Merged

variable {p q : Properties}

theorem lineColour?_insertAll (p q : Properties) :
    lineColour? (p.insertAll q) = (lineColour? q).or (lineColour? p) := by
  rw [lineColour?, Table.find?_insertAll, Option.map_or]
  rfl

theorem lineWidth?_insertAll (hq : widthReads q = true) :
    lineWidth? (p.insertAll q) = (lineWidth? q).or (lineWidth? p) := by
  unfold widthReads at hq
  rw [lineWidth?, lineWidth?, lineWidth?, Table.find?_insertAll]
  cases hvalue : q.find? "stroke-width" with
  | none => rfl
  | some value =>
    -- a width of the second list that is no length would take the first one with it
    rw [hvalue, Option.all_some] at hq
    obtain ⟨width, hwidth⟩ := Option.isSome_iff_exists.1 hq
    rw [Option.some_or, Option.bind_some, hwidth, Option.some_or]

/-- A pattern of the second list decides, if there is one. -/
theorem drawsDashes_insertAll (p q : Properties) :
    drawsDashes (p.insertAll q) =
      (drawsDashes q || (q.find? "stroke-dasharray").isNone && drawsDashes p) := by
  rw [drawsDashes, drawsDashes, Table.find?_insertAll]
  cases q.find? "stroke-dasharray" with
  | none => rfl
  | some pattern => exact (Bool.or_false _).symm

/-- The colour of a line is that of the merged lists. -/
theorem color_insertAll (e : Edge) (p q : Properties) :
    (styleEdgeAll (styleEdgeAll e p) q).color = (styleEdgeAll e (p.insertAll q)).color := by
  rw [color_styleEdgeAll, color_styleEdgeAll, color_styleEdgeAll, lineColour?_insertAll,
    Option.getD_or]

/-- The width of a line is that of the merged lists. -/
theorem strokeWidth_insertAll (hq : widthReads q = true) (e : Edge) :
    (styleEdgeAll (styleEdgeAll e p) q).strokeWidth =
      (styleEdgeAll e (p.insertAll q)).strokeWidth := by
  rw [strokeWidth_styleEdgeAll, strokeWidth_styleEdgeAll, strokeWidth_styleEdgeAll,
    lineWidth?_insertAll hq, Option.getD_or]

theorem not_sticks_of_dashes (hq : drawsDashes q = true) (style : EdgeStyle) :
    ¬ Sticks style p q := by
  rintro (⟨-, hpattern, hplain, -⟩ | ⟨-, hsecond, -, -, -, -, -⟩)
  · rw [drawsDashes, hpattern, Option.any_some, hplain] at hq
    exact Bool.false_ne_true hq
  · exact Bool.false_ne_true (hsecond.symm.trans hq)

/-- Dashes of the first list, and none of the second one. -/
theorem sticks_dashes_iff (hp : drawsDashes p = true) (hq : drawsDashes q = false)
    (style : EdgeStyle) :
    Sticks style p q ↔ (q.find? "stroke-dasharray").isSome = true ∧ style ≠ .dashed := by
  constructor
  · rintro (⟨-, hpattern, -, hother⟩ | ⟨hfirst, -, -, -, -, -, -⟩)
    · rw [hpattern]
      exact ⟨rfl, hother⟩
    · exact absurd (hfirst.symm.trans hp) Bool.false_ne_true
  · rintro ⟨hsome, hother⟩
    obtain ⟨pattern, hpattern⟩ := Option.isSome_iff_exists.1 hsome
    have hplain : isDashed pattern = false := by
      rwa [drawsDashes, hpattern, Option.any_some] at hq
    exact .dashes hp hpattern hplain hother

/-- The style of a line without dashes is that of the merged width, unless the first one sticks. -/
theorem atWidth_merged_iff (hp : drawsDashes p = false) (hq : drawsDashes q = false)
    (style : EdgeStyle) :
    lineStyle (lineStyle style p) q =
        ((lineWidth? q).or (lineWidth? p)).elim style (EdgeStyle.atWidth style) ↔
      ¬ Sticks style p q := by
  rw [lineStyle_of_noDashes hq, lineStyle_of_noDashes hp]
  have hsticks : Sticks style p q ↔ ∃ before after, lineWidth? p = some before ∧
      lineWidth? q = some after ∧ style = .solid ∧ EdgeStyle.atWidth .solid before ≠ .solid ∧
      EdgeStyle.atWidth .solid before ≠ EdgeStyle.atWidth .solid after := by
    constructor
    · rintro (⟨hdrawn, -, -, -⟩ | ⟨-, -, hbefore, hafter, hsolid, hchanged, hother⟩)
      · exact absurd (hp.symm.trans hdrawn) Bool.false_ne_true
      · exact ⟨_, _, hbefore, hafter, hsolid, hchanged, hother⟩
    · rintro ⟨before, after, hbefore, hafter, hsolid, hchanged, hother⟩
      exact .width hp hq hbefore hafter hsolid hchanged hother
  rw [hsticks]
  cases lineWidth? q with
  | none => simp
  | some after =>
    cases lineWidth? p with
    | none => simp
    | some before =>
      simp only [Option.some_or, Option.elim_some, Option.some.injEq, exists_eq_left',
        exists_and_left]
      by_cases hsolid : style = .solid
      · subst hsolid
        by_cases hchanged : EdgeStyle.atWidth .solid before = .solid
        · simp [hchanged]
        · rw [atWidth_of_ne hchanged]
          simp [hchanged]
      · simp [atWidth_of_ne hsolid, hsolid]

/-- The style of a line is that of the merged lists, unless what the first one made of it sticks. -/
theorem lineStyle_insertAll_iff (hq : widthReads q = true) (style : EdgeStyle) :
    lineStyle (lineStyle style p) q = lineStyle style (p.insertAll q) ↔ ¬ Sticks style p q := by
  have hmerged := drawsDashes_insertAll p q
  -- dashes take the place of every width, so they come first, those of the second list before all
  cases hsecond : drawsDashes q with
  | true =>
    rw [hsecond, Bool.true_or] at hmerged
    rw [lineStyle_of_dashes hsecond, lineStyle_of_dashes hmerged]
    exact iff_of_true rfl (not_sticks_of_dashes hsecond style)
  | false =>
    rw [hsecond, Bool.false_or] at hmerged
    cases hfirst : drawsDashes p with
    | true =>
      rw [lineStyle_of_dashes hfirst, lineStyle_dashed, sticks_dashes_iff hfirst hsecond]
      rw [hfirst, Bool.and_true] at hmerged
      cases hpattern : q.find? "stroke-dasharray" with
      | none =>
        rw [hpattern] at hmerged
        rw [lineStyle_of_dashes hmerged]
        simp
      | some pattern =>
        rw [hpattern] at hmerged
        by_cases hstyle : style = .dashed
        · rw [hstyle, lineStyle_dashed]
          simp
        · simp [hstyle, (lineStyle_ne_dashed hmerged hstyle).symm]
    | false =>
      rw [hfirst, Bool.and_false] at hmerged
      rw [lineStyle_of_noDashes hmerged, lineWidth?_insertAll hq]
      exact atWidth_merged_iff hfirst hsecond style

/-- A list after another one makes of an edge what the merged list makes of it, unless the style
sticks. -/
theorem styleEdgeAll_insertAll_iff (hq : widthReads q = true) (e : Edge) :
    styleEdgeAll (styleEdgeAll e p) q = styleEdgeAll e (p.insertAll q) ↔ ¬ Sticks e.style p q := by
  rw [← lineStyle_insertAll_iff hq, ← style_styleEdgeAll, ← style_styleEdgeAll,
    ← style_styleEdgeAll]
  constructor
  · exact congrArg Edge.style
  · exact edge_eq_of_look (by simp only [unstyled_styleEdgeAll]) (color_insertAll e p q)
      (strokeWidth_insertAll hq e)

end Merged

def EdgeTargets.means (targets : EdgeTargets) (i : Nat) : Bool :=
  match targets with
  | .all => true
  | .numbers indices => indices.contains i

theorem getElem?_foldl_modify {α : Type} {f : α → α} (hf : ∀ a, f (f a) = f a)
    (indices : List Nat) (l : List α) (j : Nat) :
    (indices.foldl (fun l i => l.modify i f) l)[j]? =
      l[j]?.map fun a => if j ∈ indices then f a else a := by
  induction indices generalizing l with
  | nil => simp
  | cons i rest ih =>
    rw [List.foldl_cons, ih, List.getElem?_modify, Option.map_eq_map, Option.map_map]
    congr 1
    funext a
    by_cases hi : i = j
    · -- the edge may be meant again
      by_cases hrest : j ∈ rest <;> simp [hi, hrest, hf]
    · simp [hi, Ne.symm hi]

/-- An edge that a statement means is put under its properties once, however often the statement
numbers it. -/
theorem getElem?_styleTargets (edges : List Edge) (ps : Properties) (targets : EdgeTargets)
    (i : Nat) :
    (State.styleTargets edges ps targets)[i]? =
      edges[i]?.map fun e => if targets.means i then styleEdgeAll e ps else e := by
  cases targets with
  | all => exact List.getElem?_map
  | numbers indices =>
    simp only [EdgeTargets.means, List.contains_iff_mem]
    exact getElem?_foldl_modify (f := (styleEdgeAll · ps)) (fun e => styleEdgeAll_again e ps)
      indices edges i

/-- An edge that two statements mean, one after the other, and one statement with both lists. -/
theorem getElem?_styleLinks_iff (d : Defaults) {p q : Properties} (hq : widthReads q = true)
    {s : State} {first second merged : EdgeTargets} {i : Nat} {e : Edge}
    (he : s.graph.edges[i]? = some e) (hfirst : first.means i = true)
    (hsecond : second.means i = true) (hmerged : merged.means i = true) :
    ((s.apply d (.styleLinks first p)).apply d (.styleLinks second q)).graph.edges[i]? =
        (s.apply d (.styleLinks merged (p.insertAll q))).graph.edges[i]? ↔
      ¬ Sticks e.style p q := by
  have hone (s : State) (targets : EdgeTargets) (ps : Properties) :
      (s.apply d (.styleLinks targets ps)).graph.edges[i]? =
        s.graph.edges[i]?.map fun e => if targets.means i then styleEdgeAll e ps else e :=
    getElem?_styleTargets s.graph.edges ps targets i
  rw [hone, hone, hone, he, hfirst, hsecond, hmerged]
  simp only [if_true, Option.map_some, Option.some.injEq]
  exact styleEdgeAll_insertAll_iff hq e

/-- Properties for the edges to come between two nodes are merged where they are kept. -/
theorem apply_styleEdges_again (d : Defaults) (s : State) (source target : String)
    (p q : Properties) :
    (s.apply d (.styleEdges source target p)).apply d (.styleEdges source target q) =
      s.apply d (.styleEdges source target (p.insertAll q)) := by
  have htables : (s.edgeStyles.update (source, target) .empty (·.insertAll p)).update
      (source, target) .empty (·.insertAll q) =
      s.edgeStyles.update (source, target) .empty (·.insertAll (p.insertAll q)) := by
    rw [Table.update_update]
    congr 1
    funext t
    exact Table.insertAll_assoc t p q
  exact congrArg (fun styles => { s with edgeStyles := styles }) htables

/-- Two lists of properties, one after the other, make of a line the same colour and width as the
merged list, and the same style unless it sticks. So do two statements about an edge that is there
and one with the merged list. Two statements about the edges to come between two nodes are always
one. -/
theorem edge_styles_merge (d : Defaults) {p q : Properties} (hq : widthReads q = true) :
    (∀ e, (styleEdgeAll (styleEdgeAll e p) q).color = (styleEdgeAll e (p.insertAll q)).color ∧
      (styleEdgeAll (styleEdgeAll e p) q).strokeWidth =
        (styleEdgeAll e (p.insertAll q)).strokeWidth ∧
      (styleEdgeAll (styleEdgeAll e p) q = styleEdgeAll e (p.insertAll q) ↔
        ¬ Sticks e.style p q)) ∧
    (∀ (s : State) (first second merged : EdgeTargets) (i : Nat) (e : Edge),
      s.graph.edges[i]? = some e → first.means i = true → second.means i = true →
      merged.means i = true →
      (((s.apply d (.styleLinks first p)).apply d (.styleLinks second q)).graph.edges[i]? =
          (s.apply d (.styleLinks merged (p.insertAll q))).graph.edges[i]? ↔
        ¬ Sticks e.style p q)) ∧
    ∀ (s : State) (source target : String),
      (s.apply d (.styleEdges source target p)).apply d (.styleEdges source target q) =
        s.apply d (.styleEdges source target (p.insertAll q)) := by
  refine ⟨fun e => ⟨color_insertAll e p q, strokeWidth_insertAll hq e,
    styleEdgeAll_insertAll_iff hq e⟩, ?_, fun s source target =>
    apply_styleEdges_again d s source target p q⟩
  intro s first second merged i e he hfirst hsecond hmerged
  exact getElem?_styleLinks_iff d hq he hfirst hsecond hmerged

def boldLine : Properties := readProperties "stroke:#00f,stroke-width:2px".toList

def thickLine : Properties := readProperties "stroke-width:5".toList

theorem boldLine_thickLine :
    let thickEdge := Edge.new "A" "B" none .thick .arrow
    let solidEdge := Edge.new "A" "B" none .solid .arrow
    let s : State := { graph := { edges := [solidEdge, thickEdge] } }
    let d := Defaults.ofTheme .standard
    widthReads thickLine = true ∧ ¬ Sticks .thick boldLine thickLine ∧
      Sticks .solid boldLine thickLine ∧
      styleEdgeAll (styleEdgeAll thickEdge boldLine) thickLine =
        styleEdgeAll thickEdge (boldLine.insertAll thickLine) ∧
      styleEdgeAll (styleEdgeAll solidEdge boldLine) thickLine ≠
        styleEdgeAll solidEdge (boldLine.insertAll thickLine) ∧
      ((s.apply d (.styleLinks .all boldLine)).apply d
          (.styleLinks (.numbers [1]) thickLine)).graph.edges[1]? =
        (s.apply d (.styleLinks (.numbers [1])
          (boldLine.insertAll thickLine))).graph.edges[1]? := by
  intro thickEdge solidEdge s d
  have hreads : widthReads thickLine = true := by decide +kernel
  obtain ⟨hedge, hlinks, -⟩ := edge_styles_merge d (p := boldLine) hreads
  have hthick : ¬ Sticks .thick boldLine thickLine := by
    rintro (⟨hdrawn, -, -, -⟩ | ⟨-, -, -, -, hsolid, -, -⟩)
    · exact absurd hdrawn (by decide +kernel)
    · exact EdgeStyle.noConfusion hsolid
  have hbefore : lineWidth? boldLine = some 2.0 := by decide +kernel
  have hafter : lineWidth? thickLine = some 5.0 := by decide +kernel
  have hsolid : Sticks .solid boldLine thickLine :=
    .width (by decide +kernel) (by decide +kernel) hbefore hafter rfl (by decide +kernel)
      (by decide +kernel)
  obtain ⟨-, -, hkept⟩ := hedge thickEdge
  obtain ⟨-, -, hlost⟩ := hedge solidEdge
  have hsame := hlinks s .all (.numbers [1]) (.numbers [1]) 1 thickEdge rfl rfl rfl rfl
  exact ⟨hreads, hthick, hsolid, hkept.2 hthick, fun h => hlost.1 h hsolid, hsame.2 hthick⟩

/-- A line made bold stays bold at a width that by itself makes it thick. -/
theorem boldLine_stays :
    (readWith .standard
        "A --> B\nlinkStyle 0 stroke-width:2px\nlinkStyle 0 stroke-width:5").graph.edges.map
        (fun e => (e.style, e.strokeWidth)) = [(.bold, 5.0)] ∧
      (readWith .standard "A --> B\nlinkStyle 0 stroke-width:5").graph.edges.map
        (fun e => (e.style, e.strokeWidth)) = [(.thick, 5.0)] ∧
      ¬ ∀ (e : Edge) (p q : Properties), widthReads p = true → widthReads q = true →
        styleEdgeAll (styleEdgeAll e p) q = styleEdgeAll e (p.insertAll q) := by
  refine ⟨by decide +kernel, by decide +kernel, fun hmerge => ?_⟩
  have hstyle := congrArg Edge.style (hmerge (Edge.new "A" "B" none .solid .arrow) boldLine
    thickLine (by decide +kernel) (by decide +kernel))
  exact absurd hstyle (by decide +kernel)

/-- A line made dashed stays dashed under a pattern that by itself draws no dashes. -/
theorem dashedLine_stays :
    let dashes := readProperties "stroke-dasharray:5 5".toList
    let plain := readProperties "stroke-dasharray:none".toList
    let solidEdge := Edge.new "A" "B" none .solid .arrow
    Sticks .solid dashes plain ∧
      (styleEdgeAll (styleEdgeAll solidEdge dashes) plain).style = .dashed ∧
      (styleEdgeAll solidEdge (dashes.insertAll plain)).style = .solid ∧
      (readWith .standard
          ("A --> B\nlinkStyle 0 stroke-dasharray:5 5\n" ++
            "linkStyle 0 stroke-dasharray:none")).graph.edges.map Edge.style = [.dashed] := by
  intro dashes plain solidEdge
  have hpattern : plain.find? "stroke-dasharray" = some "none" := by decide +kernel
  have hsticks : Sticks .solid dashes plain :=
    .dashes (by decide +kernel) hpattern (by decide +kernel) (by decide)
  exact ⟨hsticks, by decide +kernel, by decide +kernel, by decide +kernel⟩

end Source
end Flowchart
