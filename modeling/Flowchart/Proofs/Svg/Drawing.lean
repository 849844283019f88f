import Flowchart.Proofs.Svg.Markup
import Flowchart.Svg.Drawing

namespace Flowchart

open Svg

inductive Outline.Kind where
  | rect
  | roundedRect
  | polygon
  | ellipse
  | stadium
  | doubleRect

def Outline.kind : Outline → Kind
  | rect .. => .rect
  | roundedRect .. => .roundedRect
  | polygon .. => .polygon
  | ellipse .. => .ellipse
  | stadium .. => .stadium
  | doubleRect .. => .doubleRect

inductive ArrowGlyph.Kind where
  | chevron
  | circle
  | cross

def ArrowGlyph.kind : ArrowGlyph → Kind
  | chevron .. => .chevron
  | circle .. => .circle
  | cross .. => .cross

structure EdgeForm where
  isExtended : Bool
  arrow : Option ArrowGlyph.Kind
  /-- The number of lines of the label. -/
  lineCount : Option Nat

def EdgeGeometry.form (e : EdgeGeometry) : EdgeForm where
  isExtended := e.isExtended
  arrow := e.arrow.map ArrowGlyph.kind
  lineCount := e.label.map (·.lines.length)

structure NodeForm where
  outline : Outline.Kind
  lineCount : Nat

def NodeGeometry.form (n : NodeGeometry) : NodeForm := ⟨n.outline.kind, n.labelLines.length⟩

structure SceneForm where
  /-- Which frames have an empty label. -/
  bareFrames : List Bool
  edges : List EdgeForm
  nodes : List NodeForm

def Scene.form (s : Scene) : SceneForm where
  bareFrames := s.frames.map (·.label.isEmpty)
  edges := s.edges.map EdgeGeometry.form
  nodes := s.nodes.map NodeGeometry.form

def SubgraphFrame.items (f : SubgraphFrame) : List Item :=
  if f.label.isEmpty then [blank "rect"]
  else [blank "rect", .element "text" [] (letters f.label)]

def lineItems (lines : List String) : Item :=
  .element "text" [] (lines.map fun line => .element "tspan" [] (letters line))

def ArrowGlyph.Kind.items : Kind → List Item
  | chevron => [blank "path"]
  | circle => [blank "circle"]
  | cross => [blank "line", blank "line"]

def EdgeGeometry.items (e : EdgeGeometry) : List Item :=
  [blank "path"] ++ (if e.isExtended then [blank "line"] else []) ++
    (e.arrow.map (·.kind.items)).getD [] ++
    (e.label.map fun l => [blank "rect", lineItems l.lines]).getD []

def Outline.Kind.items : Kind → List Item
  | rect | roundedRect | stadium => [blank "rect"]
  | polygon => [blank "polygon"]
  | ellipse => [blank "ellipse"]
  | doubleRect => [blank "rect", blank "rect"]

def NodeGeometry.items (n : NodeGeometry) : List Item :=
  n.outline.kind.items ++ [lineItems n.labelLines]

def Scene.item (s : Scene) : Item :=
  .element "svg" [] (blank "rect" ::
    (s.frames.flatMap SubgraphFrame.items ++ s.edges.flatMap EdgeGeometry.items ++
      s.nodes.flatMap NodeGeometry.items))

namespace Svg

theorem inert_coordinate (x : Float32) : Inert (coordinate x).toList := inert_fixedText 2 _

theorem fits_coordinates (named : List (String × Float32)) :
    Fits (coordinates named) (named.map Prod.fst) := by
  induction named with
  | nil => exact .nil []
  | cons p rest ih => exact ih.plain p.1 (inert_coordinate p.2).plain

theorem fits_paint (name : String) (c : Color) : Fits (paint name c) [name, name ++ "-opacity"] := by
  have hopacity : Plain (Decimal.fixedText 3 (.ofSingle c.opacity)).toList :=
    (inert_fixedText 3 _).plain
  unfold paint
  split
  · exact .plain name (inert_toHex c).plain (.nil _)
  · exact .plain name (inert_toHex c).plain (.plain _ hopacity (.nil []))

theorem fits_dashes (style : EdgeStyle) : Fits (dashes style) ["stroke-dasharray"] := by
  have hplain : Plain "6 4".toList ∧ Plain "2 3".toList := by decide
  cases style with
  | dashed => exact .plain _ hplain.1 (.nil [])
  | dotted => exact .plain _ hplain.2 (.nil [])
  | _ => exact .nil _

theorem inert_pair {between : String} (h : Inert between.toList) (p : Point) :
    Inert (pair between p).toList := by
  rw [pair, String.toList_append, String.toList_append]
  exact ((inert_coordinate p.x).append h).append (inert_coordinate p.y)

theorem inert_pathText (points : List Point) : Inert (pathText points).toList := by
  have hletters : Inert "".toList ∧ Inert "M ".toList ∧ Inert " L ".toList ∧ Inert " ".toList := by
    decide
  obtain ⟨hnone, hmove, hline, hblank⟩ := hletters
  cases points with
  | nil => exact hnone
  | cons p rest =>
    rw [pathText, String.toList_append, String.toList_append, String.toList_join]
    refine (hmove.append (inert_pair hblank p)).append (.flatMap ?_)
    intro text htext
    obtain ⟨q, _, rfl⟩ := List.mem_map.mp htext
    rw [String.toList_append]
    exact hline.append (inert_pair hblank q)

/-- The outline of an arrow is closed when it is filled. -/
theorem inert_chevron (points : List Point) (filled : Bool) :
    Inert (pathText points ++ if filled then " Z" else "").toList := by
  have hends : Inert " Z".toList ∧ Inert "".toList := by decide
  rw [String.toList_append]
  refine (inert_pathText points).append ?_
  split
  · exact hends.1
  · exact hends.2

theorem inert_points (points : List Point) :
    Inert (" ".intercalate (points.map (pair ","))).toList := by
  have hmarks : Inert " ".toList ∧ Inert ",".toList := by decide
  rw [String.toList_intercalate]
  induction points with
  | nil => exact inert_nil
  | cons p rest ih =>
    cases rest with
    | nil => simpa using inert_pair hmarks.2 p
    | cons q rest =>
      simp only [List.map_cons, List.intercalate_cons_cons] at ih ⊢
      exact ((inert_pair hmarks.2 p).append hmarks.1).append ih

theorem draws_rectangle {more : List (String × String)} {names : List String} (r : Rect)
    (h : Fits more names) (hnames : Distinct (["x", "y", "width", "height"] ++ names)) :
    Draws [rectangle r more] [blank "rect"] :=
  ((fits_coordinates _).append h).draws_leaf hnames (by decide)

theorem draws_line {more : List (String × String)} {names : List String} (s : Segment)
    (h : Fits more names) (hnames : Distinct (["x1", "y1", "x2", "y2"] ++ names)) :
    Draws [line s more] [blank "line"] :=
  ((fits_coordinates _).append h).draws_leaf hnames (by decide)

theorem draws_textLines (anchor : Point) (lines : List String) (fontSize : Float32)
    (family fill : String) :
    Draws [textLines anchor lines fontSize family fill] [lineItems lines] := by
  -- the first line stands higher than the others, so the lines are taken with any heights
  have htspans (dy : Nat → Float32) :
      Draws (lines.mapIdx fun i text =>
          .element "tspan" (coordinates [("x", anchor.x), ("dy", dy i)]) [.text (escape text)])
        (lines.map fun text => .element "tspan" [] (letters text)) := by
    have hnames : Distinct ["x", "dy"] := by decide
    induction lines generalizing dy with
    | nil => exact .nil
    | cons text rest ih =>
      have hfirst := (fits_coordinates [("x", anchor.x), ("dy", dy 0)]).draws_element hnames
        (by decide : isName "tspan".toList = true) (draws_text text)
      rw [List.mapIdx_cons]
      exact hfirst.append (ih fun i => dy (i + 1))
  have hwords : Plain "middle".toList ∧ Plain "central".toList := by decide
  have hfits := (fits_coordinates [("x", anchor.x), ("y", anchor.y)]).append
    (.plain "text-anchor" hwords.1 (.plain "dominant-baseline" hwords.2
      (.escaped "font-family" family (.plain "font-size" (inert_coordinate fontSize).plain
        (.escaped "fill" fill (.nil []))))))
  have hnames : Distinct ["x", "y", "text-anchor", "dominant-baseline", "font-family", "font-size",
      "fill"] := by
    decide
  exact hfits.draws_element hnames (by decide) (htspans _)

theorem draws_frame (t : Theme) (f : SubgraphFrame) : Draws (frame t f) f.items := by
  have hbox : Draws [rectangle f.bounds
      ([("fill", escape t.clusterBackground), ("stroke", escape t.clusterBorder),
        ("stroke-width", "1")] ++ if f.dashed then [("stroke-dasharray", "6 4")] else [])]
      [blank "rect"] := by
    have hwords : Plain "1".toList ∧ Plain "6 4".toList := by decide
    have hdashes : Fits (if f.dashed then [("stroke-dasharray", "6 4")] else [])
        ["stroke-dasharray"] := by
      split
      · exact .plain _ hwords.2 (.nil [])
      · exact .nil _
    have hstyle := (Fits.escaped "fill" t.clusterBackground (.escaped "stroke" t.clusterBorder
      (.plain "stroke-width" hwords.1 (.nil [])))).append hdashes
    exact draws_rectangle f.bounds hstyle (by decide)
  unfold frame SubgraphFrame.items
  by_cases hlabel : f.label.isEmpty = true
  · simp only [hlabel, if_true]
    exact hbox
  · simp only [hlabel]
    have hhanging : Plain "hanging".toList := by decide
    have hfits := (fits_coordinates [("x", f.labelAnchor.x), ("y", f.labelAnchor.y)]).append
      (.escaped "font-family" t.fontFamily
        (.plain "font-size" (inert_coordinate (t.fontSize * 0.75)).plain
          (.escaped "fill" t.primaryTextColor (.plain "dominant-baseline" hhanging (.nil [])))))
    have hnames : Distinct ["x", "y", "font-family", "font-size", "fill", "dominant-baseline"] := by
      decide
    exact hbox.append (hfits.draws_element hnames (by decide) (draws_text f.label))

theorem draws_arrow (glyph : ArrowGlyph) (color : Color) (width : Float32) :
    Draws (arrow glyph color width) glyph.kind.items := by
  have hstroke := (fits_paint "stroke" color).append
    (.plain "stroke-width" (inert_coordinate width).plain (.nil []))
  have hnone : Plain "none".toList := by decide
  cases glyph with
  | chevron tip left right filled =>
    have hpath := inert_chevron [left, tip, right] filled
    have hfill : Fits (if filled then paint "fill" color else [("fill", "none")])
        ["fill", "fill-opacity"] := by
      split
      · exact fits_paint "fill" color
      · exact .plain _ hnone (.nil _)
    have hnames : Distinct ["d", "fill", "fill-opacity", "stroke", "stroke-opacity",
        "stroke-width"] := by
      decide
    exact (Fits.plain "d" hpath.plain (hfill.append hstroke)).draws_leaf hnames (by decide)
  | circle center radius =>
    have hfits := (fits_coordinates [("cx", center.x), ("cy", center.y), ("r", radius)]).append
      (.plain "fill" hnone hstroke)
    have hnames : Distinct ["cx", "cy", "r", "fill", "stroke", "stroke-opacity", "stroke-width"] := by
      decide
    exact hfits.draws_leaf hnames (by decide)
  | cross first second =>
    exact (draws_line first hstroke (by decide)).append (draws_line second hstroke (by decide))

theorem draws_edge (t : Theme) (e : EdgeGeometry) : Draws (edge t e) e.items := by
  have hnone : Plain "none".toList := by decide
  have hstroke := (fits_paint "stroke" e.color).append
    (.plain "stroke-width" (inert_coordinate (drawnWidth e.style e.strokeWidth)).plain
      (fits_dashes e.style))
  have hpath := Fits.plain "d" (inert_pathText e.route.points).plain (.plain "fill" hnone hstroke)
  have hnames : Distinct ["d", "fill", "stroke", "stroke-opacity", "stroke-width",
      "stroke-dasharray"] := by
    decide
  refine (((hpath.draws_leaf hnames (by decide)).append ?_).append ?_).append ?_
  · split
    · exact draws_line e.labelSegment hstroke (by decide)
    · exact .nil
  · cases e.arrow with
    | none => exact .nil
    | some glyph => exact draws_arrow glyph e.color _
  · cases e.label with
    | none => exact .nil
    | some l =>
      have hbackground := Fits.escaped "fill" t.edgeLabelBackground (.nil [])
      exact (draws_rectangle _ hbackground (by decide)).append (draws_textLines ..)

theorem draws_node (t : Theme) (n : NodeGeometry) : Draws (node t n) n.items := by
  have hstyle := ((fits_paint "fill" n.fill).append (fits_paint "stroke" n.border)).append
    (.plain "stroke-width" (inert_coordinate n.borderWidth).plain (.nil []))
  have hround (bounds : Rect) (radius : Float32) : Draws [rectangle bounds
      (coordinates [("rx", radius), ("ry", radius)] ++ (paint "fill" n.fill ++
        paint "stroke" n.border ++ [("stroke-width", coordinate n.borderWidth)]))]
      [blank "rect"] := by
    have hnames : Distinct ["x", "y", "width", "height", "rx", "ry", "fill", "fill-opacity",
        "stroke", "stroke-opacity", "stroke-width"] := by
      decide
    exact draws_rectangle bounds ((fits_coordinates _).append hstyle) hnames
  refine Draws.append ?_ (draws_textLines ..)
  cases n.outline with
  | rect bounds => exact draws_rectangle bounds hstyle (by decide)
  | roundedRect bounds radius => exact hround bounds radius
  | polygon points =>
    have hnames : Distinct ["points", "fill", "fill-opacity", "stroke", "stroke-opacity",
        "stroke-width"] := by
      decide
    exact (Fits.plain "points" (inert_points points).plain hstyle).draws_leaf hnames (by decide)
  | ellipse center rx ry =>
    have hfits := (fits_coordinates [("cx", center.x), ("cy", center.y), ("rx", rx),
      ("ry", ry)]).append hstyle
    have hnames : Distinct ["cx", "cy", "rx", "ry", "fill", "fill-opacity", "stroke",
        "stroke-opacity", "stroke-width"] := by
      decide
    exact hfits.draws_leaf hnames (by decide)
  | stadium bounds radius => exact hround bounds radius
  | doubleRect outer inner =>
    exact (draws_rectangle outer hstyle (by decide)).append
      (draws_rectangle inner hstyle (by decide))

/-- The width and height of the canvas as the room that is seen. -/
theorem inert_viewBox (width height : Float32) :
    Inert ("0 0 " ++ coordinate width ++ " " ++ coordinate height).toList := by
  have hwords : Inert "0 0 ".toList ∧ Inert " ".toList := by decide
  obtain ⟨horigin, hblank⟩ := hwords
  simp only [String.toList_append]
  exact ((horigin.append (inert_coordinate width)).append hblank).append (inert_coordinate height)

theorem draws_document (s : Scene) (t : Theme) : Draws [document s t] [s.item] := by
  have hwords : Plain "http://www.w3.org/2000/svg".toList ∧ Plain "100%".toList := by decide
  obtain ⟨hspace, hwhole⟩ := hwords
  have hbackground : Draws [.leaf "rect" [("width", "100%"), ("height", "100%"),
      ("fill", escape t.background)]] [blank "rect"] := by
    have hnames : Distinct ["width", "height", "fill"] := by decide
    exact (Fits.plain "width" hwhole (.plain "height" hwhole
      (.escaped "fill" t.background (.nil [])))).draws_leaf hnames (by decide)
  have hparts := ((Draws.flatMap s.frames (draws_frame t)).append
    (.flatMap s.edges (draws_edge t))).append (.flatMap s.nodes (draws_node t))
  have hnames : Distinct ["xmlns", "width", "height", "viewBox"] := by decide
  have hwidth := inert_coordinate (Single.larger s.width leastCanvas)
  have hheight := inert_coordinate (Single.larger s.height leastCanvas)
  have hbox := inert_viewBox (Single.larger s.width leastCanvas) (Single.larger s.height leastCanvas)
  have hfits := Fits.plain "xmlns" hspace
    (.plain "width" hwidth.plain (.plain "height" hheight.plain (.plain "viewBox" hbox.plain (.nil []))))
  exact hfits.draws_element hnames (by decide) (hbackground.append hparts)

theorem tagsAll_append (items more : List Item) :
    tagsAll (items ++ more) = tagsAll items ++ tagsAll more := by
  simp only [tagsAll_eq_flatMap, List.flatMap_append]

theorem tagsAll_letters (s : String) : tagsAll (letters s) = [] := by
  rw [tagsAll_eq_flatMap, letters, List.flatMap_map]
  exact List.flatMap_eq_nil_iff.mpr fun _ _ => rfl

theorem tags_lineItems {lines others : List String} (h : lines.length = others.length) :
    (lineItems lines).tags = (lineItems others).tags := by
  have hspans (lines : List String) :
      tagsAll (lines.map fun line => .element "tspan" [] (letters line)) =
        List.replicate lines.length (blank "tspan") := by
    induction lines with
    | nil => rfl
    | cons line rest ih =>
      rw [List.map_cons, tagsAll, Item.tags, tagsAll_letters, ih]
      rfl
  rw [lineItems, lineItems, Item.tags, Item.tags, hspans, hspans, h]

theorem tagsAll_frame {f f' : SubgraphFrame} (h : f.label.isEmpty = f'.label.isEmpty) :
    tagsAll f.items = tagsAll f'.items := by
  have hlabel (f : SubgraphFrame) : tagsAll f.items =
      if f.label.isEmpty then [blank "rect"] else [blank "rect", blank "text"] := by
    unfold SubgraphFrame.items
    split
    · rfl
    · rw [tagsAll, tagsAll, Item.tags, tagsAll_letters]
      rfl
  rw [hlabel, hlabel, h]

theorem tagsAll_edge {e e' : EdgeGeometry} (h : e.form = e'.form) :
    tagsAll e.items = tagsAll e'.items := by
  obtain ⟨hextended, harrow, hlines⟩ := EdgeForm.mk.inj h
  have hitems : e.arrow.map (·.kind.items) = e'.arrow.map (·.kind.items) := by
    have h := congrArg (Option.map ArrowGlyph.Kind.items) harrow
    rwa [Option.map_map, Option.map_map] at h
  have hlabel : tagsAll ((e.label.map fun l => [blank "rect", lineItems l.lines]).getD []) =
      tagsAll ((e'.label.map fun l => [blank "rect", lineItems l.lines]).getD []) := by
    cases hl : e.label with
    | none =>
      rw [hl] at hlines
      rw [Option.map_eq_none_iff.mp hlines.symm]
    | some l =>
      rw [hl] at hlines
      obtain ⟨l', hl', hcount⟩ := Option.map_eq_some_iff.mp hlines.symm
      simp only [hl', Option.map_some, Option.getD_some, tagsAll, tags_lineItems hcount]
  simp only [EdgeGeometry.items, tagsAll_append, hextended, hitems, hlabel]

theorem tagsAll_node {n n' : NodeGeometry} (h : n.form = n'.form) :
    tagsAll n.items = tagsAll n'.items := by
  obtain ⟨houtline, hlines⟩ := NodeForm.mk.inj h
  simp only [NodeGeometry.items, tagsAll_append, tagsAll, houtline, tags_lineItems hlines]

/-- Parts that look the same in a view have the same tags, if the view decides on the tags. -/
theorem tagsAll_flatMap_congr {α β : Type} {view : α → β} {f : α → List Item}
    (hf : ∀ a b, view a = view b → tagsAll (f a) = tagsAll (f b)) {l m : List α}
    (hlm : l.map view = m.map view) : tagsAll (l.flatMap f) = tagsAll (m.flatMap f) := by
  have hthrough : (fun a => tagsAll (f a)).FactorsThrough view := fun a b => hf a b
  obtain ⟨g, hg⟩ := (Function.factorsThrough_iff _).mp hthrough
  have hview (l : List α) : tagsAll (l.flatMap f) = (l.map view).flatMap g := by
    have happly (a : α) : tagsAll (f a) = g (view a) := congrFun hg a
    rw [tagsAll_eq_flatMap, List.flatMap_assoc, List.flatMap_map]
    simp only [← tagsAll_eq_flatMap, happly]
  rw [hview, hview, hlm]

theorem tags_item {s s' : Scene} (h : s.form = s'.form) : s.item.tags = s'.item.tags := by
  obtain ⟨hframes, hedges, hnodes⟩ := SceneForm.mk.inj h
  have hframes := tagsAll_flatMap_congr (fun _ _ => tagsAll_frame) hframes
  have hedges := tagsAll_flatMap_congr (fun _ _ => tagsAll_edge) hedges
  have hnodes := tagsAll_flatMap_congr (fun _ _ => tagsAll_node) hnodes
  simp only [Scene.item, Item.tags, tagsAll, tagsAll_append, hframes, hedges, hnodes]

/-- The document is read as one root element. -/
theorem exists_says_render (s : Scene) (t : Theme) :
    ∃ root : Item, Says (render s t).toList [root] ∧ root.bare = s.item := by
  obtain ⟨read, hread, hbare⟩ := draws_document s t
  rw [bareAll_eq_map] at hbare
  obtain ⟨root, rfl, hroot⟩ := List.map_eq_singleton_iff.mp hbare
  refine ⟨root, ?_, hroot⟩
  rwa [writeAll, writeAll, String.append_empty] at hread

/-- Whatever the texts in a scene and a theme are, the document is one root element, and it is read
in one way only. The root consists of the background and then of the parts of the scene in their
order, with the lines of labels and the labels of frames as the only texts; the tags are the same
for all scenes of one form under all themes. -/
theorem render_keeps_structure (s : Scene) (t : Theme) :
    ∃ root : Item, Says (render s t).toList [root] ∧
      (∀ items, Says (render s t).toList items → items = [root]) ∧
      root.bare = s.item ∧
      ∀ (s' : Scene) (t' : Theme) (other : Item), s'.form = s.form →
        Says (render s' t').toList [other] → other.tags = root.tags := by
  obtain ⟨root, hroot, hbare⟩ := exists_says_render s t
  refine ⟨root, hroot, fun items h => h.unique hroot, hbare, fun s' t' other hform hother => ?_⟩
  obtain ⟨root', hroot', hbare'⟩ := exists_says_render s' t'
  obtain rfl : other = root' := (List.cons.inj (hother.unique hroot')).1
  calc other.tags = other.bare.tags := other.tags_bare.symm
    _ = s'.item.tags := by rw [hbare']
    _ = s.item.tags := tags_item hform
    _ = root.bare.tags := by rw [hbare]
    _ = root.tags := root.tags_bare

end Svg
end Flowchart
