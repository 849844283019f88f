import Flowchart.Proofs.Scene.Resolve
import Flowchart.Proofs.Svg.Drawing

namespace Flowchart

open Svg

def Theme.texts (t : Theme) : List String :=
  [t.fontFamily, t.primaryColor, t.primaryTextColor, t.primaryBorderColor, t.lineColor,
    t.edgeLabelBackground, t.clusterBackground, t.clusterBorder, t.background]

namespace Svg

def Made (P : Char → Prop) (s : String) : Prop := ∀ c ∈ s.toList, isPrintable c = true ∨ P c

section Made

variable {P : Char → Prop}

@[simp] theorem made_append {s t : String} : Made P (s ++ t) ↔ Made P s ∧ Made P t := by
  unfold Made
  rw [String.toList_append]
  exact List.forall_mem_append

theorem made_of_printable {s : String} (h : s.toList.all isPrintable = true) : Made P s := by
  intro c hc
  exact .inl (List.all_eq_true.mp h c hc)

theorem made_of_inert {s : String} (h : Inert s.toList) : Made P s := by
  intro c hc
  exact .inl (h c hc).1

theorem made_escape {s : String} (h : Made P s) : Made P (escape s) := by
  have hentities : ∀ e ∈ entities, (escapeChar e.1).all isPrintable = true := by decide
  intro c hc
  rw [escape, String.toList_ofList, escapeChars_eq_flatMap] at hc
  obtain ⟨d, hd, hc⟩ := List.mem_flatMap.mp hc
  by_cases hspecial : d ∈ entities.map Prod.fst
  · obtain ⟨e, he, rfl⟩ := List.mem_map.mp hspecial
    exact .inl (List.all_eq_true.mp (hentities e he) c hc)
  · rw [escapeChar_of_plain hspecial, List.mem_singleton] at hc
    rw [hc]
    exact h d hd

def Attributed (P : Char → Prop) (attributes : List (String × String)) : Prop :=
  ∀ a ∈ attributes, Made P a.1 ∧ Made P a.2

@[simp] theorem attributed_append {attributes more : List (String × String)} :
    Attributed P (attributes ++ more) ↔ Attributed P attributes ∧ Attributed P more :=
  List.forall_mem_append

theorem Attributed.nil : Attributed P [] := fun _ ha => absurd ha List.not_mem_nil

theorem Attributed.cons {name value : String} {attributes : List (String × String)}
    (hname : name.toList.all isPrintable = true) (hvalue : Made P value)
    (h : Attributed P attributes) : Attributed P ((name, value) :: attributes) :=
  List.forall_mem_cons.mpr ⟨⟨made_of_printable hname, hvalue⟩, h⟩

theorem Attributed.made {attributes : List (String × String)} (h : Attributed P attributes) :
    Made P (attributeText attributes) := by
  have hmarks : Made P " " ∧ Made P "=\"" ∧ Made P "\"" :=
    ⟨made_of_printable (by decide), made_of_printable (by decide), made_of_printable (by decide)⟩
  obtain ⟨hblank, hequals, hquote⟩ := hmarks
  intro c hc
  rw [attributeText, String.toList_join] at hc
  obtain ⟨text, htext, hc⟩ := List.mem_flatMap.mp hc
  obtain ⟨⟨name, value⟩, ha, rfl⟩ := List.mem_map.mp htext
  obtain ⟨hname, hvalue⟩ := h _ ha
  have hmade : Made P (" " ++ name ++ "=\"" ++ value ++ "\"") := by
    simp only [made_append]
    exact ⟨⟨⟨⟨hblank, hname⟩, hequals⟩, hvalue⟩, hquote⟩
  exact hmade c hc

theorem attributed_coordinates (names : List String) {named : List (String × Float32)}
    (hnames : ∀ n ∈ names, n.toList.all isPrintable = true) (h : named.map Prod.fst = names) :
    Attributed P (coordinates named) := by
  intro a ha
  obtain ⟨p, hp, rfl⟩ := List.mem_map.mp ha
  have hname : p.1 ∈ names := h ▸ List.mem_map_of_mem hp
  exact ⟨made_of_printable (hnames p.1 hname), made_of_inert (inert_coordinate p.2)⟩

theorem attributed_paint {name : String} (hname : name.toList.all isPrintable = true) (c : Color) :
    Attributed P (paint name c) := by
  have hopacity : (name ++ "-opacity").toList.all isPrintable = true := by
    rw [String.toList_append, List.all_append, hname]
    rfl
  unfold paint
  split
  · exact .cons hname (made_of_inert (inert_toHex c)) .nil
  · exact .cons hname (made_of_inert (inert_toHex c))
      (.cons hopacity (made_of_inert (inert_fixedText 3 _)) .nil)

theorem attributed_dashes (style : EdgeStyle) : Attributed P (dashes style) := by
  cases style with
  | dashed => exact .cons (by decide) (made_of_printable (by decide)) .nil
  | dotted => exact .cons (by decide) (made_of_printable (by decide)) .nil
  | solid | bold | thick => exact .nil

/-- What is written of markup is made of these characters. -/
def Written (P : Char → Prop) (ms : List Markup) : Prop := Made P (writeAll ms)

theorem Written.nil : Written P [] := fun _ hc => absurd hc List.not_mem_nil

theorem Written.append {ms more : List Markup} (h : Written P ms) (h' : Written P more) :
    Written P (ms ++ more) := by
  unfold Written
  rw [writeAll_append]
  exact made_append.mpr ⟨h, h'⟩

theorem Written.cons {m : Markup} {ms : List Markup} (h : Written P [m]) (h' : Written P ms) :
    Written P (m :: ms) := h.append h'

theorem Written.flatMap {α : Type} {f : α → List Markup} {l : List α}
    (h : ∀ a ∈ l, Written P (f a)) : Written P (l.flatMap f) := by
  induction l with
  | nil => exact .nil
  | cons a rest ih =>
    rw [List.flatMap_cons]
    exact (h a List.mem_cons_self).append (ih fun b hb => h b (List.mem_cons_of_mem a hb))

theorem written_singleton {m : Markup} : Written P [m] ↔ Made P m.write := by
  unfold Written
  rw [writeAll, writeAll, String.append_empty]

theorem written_text {s : String} (h : Made P s) : Written P [.text (escape s)] := by
  rw [written_singleton, Markup.write]
  exact made_escape h

theorem written_leaf {tag : String} {attributes : List (String × String)}
    (htag : tag.toList.all isPrintable = true) (h : Attributed P attributes) :
    Written P [.leaf tag attributes] := by
  have hmarks : Made P "<" ∧ Made P "/>" :=
    ⟨made_of_printable (by decide), made_of_printable (by decide)⟩
  rw [written_singleton, Markup.write]
  simp only [made_append]
  exact ⟨⟨⟨hmarks.1, made_of_printable htag⟩, h.made⟩, hmarks.2⟩

theorem written_element {tag : String} {attributes : List (String × String)} {content : List Markup}
    (htag : tag.toList.all isPrintable = true) (h : Attributed P attributes)
    (hcontent : Written P content) : Written P [.element tag attributes content] := by
  have hmarks : Made P "<" ∧ Made P ">" ∧ Made P "</" :=
    ⟨made_of_printable (by decide), made_of_printable (by decide), made_of_printable (by decide)⟩
  obtain ⟨hopen, hclose, hend⟩ := hmarks
  have hname : Made P tag := made_of_printable htag
  rw [written_singleton, Markup.write]
  simp only [made_append]
  exact ⟨⟨⟨⟨⟨⟨⟨hopen, hname⟩, h.made⟩, hclose⟩, hcontent⟩, hend⟩, hname⟩, hclose⟩

theorem written_rectangle {more : List (String × String)} (r : Rect) (h : Attributed P more) :
    Written P [rectangle r more] :=
  written_leaf (by decide) (attributed_append.mpr
    ⟨attributed_coordinates ["x", "y", "width", "height"] (by decide) rfl, h⟩)

theorem written_line {more : List (String × String)} (s : Segment) (h : Attributed P more) :
    Written P [line s more] :=
  written_leaf (by decide) (attributed_append.mpr
    ⟨attributed_coordinates ["x1", "y1", "x2", "y2"] (by decide) rfl, h⟩)

theorem written_textLines (anchor : Point) {lines : List String} (fontSize : Float32)
    {family fill : String} (hlines : ∀ l ∈ lines, Made P l) (hfamily : Made P family)
    (hfill : Made P fill) : Written P [textLines anchor lines fontSize family fill] := by
  have hspans (dy : Nat → Float32) :
      Written P (lines.mapIdx fun i text =>
        .element "tspan" (coordinates [("x", anchor.x), ("dy", dy i)]) [.text (escape text)]) := by
    induction lines generalizing dy with
    | nil => exact .nil
    | cons text rest ih =>
      obtain ⟨htext, hrest⟩ := List.forall_mem_cons.mp hlines
      rw [List.mapIdx_cons]
      apply Written.cons
      · exact written_element (by decide) (attributed_coordinates ["x", "dy"] (by decide) rfl)
          (written_text htext)
      · exact ih hrest fun i => dy (i + 1)
  have hfont : Attributed P [("text-anchor", "middle"), ("dominant-baseline", "central"),
      ("font-family", escape family), ("font-size", coordinate fontSize), ("fill", escape fill)] :=
    .cons (by decide) (made_of_printable (by decide)) <|
      .cons (by decide) (made_of_printable (by decide)) <|
      .cons (by decide) (made_escape hfamily) <|
      .cons (by decide) (made_of_inert (inert_coordinate fontSize)) <|
      .cons (by decide) (made_escape hfill) .nil
  have hplace : Attributed P (coordinates [("x", anchor.x), ("y", anchor.y)]) :=
    attributed_coordinates ["x", "y"] (by decide) rfl
  exact written_element (by decide) (attributed_append.mpr ⟨hplace, hfont⟩) (hspans _)

theorem written_arrow (glyph : ArrowGlyph) (color : Color) (width : Float32) :
    Written P (arrow glyph color width) := by
  have hstroke : Attributed P (paint "stroke" color ++ [("stroke-width", coordinate width)]) :=
    attributed_append.mpr ⟨attributed_paint (by decide) color,
      .cons (by decide) (made_of_inert (inert_coordinate width)) .nil⟩
  have hnone : Made P "none" := made_of_printable (by decide)
  cases glyph with
  | chevron tip left right filled =>
    have hfill : Attributed P (if filled then paint "fill" color else [("fill", "none")]) := by
      split
      · exact attributed_paint (by decide) color
      · exact .cons (by decide) hnone .nil
    exact written_leaf (by decide) (.cons (by decide) (made_of_inert (inert_chevron _ filled))
      (attributed_append.mpr ⟨hfill, hstroke⟩))
  | circle center radius =>
    exact written_leaf (by decide) (attributed_append.mpr
      ⟨attributed_coordinates ["cx", "cy", "r"] (by decide) rfl, .cons (by decide) hnone hstroke⟩)
  | cross first second => exact (written_line first hstroke).cons (written_line second hstroke)

theorem written_outline {style : List (String × String)} (h : Attributed P style) (o : Outline) :
    Written P (outline style o) := by
  have hround (radius : Float32) :
      Attributed P (coordinates [("rx", radius), ("ry", radius)] ++ style) :=
    attributed_append.mpr ⟨attributed_coordinates ["rx", "ry"] (by decide) rfl, h⟩
  cases o with
  | rect bounds => exact written_rectangle bounds h
  | roundedRect bounds radius => exact written_rectangle bounds (hround radius)
  | stadium bounds radius => exact written_rectangle bounds (hround radius)
  | polygon points =>
    exact written_leaf (by decide) (.cons (by decide) (made_of_inert (inert_points points)) h)
  | ellipse center rx ry =>
    exact written_leaf (by decide) (attributed_append.mpr
      ⟨attributed_coordinates ["cx", "cy", "rx", "ry"] (by decide) rfl, h⟩)
  | doubleRect outer inner => exact (written_rectangle outer h).cons (written_rectangle inner h)

section Theme

variable {t : Theme} (ht : ∀ s ∈ t.texts, Made P s)
include ht

theorem written_frame {f : SubgraphFrame} (h : Made P f.label) : Written P (frame t f) := by
  have hwords : Made P "1" ∧ Made P "6 4" ∧ Made P "hanging" :=
    ⟨made_of_printable (by decide), made_of_printable (by decide), made_of_printable (by decide)⟩
  obtain ⟨hone, hdash, hhanging⟩ := hwords
  have hdashes : Attributed P (if f.dashed then [("stroke-dasharray", "6 4")] else []) := by
    split
    · exact .cons (by decide) hdash .nil
    · exact .nil
  have hcolours : Attributed P [("fill", escape t.clusterBackground),
      ("stroke", escape t.clusterBorder), ("stroke-width", "1")] :=
    .cons (by decide) (made_escape (ht _ (by simp [Theme.texts]))) <|
      .cons (by decide) (made_escape (ht _ (by simp [Theme.texts]))) <|
      .cons (by decide) hone .nil
  have hfont : Attributed P [("font-family", escape t.fontFamily),
      ("font-size", coordinate (t.fontSize * 0.75)), ("fill", escape t.primaryTextColor),
      ("dominant-baseline", "hanging")] :=
    .cons (by decide) (made_escape (ht _ (by simp [Theme.texts]))) <|
      .cons (by decide) (made_of_inert (inert_coordinate _)) <|
      .cons (by decide) (made_escape (ht _ (by simp [Theme.texts]))) <|
      .cons (by decide) hhanging .nil
  have hbox := written_rectangle f.bounds (attributed_append.mpr ⟨hcolours, hdashes⟩)
  unfold frame
  dsimp only
  split
  · exact hbox
  · exact hbox.cons (written_element (by decide) (attributed_append.mpr
      ⟨attributed_coordinates ["x", "y"] (by decide) rfl, hfont⟩) (written_text h))

theorem written_edge {e : EdgeGeometry} (h : ∀ l ∈ e.label, ∀ line ∈ l.lines, Made P line) :
    Written P (edge t e) := by
  have hnone : Made P "none" := made_of_printable (by decide)
  have hstroke : Attributed P (paint "stroke" e.color ++
      ("stroke-width", coordinate (drawnWidth e.style e.strokeWidth)) :: dashes e.style) :=
    attributed_append.mpr ⟨attributed_paint (by decide) e.color,
      .cons (by decide) (made_of_inert (inert_coordinate _)) (attributed_dashes e.style)⟩
  have hroute : Attributed P [("d", pathText e.route.points), ("fill", "none")] :=
    .cons (by decide) (made_of_inert (inert_pathText _)) (.cons (by decide) hnone .nil)
  refine ((Written.append ?_ ?_).append ?_).append ?_
  · exact written_leaf (by decide) (attributed_append.mpr ⟨hroute, hstroke⟩)
  · split
    · exact written_line e.labelSegment hstroke
    · exact .nil
  · cases e.arrow with
    | none => exact .nil
    | some glyph => exact written_arrow glyph e.color _
  · cases hlabel : e.label with
    | none => exact .nil
    | some l =>
      have hbackground : Made P t.edgeLabelBackground := ht _ (by simp [Theme.texts])
      have hfamily : Made P t.fontFamily := ht _ (by simp [Theme.texts])
      have hfill : Made P t.primaryTextColor := ht _ (by simp [Theme.texts])
      exact (written_rectangle _ (.cons (by decide) (made_escape hbackground) .nil)).cons
        (written_textLines l.anchor l.fontSize (h l hlabel) hfamily hfill)

theorem written_node {n : NodeGeometry} (h : ∀ line ∈ n.labelLines, Made P line) :
    Written P (node t n) := by
  have hstyle : Attributed P (paint "fill" n.fill ++ paint "stroke" n.border ++
      [("stroke-width", coordinate n.borderWidth)]) :=
    attributed_append.mpr ⟨attributed_append.mpr
      ⟨attributed_paint (by decide) n.fill, attributed_paint (by decide) n.border⟩,
      .cons (by decide) (made_of_inert (inert_coordinate _)) .nil⟩
  have hfamily : Made P t.fontFamily := ht _ (by simp [Theme.texts])
  exact (written_outline hstyle n.outline).append
    (written_textLines n.labelAnchor n.fontSize h hfamily (made_of_inert (inert_toHex n.textColor)))

/-- A drawing is made of printable characters, those of the theme, and those of the texts that it
shows. -/
theorem made_render {s : Scene} (h : ∀ text ∈ s.texts, Made P text) : Made P (render s t) := by
  have hframes : ∀ f ∈ s.frames, Made P f.label := by
    intro f hf
    apply h
    exact List.mem_append_left _ (List.mem_append_left _ (List.mem_map_of_mem hf))
  have hedges : ∀ e ∈ s.edges, ∀ l ∈ e.label, ∀ line ∈ l.lines, Made P line := by
    intro e he l hl line hline
    apply h
    refine List.mem_append_left _ (List.mem_append_right _ (List.mem_flatMap.mpr ⟨e, he, ?_⟩))
    exact List.mem_flatMap.mpr ⟨l, Option.mem_toList.mpr hl, hline⟩
  have hnodes : ∀ n ∈ s.nodes, ∀ line ∈ n.labelLines, Made P line := by
    intro n hn line hline
    apply h
    exact List.mem_append_right _ (List.mem_flatMap.mpr ⟨n, hn, hline⟩)
  have hcanvas : Attributed P [("width", "100%"), ("height", "100%"),
      ("fill", escape t.background)] :=
    .cons (by decide) (made_of_printable (by decide)) <|
      .cons (by decide) (made_of_printable (by decide)) <|
      .cons (by decide) (made_escape (ht _ (by simp [Theme.texts]))) .nil
  have hroot : Attributed P [("xmlns", "http://www.w3.org/2000/svg"),
      ("width", coordinate (Single.larger s.width leastCanvas)),
      ("height", coordinate (Single.larger s.height leastCanvas)),
      ("viewBox", "0 0 " ++ coordinate (Single.larger s.width leastCanvas) ++ " " ++
        coordinate (Single.larger s.height leastCanvas))] :=
    .cons (by decide) (made_of_printable (by decide)) <|
      .cons (by decide) (made_of_inert (inert_coordinate _)) <|
      .cons (by decide) (made_of_inert (inert_coordinate _)) <|
      .cons (by decide) (made_of_inert (inert_viewBox _ _)) .nil
  refine written_singleton.mp (written_element (by decide) hroot (Written.cons ?_ ?_))
  · exact written_leaf (by decide) hcanvas
  · refine (Written.append (.flatMap ?_) (.flatMap ?_)).append (.flatMap ?_)
    · exact fun f hf => written_frame ht (hframes f hf)
    · exact fun e he => written_edge ht (hedges e he)
    · exact fun n hn => written_node ht (hnodes n hn)

end Theme

end Made

mutual

def Item.shown : Item → List Char
  | .char c => [c]
  | .element _ _ content => shownBy content

def shownBy : List Item → List Char
  | [] => []
  | item :: rest => item.shown ++ shownBy rest

end

mutual

theorem Item.shown_bare : ∀ item : Item, item.bare.shown = item.shown
  | .char _ => rfl
  | .element _ _ content => by rw [Item.bare, Item.shown, Item.shown, shownBy_bareAll content]

theorem shownBy_bareAll : ∀ items : List Item, shownBy (bareAll items) = shownBy items
  | [] => rfl
  | item :: rest => by rw [bareAll, shownBy, shownBy, item.shown_bare, shownBy_bareAll rest]

end

theorem shownBy_letters (s : String) : shownBy (letters s) = s.toList := by
  rw [letters]
  induction s.toList with
  | nil => rfl
  | cons c rest ih =>
    rw [List.map_cons, shownBy, ih]
    rfl

theorem mem_shownBy {items : List Item} {item : Item} {c : Char} (h : item ∈ items)
    (hc : c ∈ item.shown) : c ∈ shownBy items := by
  induction items with
  | nil => exact absurd h List.not_mem_nil
  | cons first rest ih =>
    rw [shownBy, List.mem_append]
    rcases List.mem_cons.mp h with rfl | h
    · exact .inl hc
    · exact .inr (ih h)

/-- Only printable characters have entities, so others are written as they are. -/
theorem Says.mem_of_shown {s : List Char} {items : List Item} (h : Says s items) {c : Char}
    (hc : c ∈ shownBy items) (hplain : isPrintable c = false) : c ∈ s := by
  induction h with
  | nil => exact absurd hc List.not_mem_nil
  | @char p s d items hd _ ih =>
    rw [shownBy, List.mem_append] at hc
    rcases hc with hc | hc
    · obtain rfl : c = d := List.mem_singleton.mp hc
      cases hd with
      | plain => exact List.mem_append_left s List.mem_cons_self
      | entity hname =>
        have hprintable : ∀ e ∈ entityNames, isPrintable e.2 = true := by decide
        rw [hprintable _ hname] at hplain
        exact absurd hplain (by decide)
    · exact List.mem_append_right p (ih hc)
  | leaf _ _ ih =>
    rw [shownBy, List.mem_append] at hc
    rcases hc with hc | hc
    · exact absurd hc List.not_mem_nil
    · simp [ih hc]
  | element _ _ _ ihcontent ih =>
    rw [shownBy, List.mem_append] at hc
    rcases hc with hc | hc
    · simp [ihcontent hc]
    · simp [ih hc]

theorem mem_shown_lineItems {lines : List String} {line : String} (h : line ∈ lines) {c : Char}
    (hc : c ∈ line.toList) : c ∈ (lineItems lines).shown := by
  rw [lineItems, Item.shown]
  apply mem_shownBy (List.mem_map_of_mem h)
  rw [Item.shown, shownBy_letters]
  exact hc

/-- Every text of a scene is shown. -/
theorem mem_shown_item {s : Scene} {text : String} (h : text ∈ s.texts) {c : Char}
    (hc : c ∈ text.toList) : c ∈ s.item.shown := by
  have hparts (items : List Item) (item : Item) (hitem : item ∈ items) (hshown : c ∈ item.shown)
      (hsub : items ⊆ s.frames.flatMap SubgraphFrame.items ++ s.edges.flatMap EdgeGeometry.items ++
        s.nodes.flatMap NodeGeometry.items) : c ∈ s.item.shown := by
    rw [Scene.item, Item.shown]
    exact mem_shownBy (List.mem_cons_of_mem _ (hsub hitem)) hshown
  rcases List.mem_append.mp h with h | h
  rcases List.mem_append.mp h with h | h
  · obtain ⟨f, hf, rfl⟩ := List.mem_map.mp h
    have hlabel : f.label.isEmpty = false := by
      rw [← Bool.not_eq_true, String.isEmpty_iff]
      rintro hempty
      rw [hempty] at hc
      exact absurd hc List.not_mem_nil
    refine hparts f.items (.element "text" [] (letters f.label)) ?_ ?_ ?_
    · simp [SubgraphFrame.items, hlabel]
    · rw [Item.shown, shownBy_letters]
      exact hc
    · exact fun item hitem => List.mem_append_left _ (List.mem_append_left _
        (List.mem_flatMap.mpr ⟨f, hf, hitem⟩))
  · obtain ⟨e, he, hlines⟩ := List.mem_flatMap.mp h
    obtain ⟨l, hl, hline⟩ := List.mem_flatMap.mp hlines
    rw [Option.mem_toList] at hl
    refine hparts e.items (lineItems l.lines) ?_ (mem_shown_lineItems hline hc) ?_
    · simp [EdgeGeometry.items, Option.mem_def.mp hl]
    · exact fun item hitem => List.mem_append_left _ (List.mem_append_right _
        (List.mem_flatMap.mpr ⟨e, he, hitem⟩))
  · obtain ⟨n, hn, hline⟩ := List.mem_flatMap.mp h
    refine hparts n.items (lineItems n.labelLines) ?_ (mem_shown_lineItems hline hc) ?_
    · simp [NodeGeometry.items]
    · exact fun item hitem => List.mem_append_right _ (List.mem_flatMap.mpr ⟨n, hn, hitem⟩)

/-- Without a character in the theme, one that is not printable is in the drawing if and only if it
is in a text that is shown. -/
theorem mem_render_iff {s : Scene} {t : Theme} {c : Char} (hplain : isPrintable c = false)
    (ht : ∀ text ∈ t.texts, c ∉ text.toList) :
    c ∈ (render s t).toList ↔ ∃ text ∈ s.texts, c ∈ text.toList := by
  constructor
  · intro hmem
    have htheme : ∀ text ∈ t.texts, Made (fun d => d ≠ c ∨ ∃ text ∈ s.texts, d ∈ text.toList) text :=
      fun text htext d hd => .inr (.inl fun h => ht text htext (h ▸ hd))
    have hmade := made_render htheme fun text htext d hd => .inr (.inr ⟨text, htext, hd⟩)
    rcases hmade c hmem with hprintable | hne | htext
    · rw [hprintable] at hplain
      exact absurd hplain (by decide)
    · exact absurd rfl hne
    · exact htext
  · rintro ⟨text, htext, hc⟩
    obtain ⟨root, hroot, hbare⟩ := exists_says_render s t
    refine hroot.mem_of_shown ?_ hplain
    apply mem_shownBy List.mem_cons_self
    rw [← root.shown_bare, hbare]
    exact mem_shown_item htext hc

end Svg
end Flowchart
