import Flowchart.Proofs.Svg.Escape
import Flowchart.Proofs.Svg.Grammar

namespace Flowchart.Svg

mutual

def Item.bare : Item → Item
  | .char c => .char c
  | .element tag _ content => .element tag [] (bareAll content)

def bareAll : List Item → List Item
  | [] => []
  | item :: rest => item.bare :: bareAll rest

end

mutual

def Item.tags : Item → List Item
  | .char _ => []
  | .element tag _ content => [.element tag [] (tagsAll content)]

def tagsAll : List Item → List Item
  | [] => []
  | item :: rest => item.tags ++ tagsAll rest

end

theorem bareAll_eq_map (items : List Item) : bareAll items = items.map Item.bare := by
  induction items with
  | nil => rfl
  | cons item rest ih => rw [bareAll, ih, List.map_cons]

theorem tagsAll_eq_flatMap (items : List Item) : tagsAll items = items.flatMap Item.tags := by
  induction items with
  | nil => rfl
  | cons item rest ih => rw [tagsAll, ih, List.flatMap_cons]

mutual

theorem Item.tags_bare : ∀ item : Item, item.bare.tags = item.tags
  | .char _ => rfl
  | .element tag _ content => by
    rw [Item.bare, Item.tags, Item.tags, tagsAll_bareAll content]

theorem tagsAll_bareAll : ∀ items : List Item, tagsAll (bareAll items) = tagsAll items
  | [] => rfl
  | item :: rest => by
    rw [bareAll, tagsAll, tagsAll, item.tags_bare, tagsAll_bareAll rest]

end

def blank (tag : String) : Item := .element tag [] []

def letters (s : String) : List Item := s.toList.map .char

/-- The attributes have some of these names, in this order, and nothing in their values is left to
be escaped. -/
structure Fits (attributes : List (String × String)) (names : List String) : Prop where
  names : (attributes.map Prod.fst).Sublist names
  values : ∀ a ∈ attributes, ∃ s, a.2.toList = escapeChars s

def Distinct (names : List String) : Prop := names.Nodup ∧ ∀ n ∈ names, isName n.toList = true

instance : DecidablePred Distinct := fun names =>
  inferInstanceAs (Decidable (names.Nodup ∧ ∀ n ∈ names, isName n.toList = true))

namespace Fits

variable {attributes more : List (String × String)} {names others : List String}

theorem append (h : Fits attributes names) (h' : Fits more others) :
    Fits (attributes ++ more) (names ++ others) where
  names := by
    rw [List.map_append]
    exact h.names.append h'.names
  values := fun a ha => (List.mem_append.mp ha).elim (h.values a) (h'.values a)

theorem cons (name : String) {value : String} (hvalue : ∃ s, value.toList = escapeChars s)
    (h : Fits attributes names) : Fits ((name, value) :: attributes) (name :: names) where
  names := h.names.cons_cons name
  values := List.forall_mem_cons.mpr ⟨hvalue, h.values⟩

theorem nil (names : List String) : Fits [] names where
  names := List.nil_sublist _
  values := fun _ ha => absurd ha List.not_mem_nil

theorem escaped (name s : String) (h : Fits attributes names) :
    Fits ((name, escape s) :: attributes) (name :: names) :=
  h.cons name ⟨s.toList, String.toList_ofList⟩

theorem plain (name : String) {value : String} (hvalue : Plain value.toList)
    (h : Fits attributes names) : Fits ((name, value) :: attributes) (name :: names) :=
  h.cons name ⟨value.toList, (escapeChars_of_plain hvalue).symm⟩

end Fits

theorem spells_escapeChar (c : Char) : Spells (escapeChar c) c ∧ '"' ∉ escapeChar c := by
  by_cases hspecial : c ∈ entities.map Prod.fst
  · -- the writer and the reader have tables of their own
    have hentities : ∀ e ∈ entities, ∃ f ∈ entityNames,
        f.2 = e.1 ∧ escapeChar e.1 = '&' :: f.1.toList ++ [';'] ∧ '"' ∉ escapeChar e.1 := by
      decide
    obtain ⟨e, he, rfl⟩ := List.mem_map.mp hspecial
    obtain ⟨⟨name, _⟩, hentry, rfl, hwritten, hquote⟩ := hentities e he
    exact ⟨hwritten ▸ .entity hentry, hquote⟩
  · have hall : '<' ∈ entities.map Prod.fst ∧ '&' ∈ entities.map Prod.fst ∧
        '"' ∈ entities.map Prod.fst := by decide
    have hne {d : Char} (hd : d ∈ entities.map Prod.fst) : c ≠ d := fun e => hspecial (e ▸ hd)
    rw [escapeChar_of_plain hspecial]
    refine ⟨.plain (hne hall.1) (hne hall.2.1), ?_⟩
    exact fun h => hne hall.2.2 (List.mem_singleton.mp h).symm

theorem spellsValue_escapeChars (s : List Char) : SpellsValue (escapeChars s) s := by
  rw [escapeChars_eq_flatMap]
  induction s with
  | nil => exact .nil
  | cons c rest ih =>
    obtain ⟨hc, hquote⟩ := spells_escapeChar c
    exact .cons hc hquote ih

theorem says_escape (s : String) : Says (escape s).toList (letters s) := by
  rw [escape, String.toList_ofList, escapeChars_eq_flatMap, letters]
  induction s.toList with
  | nil => exact .nil
  | cons c rest ih => exact .char (spells_escapeChar c).1 ih

theorem attributeText_cons (name value : String) (attributes : List (String × String)) :
    (attributeText ((name, value) :: attributes)).toList =
      ' ' :: name.toList ++ '=' :: '"' :: value.toList ++ '"' :: (attributeText attributes).toList := by
  simp [attributeText, String.join_cons, String.toList_append]

theorem Fits.spellsTag {attributes : List (String × String)} {names : List String} {tag : String}
    (h : Fits attributes names) (hnames : Distinct names) (htag : isName tag.toList = true) :
    ∃ read, SpellsTag (tag.toList ++ (attributeText attributes).toList) tag read := by
  -- the values are read as what was escaped, and the names are as they were
  have hspells : ∃ read, SpellsAttributes (attributeText attributes).toList read ∧
      read.map Prod.fst = attributes.map Prod.fst := by
    have hlegal (a : String × String) (ha : a ∈ attributes) : isName a.1.toList = true :=
      hnames.2 a.1 (h.names.subset (List.mem_map_of_mem ha))
    have hvalues := h.values
    clear h
    induction attributes with
    | nil => exact ⟨[], .nil, rfl⟩
    | cons a rest ih =>
      obtain ⟨read, hread, hfst⟩ := ih (fun b hb => hlegal b (List.mem_cons_of_mem a hb))
        (fun b hb => hvalues b (List.mem_cons_of_mem a hb))
      obtain ⟨s, hs⟩ := hvalues a List.mem_cons_self
      refine ⟨(a.1, String.ofList s) :: read, ?_, ?_⟩
      · have hvalue : SpellsValue a.2.toList (String.ofList s).toList := by
          rw [hs, String.toList_ofList]
          exact spellsValue_escapeChars s
        rw [attributeText_cons]
        exact .cons (hlegal a List.mem_cons_self) hvalue hread
      · rw [List.map_cons, List.map_cons, hfst]
  obtain ⟨read, hread, hfst⟩ := hspells
  exact ⟨read, .intro htag hread (hfst ▸ h.names.nodup hnames.1)⟩

/-- Markup is read as these items, but for the attributes of elements. -/
def Draws (ms : List Markup) (items : List Item) : Prop :=
  ∃ read, Says (writeAll ms).toList read ∧ bareAll read = items

theorem Draws.nil : Draws [] [] := ⟨[], .nil, rfl⟩

theorem writeAll_append (ms more : List Markup) :
    writeAll (ms ++ more) = writeAll ms ++ writeAll more := by
  induction ms with
  | nil => rw [List.nil_append, writeAll, String.empty_append]
  | cons m rest ih => rw [List.cons_append, writeAll, ih, writeAll, String.append_assoc]

theorem Draws.append {ms more : List Markup} {items others : List Item} (h : Draws ms items)
    (h' : Draws more others) : Draws (ms ++ more) (items ++ others) := by
  obtain ⟨read, hread, rfl⟩ := h
  obtain ⟨read', hread', rfl⟩ := h'
  refine ⟨read ++ read', ?_, ?_⟩
  · rw [writeAll_append, String.toList_append]
    exact hread.append hread'
  · rw [bareAll_eq_map, bareAll_eq_map, bareAll_eq_map, List.map_append]

theorem Draws.flatMap {α : Type} {f : α → List Markup} {g : α → List Item} (l : List α)
    (h : ∀ a, Draws (f a) (g a)) : Draws (l.flatMap f) (l.flatMap g) := by
  induction l with
  | nil => exact .nil
  | cons a rest ih =>
    rw [List.flatMap_cons, List.flatMap_cons]
    exact (h a).append ih

theorem draws_text (s : String) : Draws [.text (escape s)] (letters s) := by
  refine ⟨letters s, ?_, ?_⟩
  · rw [writeAll, writeAll, Markup.write, String.append_empty]
    exact says_escape s
  · rw [bareAll_eq_map, letters, List.map_map]
    rfl

theorem Fits.draws_leaf {attributes : List (String × String)} {names : List String} {tag : String}
    (h : Fits attributes names) (hnames : Distinct names) (htag : isName tag.toList = true) :
    Draws [.leaf tag attributes] [blank tag] := by
  obtain ⟨read, hread⟩ := h.spellsTag hnames htag
  refine ⟨[.element tag read []], ?_, rfl⟩
  have htext : (writeAll [.leaf tag attributes]).toList =
      '<' :: (tag.toList ++ (attributeText attributes).toList) ++ '/' :: '>' :: [] := by
    simp [writeAll, Markup.write, String.toList_append]
  rw [htext]
  exact .leaf hread .nil

theorem Fits.draws_element {attributes : List (String × String)} {names : List String}
    {tag : String} {content : List Markup} {items : List Item} (h : Fits attributes names)
    (hnames : Distinct names) (htag : isName tag.toList = true) (hcontent : Draws content items) :
    Draws [.element tag attributes content] [.element tag [] items] := by
  obtain ⟨read, hread⟩ := h.spellsTag hnames htag
  obtain ⟨inner, hinner, rfl⟩ := hcontent
  refine ⟨[.element tag read inner], ?_, rfl⟩
  have htext : (writeAll [.element tag attributes content]).toList =
      '<' :: (tag.toList ++ (attributeText attributes).toList) ++ '>' :: (writeAll content).toList ++
        '<' :: '/' :: tag.toList ++ '>' :: [] := by
    simp [writeAll, Markup.write, String.toList_append]
  rw [htext]
  exact .element hread hinner .nil

end Flowchart.Svg
