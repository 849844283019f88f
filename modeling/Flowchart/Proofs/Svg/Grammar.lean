import Mathlib.Data.List.Nodup

namespace Flowchart.Svg

inductive Item where
  | char (c : Char)
  | element (tag : String) (attributes : List (String × String)) (content : List Item)

def entityNames : List (String × Char) :=
  [("amp", '&'), ("lt", '<'), ("gt", '>'), ("quot", '"'), ("apos", '\x27')]

/-- The ways to write a character: as it is, if it does not begin a tag or an entity, or as an
entity. -/
inductive Spells : List Char → Char → Prop where
  | plain {c : Char} (htag : c ≠ '<') (hentity : c ≠ '&') : Spells [c] c
  | entity {name : String} {c : Char} (h : (name, c) ∈ entityNames) :
    Spells ('&' :: name.toList ++ [';']) c

inductive SpellsValue : List Char → List Char → Prop where
  | nil : SpellsValue [] []
  | cons {p s value : List Char} {c : Char} (hc : Spells p c) (hquote : '"' ∉ p)
    (h : SpellsValue s value) : SpellsValue (p ++ s) (c :: value)

def isNameChar (c : Char) : Bool := c.isAlphanum || c == '-'

def isName : List Char → Bool
  | [] => false
  | c :: rest => c.isAlpha && rest.all isNameChar

inductive SpellsAttributes : List Char → List (String × String) → Prop where
  | nil : SpellsAttributes [] []
  | cons {name value : String} {p s : List Char} {attributes : List (String × String)}
    (hname : isName name.toList = true) (hvalue : SpellsValue p value.toList)
    (h : SpellsAttributes s attributes) :
    SpellsAttributes (' ' :: name.toList ++ '=' :: '"' :: p ++ '"' :: s)
      ((name, value) :: attributes)

/-- What stands between the angles of a tag that opens an element; no two attributes have the same
name. -/
inductive SpellsTag : List Char → String → List (String × String) → Prop where
  | intro {tag : String} {attributes : List (String × String)} {s : List Char}
    (htag : isName tag.toList = true) (h : SpellsAttributes s attributes)
    (hdistinct : (attributes.map Prod.fst).Nodup) : SpellsTag (tag.toList ++ s) tag attributes

/-- A text says these characters and elements. -/
inductive Says : List Char → List Item → Prop where
  | nil : Says [] []
  | char {p s : List Char} {c : Char} {items : List Item} (hc : Spells p c) (h : Says s items) :
    Says (p ++ s) (.char c :: items)
  | leaf {p s : List Char} {tag : String} {attributes : List (String × String)} {items : List Item}
    (htag : SpellsTag p tag attributes) (h : Says s items) :
    Says ('<' :: p ++ '/' :: '>' :: s) (.element tag attributes [] :: items)
  | element {p inner s : List Char} {tag : String} {attributes : List (String × String)}
    {content items : List Item} (htag : SpellsTag p tag attributes) (hcontent : Says inner content)
    (h : Says s items) :
    Says ('<' :: p ++ '>' :: inner ++ '<' :: '/' :: tag.toList ++ '>' :: s)
      (.element tag attributes content :: items)

theorem Says.append {s t : List Char} {items more : List Item} (hs : Says s items)
    (ht : Says t more) : Says (s ++ t) (items ++ more) := by
  induction hs with
  | nil => exact ht
  | char hc _ ih =>
    rw [List.append_assoc]
    exact .char hc ih
  | leaf htag _ ih => simpa using Says.leaf htag ih
  | element htag hcontent _ _ ih => simpa using Says.element htag hcontent ih

/-- Two words of characters of one kind, each with another character after it, are the same if the
texts that they begin are. -/
theorem append_cons_inj {kind : Char → Bool} {a b r t : List Char} {x y : Char}
    (ha : ∀ c ∈ a, kind c = true) (hb : ∀ c ∈ b, kind c = true) (hx : kind x = false)
    (hy : kind y = false) (h : a ++ x :: r = b ++ y :: t) : a = b ∧ x = y ∧ r = t := by
  have hword {a r : List Char} {x : Char} (ha : ∀ c ∈ a, kind c = true) (hx : kind x = false) :
      (a ++ x :: r).takeWhile kind = a := by
    rw [List.takeWhile_append_of_pos ha, List.takeWhile_cons_of_neg (by simp [hx]),
      List.append_nil]
  obtain rfl : a = b := by rw [← hword ha hx, h, hword hb hy]
  exact ⟨rfl, List.cons.inj (List.append_cancel_left h)⟩

theorem Spells.unique {p q r t : List Char} {c d : Char} (hp : Spells p c) (hq : Spells q d)
    (h : p ++ r = q ++ t) : p = q ∧ c = d ∧ r = t := by
  cases hp with
  | plain _ hc =>
    cases hq with
    | plain =>
      obtain ⟨rfl, rfl⟩ := List.cons.inj h
      exact ⟨rfl, rfl, rfl⟩
    | entity => exact absurd (List.cons.inj h).1 hc
  | entity hname =>
    rename_i name
    cases hq with
    | plain _ hd => exact absurd (List.cons.inj h).1.symm hd
    | entity hother =>
      rename_i other
      have hletters : ∀ e ∈ entityNames, e.1.toList.all Char.isAlpha = true := by decide
      have hentries : ∀ e ∈ entityNames, ∀ f ∈ entityNames, e.1 = f.1 → e = f := by decide
      have htail : name.toList ++ ';' :: r = other.toList ++ ';' :: t := by
        simpa using h
      obtain ⟨hnames, _, hrest⟩ :=
        append_cons_inj (List.all_eq_true.mp (hletters _ hname))
          (List.all_eq_true.mp (hletters _ hother)) rfl rfl htail
      have hentry := hentries _ hname _ hother (String.toList_inj.mp hnames)
      obtain ⟨rfl, rfl⟩ := Prod.mk.inj hentry
      exact ⟨rfl, rfl, hrest⟩

theorem Spells.exists_cons {p : List Char} {c : Char} (h : Spells p c) :
    ∃ d r, p = d :: r ∧ d ≠ '<' := by
  cases h with
  | plain htag _ => exact ⟨c, [], rfl, htag⟩
  | entity _ => exact ⟨'&', _, rfl, by decide⟩

theorem Spells.append_ne {p s r t : List Char} {c : Char} (h : Spells p c) :
    p ++ s ++ r ≠ '<' :: t := by
  obtain ⟨d, u, rfl, hd⟩ := h.exists_cons
  exact fun e => hd (List.cons.inj e).1

theorem SpellsValue.unique {p q r t value other : List Char} (hp : SpellsValue p value)
    (hq : SpellsValue q other) (h : p ++ '"' :: r = q ++ '"' :: t) :
    value = other ∧ r = t := by
  -- what is between the quotes cannot begin with the quote that ends it
  have hquoted {p s : List Char} {c : Char} (hc : Spells p c) (hp : '"' ∉ p) :
      '"' :: r ≠ p ++ s ∧ '"' :: t ≠ p ++ s := by
    obtain ⟨d, u, rfl, _⟩ := hc.exists_cons
    have hd : '"' ≠ d := fun e => hp (e ▸ List.mem_cons_self)
    exact ⟨fun e => hd (List.cons.inj e).1, fun e => hd (List.cons.inj e).1⟩
  induction hp generalizing q other with
  | nil =>
    cases hq with
    | nil => exact ⟨rfl, (List.cons.inj h).2⟩
    | cons hd hquote _ => exact absurd (h.trans (List.append_assoc ..)) (hquoted hd hquote).1
  | cons hc hquote _ ih =>
    rw [List.append_assoc] at h
    cases hq with
    | nil => exact absurd h.symm (hquoted hc hquote).2
    | cons hd _ hq =>
      rw [List.append_assoc] at h
      obtain ⟨_, rfl, hrest⟩ := hc.unique hd h
      obtain ⟨rfl, hr⟩ := ih hq hrest
      exact ⟨rfl, hr⟩

theorem isNameChar_of_isName {name : List Char} (h : isName name = true) :
    ∀ c ∈ name, isNameChar c = true := by
  cases name with
  | nil => exact fun c hc => absurd hc List.not_mem_nil
  | cons c rest =>
    rw [isName, Bool.and_eq_true, List.all_eq_true] at h
    have hc : isNameChar c = true := by simp [isNameChar, Char.isAlphanum, h.1]
    exact List.forall_mem_cons.mpr ⟨hc, h.2⟩

theorem SpellsAttributes.unique {p q r t : List Char} {x y : Char}
    {attributes others : List (String × String)} (hp : SpellsAttributes p attributes)
    (hq : SpellsAttributes q others) (hx : x ≠ ' ') (hy : y ≠ ' ') (h : p ++ x :: r = q ++ y :: t) :
    attributes = others ∧ x = y ∧ r = t := by
  induction hp generalizing q others with
  | nil =>
    cases hq with
    | nil => exact ⟨rfl, List.cons.inj h⟩
    | cons => exact absurd (List.cons.inj h).1 hx
  | cons hname hvalue _ ih =>
    cases hq with
    | nil => exact absurd (List.cons.inj h).1.symm hy
    | cons hother hvalue' hq =>
      simp only [List.cons_append, List.append_assoc, List.cons.injEq, true_and] at h
      obtain ⟨hnames, _, h⟩ :=
        append_cons_inj (isNameChar_of_isName hname) (isNameChar_of_isName hother) rfl rfl h
      obtain ⟨hvalues, h⟩ := hvalue.unique hvalue' (List.cons.inj h).2
      obtain ⟨rfl, hrest⟩ := ih hq h
      rw [String.toList_inj] at hnames hvalues
      exact ⟨by rw [hnames, hvalues], hrest⟩

theorem SpellsTag.unique {p q r t : List Char} {x y : Char} {tag other : String}
    {attributes others : List (String × String)} (hp : SpellsTag p tag attributes)
    (hq : SpellsTag q other others) (hx : x = '/' ∨ x = '>') (hy : y = '/' ∨ y = '>')
    (h : p ++ x :: r = q ++ y :: t) : tag = other ∧ attributes = others ∧ x = y ∧ r = t := by
  have hblank {x : Char} (hx : x = '/' ∨ x = '>') : x ≠ ' ' ∧ isNameChar x = false := by
    rcases hx with rfl | rfl <;> decide
  -- the name of the tag ends at a blank or at the end of the tag
  have hname {s r : List Char} {x : Char} {attributes : List (String × String)}
      (hs : SpellsAttributes s attributes) (hx : x = '/' ∨ x = '>') :
      ∃ y t, s ++ x :: r = y :: t ∧ isNameChar y = false := by
    cases hs with
    | nil => exact ⟨x, r, rfl, (hblank hx).2⟩
    | cons => exact ⟨' ', _, rfl, by decide⟩
  cases hp with
  | intro htag hp _ =>
    cases hq with
    | intro hother hq _ =>
      rw [List.append_assoc, List.append_assoc] at h
      obtain ⟨x', r', hr', hx'⟩ := hname hp hx (r := r)
      obtain ⟨y', t', ht', hy'⟩ := hname hq hy (r := t)
      have hwhole := h
      rw [hr', ht'] at h
      obtain ⟨htags, _, _⟩ := append_cons_inj (isNameChar_of_isName htag)
        (isNameChar_of_isName hother) hx' hy' h
      rw [htags] at hwhole
      obtain ⟨hattributes, hrest⟩ :=
        hp.unique hq (hblank hx).1 (hblank hy).1 (List.append_cancel_left hwhole)
      exact ⟨String.toList_inj.mp htags, hattributes, hrest⟩

theorem SpellsTag.exists_cons {p : List Char} {tag : String} {attributes : List (String × String)}
    (h : SpellsTag p tag attributes) : ∃ c r, p = c :: r ∧ c ≠ '/' := by
  cases h with
  | intro htag _ _ =>
    cases hname : tag.toList with
    | nil =>
      rw [hname] at htag
      exact absurd htag Bool.false_ne_true
    | cons c rest =>
      refine ⟨c, _, rfl, ?_⟩
      rintro rfl
      rw [hname] at htag
      exact absurd htag Bool.false_ne_true

/-- Content ends where the text does, or before a tag that closes an element. -/
def Ends (s : List Char) : Prop := s = [] ∨ ∃ r, s = '<' :: '/' :: r

theorem Says.nil_of_ends {s r t : List Char} {items : List Item} (h : Says s items)
    (ht : Ends t) (hst : s ++ r = t) : s = [] ∧ items = [] := by
  subst hst
  have htagged {p r : List Char} {tag : String} {attributes : List (String × String)}
      (htag : SpellsTag p tag attributes) : ¬ Ends ('<' :: p ++ r) := by
    obtain ⟨c, u, rfl, hc⟩ := htag.exists_cons
    rintro (hnil | ⟨t, ht⟩)
    · exact List.cons_ne_nil _ _ hnil
    · exact hc (List.cons.inj (List.cons.inj ht).2).1
  cases h with
  | nil => exact ⟨rfl, rfl⟩
  | char hc _ =>
    rcases ht with hnil | ⟨u, hu⟩
    · obtain ⟨d, u, rfl, _⟩ := hc.exists_cons
      exact absurd hnil (List.cons_ne_nil _ _)
    · exact absurd hu hc.append_ne
  | leaf htag _ =>
    rw [List.append_assoc] at ht
    exact absurd ht (htagged htag)
  | element htag _ _ =>
    simp only [List.append_assoc] at ht
    exact absurd ht (htagged htag)

/-- Content is the same, and ends at the same place, if it goes on in the same way up to an end. -/
theorem Says.unique_of_ends {s u r t : List Char} {items others : List Item} (hs : Says s items)
    (hu : Says u others) (hr : Ends r) (ht : Ends t) (h : s ++ r = u ++ t) :
    items = others ∧ r = t := by
  induction hs generalizing u others r t with
  | nil =>
    obtain ⟨rfl, rfl⟩ := hu.nil_of_ends hr h.symm
    exact ⟨rfl, h⟩
  | char hc hs ih =>
    cases hu with
    | nil => exact absurd ((Says.char hc hs).nil_of_ends ht h).2 (List.cons_ne_nil _ _)
    | char hd hu =>
      rw [List.append_assoc, List.append_assoc] at h
      obtain ⟨_, rfl, h⟩ := hc.unique hd h
      obtain ⟨rfl, hrest⟩ := ih hu hr ht h
      exact ⟨rfl, hrest⟩
    | leaf => exact absurd h hc.append_ne
    | element => exact absurd h hc.append_ne
  | leaf htag hs ih =>
    cases hu with
    | nil => exact absurd ((Says.leaf htag hs).nil_of_ends ht h).2 (List.cons_ne_nil _ _)
    | char hd => exact absurd h.symm hd.append_ne
    | leaf hother hu =>
      simp only [List.cons_append, List.append_assoc, List.cons.injEq, true_and] at h
      obtain ⟨rfl, rfl, _, h⟩ := htag.unique hother (.inl rfl) (.inl rfl) h
      obtain ⟨rfl, hrest⟩ := ih hu hr ht (List.cons.inj h).2
      exact ⟨rfl, hrest⟩
    | element hother =>
      simp only [List.cons_append, List.append_assoc, List.cons.injEq, true_and] at h
      obtain ⟨_, _, hend, _⟩ := htag.unique hother (.inl rfl) (.inr rfl) h
      exact absurd hend (by decide)
  | element htag hcontent hs ihcontent ih =>
    cases hu with
    | nil =>
      exact absurd ((Says.element htag hcontent hs).nil_of_ends ht h).2 (List.cons_ne_nil _ _)
    | char hd => exact absurd h.symm hd.append_ne
    | leaf hother =>
      simp only [List.cons_append, List.append_assoc, List.cons.injEq, true_and] at h
      obtain ⟨_, _, hend, _⟩ := htag.unique hother (.inr rfl) (.inl rfl) h
      exact absurd hend (by decide)
    | element hother hinner hu =>
      simp only [List.cons_append, List.append_assoc, List.cons.injEq, true_and] at h
      obtain ⟨rfl, rfl, _, h⟩ := htag.unique hother (.inr rfl) (.inr rfl) h
      -- the contents end at the tags that close the two elements, which have one name
      obtain ⟨rfl, hclose⟩ := ihcontent hinner (.inr ⟨_, rfl⟩) (.inr ⟨_, rfl⟩) h
      have hafter := List.append_cancel_left (List.cons.inj (List.cons.inj hclose).2).2
      obtain ⟨rfl, hrest⟩ := ih hu hr ht (List.cons.inj hafter).2
      exact ⟨rfl, hrest⟩

/-- A text says one thing at most. -/
theorem Says.unique {s : List Char} {items others : List Item} (h : Says s items)
    (h' : Says s others) : items = others :=
  (h.unique_of_ends h' (.inl rfl) (.inl rfl) rfl).1

end Flowchart.Svg
