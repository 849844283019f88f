import Flowchart.Proofs.Svg.Markup

namespace Flowchart.Svg

def entityText (name : String) : List Char := '&' :: name.toList ++ [';']

def entityAt? (s : List Char) : Option (String × Char) :=
  entityNames.find? fun e => (entityText e.1).isPrefixOf s

/-- The text with a character in place of every entity, from left to right; `none` if an ampersand
begins no entity. The counter says how many characters of an entity are still to be passed over. -/
def decodeFrom? : Nat → List Char → Option (List Char)
  | _, [] => some []
  | skip + 1, _ :: r => decodeFrom? skip r
  | 0, c :: r =>
    if c = '&' then
      match entityAt? (c :: r) with
      | some (name, d) => (decodeFrom? (name.length + 1) r).map (d :: ·)
      | none => none
    else (decodeFrom? 0 r).map (c :: ·)

def decode? (s : List Char) : Option (List Char) := decodeFrom? 0 s

theorem entityAt?_append {e : String × Char} (he : e ∈ entityNames) (t : List Char) :
    entityAt? (entityText e.1 ++ t) = some e := by
  simp only [entityNames, List.mem_cons, List.not_mem_nil, or_false] at he
  rcases he with rfl | rfl | rfl | rfl | rfl <;> rfl

theorem decodeFrom?_append (p t : List Char) : decodeFrom? p.length (p ++ t) = decodeFrom? 0 t := by
  induction p with
  | nil => rfl
  | cons c p ih => exact ih

/-- What spells a character is decoded to it. -/
theorem Spells.decode? {p : List Char} {c : Char} (hp : Spells p c) (t : List Char) :
    decode? (p ++ t) = (decode? t).map (c :: ·) := by
  cases hp with
  | plain _ hentity =>
    rw [Svg.decode?, List.singleton_append, decodeFrom?, if_neg hentity]
    rfl
  | @entity name _ he =>
    have hentity : entityAt? ('&' :: (name.toList ++ [';'] ++ t)) = some (name, c) :=
      entityAt?_append he t
    -- the ampersand is read, so the counter passes over the name and the semicolon
    have hlength : name.length + 1 = (name.toList ++ [';']).length := by
      rw [List.length_append, String.length_toList]
      rfl
    rw [Svg.decode?, List.cons_append, List.cons_append, decodeFrom?, if_pos rfl, hentity]
    dsimp only
    rw [hlength, decodeFrom?_append]
    rfl

/-- What spells a character has an ampersand at its front only, and then it is an entity. -/
theorem Spells.eq_entityText {p before after : List Char} {c : Char} (hp : Spells p c)
    (h : p = before ++ '&' :: after) : before = [] ∧ ∃ e ∈ entityNames, p = entityText e.1 := by
  cases hp with
  | plain _ hentity =>
    have hmem : '&' ∈ [c] := h ▸ List.mem_append_cons_self
    exact absurd (List.mem_singleton.1 hmem).symm hentity
  | @entity name _ he =>
    cases before with
    | nil => exact ⟨rfl, (name, c), he, rfl⟩
    | cons first before =>
      -- behind its first character an entity has no ampersand
      have hletters : ∀ e ∈ entityNames, '&' ∉ e.1.toList ++ [';'] := by decide
      have hinner : name.toList ++ [';'] = before ++ '&' :: after := (List.cons.inj h).2
      have hmem : '&' ∈ name.toList ++ [';'] := hinner ▸ List.mem_append_cons_self
      exact absurd hmem (hletters _ he)

theorem decode?_escapeChars (s : List Char) : decode? (escapeChars s) = some s := by
  rw [escapeChars_eq_flatMap]
  induction s with
  | nil => rfl
  | cons c s ih =>
    rw [List.flatMap_cons, (spells_escapeChar c).1.decode?, ih]
    rfl

/-- Every ampersand of an escaped text begins an entity. -/
theorem entity_of_ampersand {s before after : List Char}
    (h : escapeChars s = before ++ '&' :: after) :
    ∃ e ∈ entityNames, entityText e.1 <+: '&' :: after := by
  rw [escapeChars_eq_flatMap] at h
  induction s generalizing before with
  | nil => exact absurd h (by simp)
  | cons c s ih =>
    rw [List.flatMap_cons] at h
    rcases List.append_eq_append_iff.1 h with ⟨more, -, hrest⟩ | ⟨inner, hfirst, hafter⟩
    · exact ih hrest
    · cases inner with
      | nil =>
        have hrest : s.flatMap escapeChar = [] ++ '&' :: after := hafter.symm
        exact ih hrest
      | cons d inner =>
        -- the ampersand is in what spells the first character
        obtain ⟨rfl, -⟩ := List.cons.inj hafter
        obtain ⟨rfl, e, he, hentity⟩ := (spells_escapeChar c).1.eq_entityText hfirst
        refine ⟨e, he, ?_⟩
        rw [← hentity, hfirst]
        exact ⟨_, hafter.symm⟩

/-- The characters that are escaped are gone, but for the ampersands of entities. -/
theorem not_mem_escapeChars {c : Char} (hc : c ∈ entities.map Prod.fst) (hne : c ≠ '&')
    (s : List Char) : c ∉ escapeChars s := by
  have hgone : ∀ e ∈ entities, ∀ f ∈ entities, f.1 ≠ '&' → f.1 ∉ escapeChar e.1 := by decide
  rw [escapeChars_eq_flatMap]
  intro hmem
  obtain ⟨d, -, hd⟩ := List.mem_flatMap.1 hmem
  by_cases hspecial : d ∈ entities.map Prod.fst
  · obtain ⟨e, he, rfl⟩ := List.mem_map.1 hspecial
    obtain ⟨f, hf, rfl⟩ := List.mem_map.1 hc
    exact hgone e he f hf hne hd
  · rw [escapeChar_of_plain hspecial] at hd
    exact hspecial (List.mem_singleton.1 hd ▸ hc)

theorem escape_injective : Function.Injective escape := by
  intro s t h
  have hlists : escapeChars s.toList = escapeChars t.toList := String.ofList_injective h
  have hdecoded : some s.toList = some t.toList := by
    rw [← decode?_escapeChars, hlists, decode?_escapeChars]
  exact String.toList_inj.1 (Option.some.inj hdecoded)

/-- The five replacements of a whole text are one pass, which writes an entity for each character that
has one and keeps the others. So nothing is left of these characters but ampersands that begin
entities, and the text comes back when it is decoded. -/
theorem escape_in_one_pass :
    (∀ e ∈ entityNames, escapeChar e.2 = entityText e.1) ∧
    (∀ c ∉ entityNames.map Prod.snd, escapeChar c = [c]) ∧
    (∀ s : String,
      (escape s).toList = s.toList.flatMap escapeChar ∧
      (∀ c ∈ ['<', '>', '"', '\x27'], c ∉ (escape s).toList) ∧
      (∀ before after, (escape s).toList = before ++ '&' :: after →
        ∃ e ∈ entityNames, entityText e.1 <+: '&' :: after) ∧
      decode? (escape s).toList = some s.toList) ∧
    Function.Injective escape := by
  have hmarks : ∀ c ∈ ['<', '>', '"', '\x27'], c ∈ entities.map Prod.fst ∧ c ≠ '&' := by
    simp [entities]
  refine ⟨by decide, fun c hc => escapeChar_of_plain hc, fun s => ?_, escape_injective⟩
  rw [escape, String.toList_ofList]
  refine ⟨escapeChars_eq_flatMap _, ?_, fun _ _ h => entity_of_ampersand h, decode?_escapeChars _⟩
  intro c hc
  obtain ⟨hspecial, hne⟩ := hmarks c hc
  exact not_mem_escapeChars hspecial hne s.toList

/-- A text that has an entity already. -/
theorem escapedEntity_decoded :
    (escape "&lt; <").toList = "&amp;lt; ".toList ++ '&' :: "lt;".toList ∧
      (∃ e ∈ entityNames, entityText e.1 <+: '&' :: "lt;".toList) ∧
      '<' ∉ (escape "&lt; <").toList ∧ decode? (escape "&lt; <").toList = some "&lt; <".toList := by
  obtain ⟨-, -, hescape, -⟩ := escape_in_one_pass
  obtain ⟨-, hgone, hentity, hdecoded⟩ := hescape "&lt; <"
  have hwritten : (escape "&lt; <").toList = "&amp;lt; ".toList ++ '&' :: "lt;".toList := by decide
  exact ⟨hwritten, hentity _ _ hwritten, hgone '<' (by decide), hdecoded⟩

end Flowchart.Svg
