import Flowchart.Proofs.Text.Snug
import Flowchart.Source.Line
import Mathlib.Data.List.Basic

namespace Flowchart.Source

open Text (isBlank trimStart)

def OpensDirective (s : List Char) : Prop :=
  ∃ b₁ b₂ b₃ b₄ body, (∀ c ∈ b₁ ++ b₂ ++ b₃ ++ b₄, isBlank c = true) ∧
    s = "%%\x7b".toList ++ (b₁ ++ ("init".toList ++ (b₂ ++ (":".toList ++
      (b₃ ++ '\x7b' :: (body ++ '\x7d' :: b₄))))))

theorem closesDirective_iff {s : List Char} :
    closesDirective s = true ↔
      ∃ b r, (∀ c ∈ b, isBlank c = true) ∧ s = b ++ ("\x7d%%".toList ++ r) := by
  rw [closesDirective, List.isPrefixOf_iff_prefix]
  constructor
  · rintro ⟨r, hr⟩
    obtain ⟨b, hb, hs⟩ := Text.exists_trimStart s
    exact ⟨b, r, hb, by rw [hr, ← hs]⟩
  · rintro ⟨b, r, hb, rfl⟩
    have hleads : Text.Leads "\x7d%%".toList := ⟨'\x7d', _, rfl, rfl⟩
    rw [Text.trimStart_append hb (hleads.append r)]
    exact List.prefix_append _ r

theorem isSome_payloadBody?_iff {s : List Char} :
    (payloadBody? s).isSome = true ↔ ∃ a b, s = a ++ '\x7d' :: b ∧ closesDirective b = true := by
  induction s with
  | nil => simp [payloadBody?]
  | cons c r ih =>
    -- a brace further on is preferred, so the first character counts only if there is none
    have hstep : (payloadBody? (c :: r)).isSome = true ↔
        (payloadBody? r).isSome = true ∨ c = '\x7d' ∧ closesDirective r = true := by
      rw [payloadBody?]
      cases payloadBody? r with
      | some body => simp
      | none => by_cases h : c = '\x7d' ∧ closesDirective r = true <;> simp [h]
    rw [hstep, ih]
    constructor
    · rintro (⟨a, b, rfl, hb⟩ | ⟨rfl, hr⟩)
      · exact ⟨c :: a, b, rfl, hb⟩
      · exact ⟨[], r, rfl, hr⟩
    · rintro ⟨a, b, hcut, hb⟩
      cases a with
      | nil =>
        obtain ⟨rfl, rfl⟩ := List.cons.inj hcut
        exact .inr ⟨rfl, hb⟩
      | cons d a =>
        obtain ⟨rfl, rfl⟩ := List.cons.inj hcut
        exact .inl ⟨a, b, rfl, hb⟩

theorem exists_of_afterBlanks? {word s r : List Char} (h : afterBlanks? word s = some r) :
    ∃ b, (∀ c ∈ b, isBlank c = true) ∧ s = word ++ (b ++ r) := by
  obtain ⟨t, ht, rfl⟩ := Option.map_eq_some_iff.1 h
  obtain ⟨b, hb, hcut⟩ := Text.exists_trimStart t
  exact ⟨b, hb, by rw [← hcut, List.isPrefixOf?_eq_some_iff_append_eq.1 ht]⟩

theorem afterBlanks?_append {word b t : List Char} (hb : ∀ c ∈ b, isBlank c = true)
    (ht : Text.Leads t) : afterBlanks? word (word ++ (b ++ t)) = some t := by
  rw [afterBlanks?, List.isPrefixOf?_eq_some_iff_append_eq.2 rfl, Option.map_some,
    Text.trimStart_append hb ht]

/-- A line holds a directive with an object exactly when it begins with one. -/
theorem isSome_initPayload?_iff {line : List Char} :
    (initPayload? line).isSome = true ↔
      ∃ opening rest, OpensDirective opening ∧ line = opening ++ ("\x7d%%".toList ++ rest) := by
  constructor
  · intro h
    obtain ⟨payload, hpayload⟩ := Option.isSome_iff_exists.1 h
    obtain ⟨r₁, h₁, hthen⟩ := Option.bind_eq_some_iff.1 hpayload
    obtain ⟨r₂, h₂, hthen⟩ := Option.bind_eq_some_iff.1 hthen
    obtain ⟨r₃, h₃, hobject⟩ := Option.bind_eq_some_iff.1 hthen
    clear h hpayload hthen
    obtain ⟨b₁, hb₁, rfl⟩ := exists_of_afterBlanks? h₁
    obtain ⟨b₂, hb₂, rfl⟩ := exists_of_afterBlanks? h₂
    obtain ⟨b₃, hb₃, rfl⟩ := exists_of_afterBlanks? h₃
    split at hobject
    · next r =>
      obtain ⟨body, hbody, _⟩ := Option.map_eq_some_iff.1 hobject
      obtain ⟨body, s, rfl, hs⟩ := isSome_payloadBody?_iff.1 (Option.isSome_iff_exists.2 ⟨_, hbody⟩)
      obtain ⟨b₄, rest, hb₄, rfl⟩ := closesDirective_iff.1 hs
      refine ⟨_, rest, ⟨b₁, b₂, b₃, b₄, body, ?_, rfl⟩, by simp⟩
      simp only [List.forall_mem_append]
      exact ⟨⟨⟨hb₁, hb₂⟩, hb₃⟩, hb₄⟩
    · exact absurd hobject (by simp)
  · rintro ⟨opening, rest, ⟨b₁, b₂, b₃, b₄, body, hblank, rfl⟩, rfl⟩
    simp only [List.forall_mem_append] at hblank
    obtain ⟨⟨⟨hb₁, hb₂⟩, hb₃⟩, hb₄⟩ := hblank
    have hbody : (payloadBody? (body ++ '\x7d' :: (b₄ ++ ("\x7d%%".toList ++ rest)))).isSome = true :=
      isSome_payloadBody?_iff.2 ⟨body, _, rfl, closesDirective_iff.2 ⟨b₄, rest, hb₄, rfl⟩⟩
    have hinit : Text.Leads "init".toList := ⟨'i', _, rfl, rfl⟩
    have hcolon : Text.Leads ":".toList := ⟨':', _, rfl, rfl⟩
    have hobject : Text.Leads ['\x7b'] := ⟨'\x7b', _, rfl, rfl⟩
    simp only [List.append_assoc, List.cons_append, initPayload?, Option.bind_eq_bind]
    rw [afterBlanks?_append hb₁ (hinit.append _), Option.bind_some,
      afterBlanks?_append hb₂ (hcolon.append _), Option.bind_some, ← List.singleton_append,
      afterBlanks?_append hb₃ (hobject.append _), Option.bind_some]
    simpa using hbody

/-- A text without a closing brace, whose first character is no percent sign, makes no directive of a
line in front of it. -/
theorem initPayload?_append_eq_none {s t : List Char} (hs : initPayload? s = none)
    (hbrace : '\x7d' ∉ t) (hhead : s = [] ∨ t.head? ≠ some '%') : initPayload? (s ++ t) = none := by
  rw [← Option.not_isSome_iff_eq_none, isSome_initPayload?_iff]
  rintro ⟨opening, rest, hopening, hcut⟩
  have hcut : s ++ t = (opening ++ ['\x7d']) ++ '%' :: '%' :: rest := by
    rw [hcut, List.append_assoc]
    rfl
  rcases List.append_eq_append_iff.1 hcut with ⟨a, hbefore, ht⟩ | ⟨a, hline, hafter⟩
  · rcases List.eq_nil_or_concat' a with rfl | ⟨a, c, rfl⟩
    · rcases hhead with rfl | hhead
      · exact absurd hbefore (by simp)
      · exact hhead (by rw [ht]; rfl)
    -- the last brace would be behind the line
    · have hlast := congrArg List.getLast? hbefore
      rw [← List.append_assoc, List.getLast?_concat, List.getLast?_concat] at hlast
      obtain rfl := Option.some.inj hlast
      exact hbrace (by simp [ht])
  -- the percent signs after the brace cannot be divided between the line and what follows it
  · have hne : s ≠ [] := by simp [hline]
    have hhead := hhead.resolve_left hne
    match a, hafter with
    | [], hafter => exact hhead (by rw [← List.nil_append t, ← hafter]; rfl)
    | [c], hafter =>
      rw [List.singleton_append] at hafter
      exact hhead (by rw [← (List.cons.inj hafter).2]; rfl)
    | c :: d :: a, hafter =>
      simp only [List.cons_append, List.cons.injEq] at hafter
      obtain ⟨hc, hd, _⟩ := hafter
      have hsome : (initPayload? s).isSome = true :=
        isSome_initPayload?_iff.2 ⟨opening, a, hopening, by simp [hline, ← hc, ← hd]⟩
      rw [hs] at hsome
      exact absurd hsome (by simp)

end Flowchart.Source
