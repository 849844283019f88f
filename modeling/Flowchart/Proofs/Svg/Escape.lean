import Mathlib.Data.List.Basic
import Flowchart.Color.Basic
import Flowchart.Decimal.Text
import Flowchart.Svg.Markup

/-! The five replacements of a whole text come to one pass over it, since no entity holds a
character that is replaced after the entity is written. -/
namespace Flowchart

theorem Text.replaceAll_singleton (c : Char) (entity s : List Char) :
    replaceAll [c] entity s = s.flatMap fun d => if d = c then entity else [d] := by
  induction s with
  | nil => rfl
  | cons d rest ih =>
    rw [List.flatMap_cons, ← ih]
    by_cases h : d = c
    · subst h
      rw [if_pos rfl]
      exact replaceAll_append (List.cons_ne_nil d []) entity rest
    · have hfirst : ¬ [c] <+: d :: rest :=
        fun hprefix => h (List.cons_prefix_cons.1 hprefix).1.symm
      rw [if_neg h, replaceAll_cons hfirst, List.singleton_append]

namespace Svg

def escapeChar (c : Char) : List Char := (entities.lookup c).getD [c]

def Plain (s : List Char) : Prop := ∀ c ∈ s, c ∉ entities.map Prod.fst

instance : DecidablePred Plain := fun s => List.decidableBAll (· ∉ entities.map Prod.fst) s

theorem escapeChar_of_plain {c : Char} (h : c ∉ entities.map Prod.fst) : escapeChar c = [c] := by
  have hlookup : entities.lookup c = none := by
    apply List.lookup_eq_none_iff.mpr
    intro p hp
    have hne : c ≠ p.1 := fun e => h (e ▸ List.mem_map_of_mem hp)
    simpa using hne
  rw [escapeChar, hlookup, Option.getD_none]

theorem escapeChars_eq_flatMap (s : List Char) : escapeChars s = s.flatMap escapeChar := by
  -- every replacement looks at one character, so the passes can be made on each character alone
  have hpass (passes : List (Char × List Char)) (s : List Char) :
      passes.foldl (fun s p => Text.replaceAll [p.1] p.2 s) s =
        s.flatMap fun c => passes.foldl (fun s p => Text.replaceAll [p.1] p.2 s) [c] := by
    induction passes generalizing s with
    | nil => exact (List.flatMap_singleton' s).symm
    | cons p rest ih =>
      simp only [List.foldl_cons]
      rw [ih, Text.replaceAll_singleton, List.flatMap_assoc]
      refine List.flatMap_congr fun c _ => ?_
      rw [← ih, Text.replaceAll_singleton, List.flatMap_singleton]
  rw [escapeChars, hpass]
  refine List.flatMap_congr fun c _ => ?_
  by_cases hspecial : c ∈ entities.map Prod.fst
  · have hall : ∀ e ∈ entities,
        entities.foldl (fun s p => Text.replaceAll [p.1] p.2 s) [e.1] = escapeChar e.1 := by
      decide
    obtain ⟨e, he, rfl⟩ := List.mem_map.mp hspecial
    exact hall e he
  · rw [escapeChar_of_plain hspecial]
    have hkept (passes : List (Char × List Char)) (h : c ∉ passes.map Prod.fst) :
        passes.foldl (fun s p => Text.replaceAll [p.1] p.2 s) [c] = [c] := by
      induction passes with
      | nil => rfl
      | cons p rest ih =>
        rw [List.map_cons, List.mem_cons, not_or] at h
        obtain ⟨hne, hrest⟩ := h
        rw [List.foldl_cons, Text.replaceAll_singleton, List.flatMap_singleton, if_neg hne]
        exact ih hrest
    exact hkept _ hspecial

theorem escapeChars_of_plain {s : List Char} (h : Plain s) : escapeChars s = s := by
  rw [escapeChars_eq_flatMap]
  calc
    s.flatMap escapeChar = s.flatMap fun c => [c] :=
      List.flatMap_congr fun c hc => escapeChar_of_plain (h c hc)
    _ = s := List.flatMap_singleton' s

def isPrintable (c : Char) : Bool := 0x20 ≤ c.toNat && c.toNat ≤ 0x7E

/-- A text of printable characters in which nothing is escaped. -/
def Inert (s : List Char) : Prop := ∀ c ∈ s, isPrintable c = true ∧ c ∉ entities.map Prod.fst

instance : DecidablePred Inert := fun s =>
  List.decidableBAll (fun c => isPrintable c = true ∧ c ∉ entities.map Prod.fst) s

theorem Inert.plain {s : List Char} (h : Inert s) : Plain s := fun c hc => (h c hc).2

theorem inert_nil : Inert [] := fun _ hc => absurd hc List.not_mem_nil

theorem Inert.append {s t : List Char} (hs : Inert s) (ht : Inert t) : Inert (s ++ t) := by
  intro c hc
  rcases List.mem_append.mp hc with hc | hc
  · exact hs c hc
  · exact ht c hc

theorem Inert.flatMap {α : Type} {l : List α} {f : α → List Char} (h : ∀ a ∈ l, Inert (f a)) :
    Inert (l.flatMap f) := by
  intro c hc
  obtain ⟨a, ha, hc⟩ := List.mem_flatMap.mp hc
  exact h a ha c hc

theorem isPrintable_of_isDigit {c : Char} (h : c.isDigit = true) : isPrintable c = true := by
  have hcode : (decide (c.val ≥ 48) && decide (c.val ≤ 57)) = true := h
  simp only [Bool.and_eq_true, decide_eq_true_eq, ge_iff_le, UInt32.le_iff_toNat_le] at hcode
  obtain ⟨hlow, hhigh⟩ := hcode
  change 48 ≤ c.toNat at hlow
  change c.toNat ≤ 57 at hhigh
  simp only [isPrintable, Bool.and_eq_true, decide_eq_true_eq]
  omega

theorem inert_toDigits (n : Nat) : Inert (Nat.toDigits 10 n) := by
  intro c hc
  have hdigit : c.isDigit = true := Nat.isDigit_of_mem_toDigits (by decide) (by decide) hc
  refine ⟨isPrintable_of_isDigit hdigit, fun hspecial => ?_⟩
  have hnone : ∀ e ∈ entities, e.1.isDigit = false := by decide
  obtain ⟨e, he, rfl⟩ := List.mem_map.mp hspecial
  rw [hnone e he] at hdigit
  exact Bool.false_ne_true hdigit

theorem inert_withSign {negative : Bool} {text : String} (h : Inert text.toList) :
    Inert (Decimal.withSign negative text).toList := by
  have hsign : Inert "-".toList := by decide
  rw [Decimal.withSign]
  split
  · rw [String.toList_append]
    exact hsign.append h
  · exact h

/-- A number with a fixed number of places is inert, and so are the names of what is none. -/
theorem inert_fixedText (places : Nat) (b : Decimal.Binary) :
    Inert (Decimal.fixedText places b).toList := by
  cases b with
  | nan =>
    have hname : Inert "NaN".toList := by decide
    exact hname
  | infinite negative =>
    have hname : Inert "inf".toList := by decide
    exact inert_withSign hname
  | finite negative significand exponent narrowBelow =>
    have hpoint : Inert ".".toList := by decide
    have hzeros (n : Nat) : Inert (Decimal.zeros n).toList := by
      intro c hc
      rw [Decimal.zeros, String.toList_ofList] at hc
      rw [List.eq_of_mem_replicate hc]
      decide
    have hdigits (n : Nat) : Inert (String.ofList (Nat.toDigits 10 n)).toList := by
      rw [String.toList_ofList]
      exact inert_toDigits n
    unfold Decimal.fixedText
    apply inert_withSign
    simp only [String.toList_append]
    exact (((hdigits _).append hpoint).append (hzeros _)).append (hdigits _)

theorem inert_toHex (c : Color) : Inert c.toHex.toList := by
  have hdigit : ∀ n < 16, Inert [Color.hexDigit n] := by decide
  have hchannel (n : UInt8) : Inert (Color.channelText n) := by
    have hlt : n.toNat < 256 := n.toNat_lt
    exact (hdigit (n.toNat / 16) (by omega)).append (hdigit (n.toNat % 16) (by omega))
  have hsign : Inert ['#'] := by decide
  rw [Color.toHex, String.toList_ofList]
  exact ((hsign.append (hchannel c.r)).append (hchannel c.g)).append (hchannel c.b)

end Svg
end Flowchart
