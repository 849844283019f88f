import Mathlib.Data.List.Chain
import Mathlib.Data.List.Nodup
import Mathlib.Logic.Relation

/-! A point that a cycle reaches is the end of walks of any length; where only finitely many points
have a step to make, a long walk conversely shows a cycle behind its end. -/
namespace Flowchart

open Relation

variable {α β : Type} {r : α → α → Prop} {s : β → β → Prop}

inductive WalkTo (r : α → α → Prop) : Nat → α → Prop
  | start (a : α) : WalkTo r 0 a
  | step {n : Nat} {a b : α} (walk : WalkTo r n a) (last : r a b) : WalkTo r (n + 1) b

/-- A cycle reaches the point: there is a walk to it, perhaps of no step, from a point on a cycle. -/
def BehindCycle (r : α → α → Prop) (b : α) : Prop :=
  ∃ a, TransGen r a a ∧ ReflTransGen r a b

/-- The longest walk that ends at a point has so many steps. -/
def IsDepth (r : α → α → Prop) (b : α) (k : Nat) : Prop :=
  WalkTo r k b ∧ ∀ n, WalkTo r n b → n ≤ k

namespace WalkTo

theorem exists_path {n : Nat} {b : α} (h : WalkTo r n b) :
    ∃ p : List α, p.IsChain r ∧ p.getLast? = some b ∧ p.length = n + 1 := by
  induction h with
  | start a => exact ⟨[a], List.isChain_singleton a, rfl, rfl⟩
  | @step n a b _ hab ih =>
    obtain ⟨p, hchain, hlast, hlen⟩ := ih
    refine ⟨p ++ [b], ?_, by simp, by simp [hlen]⟩
    apply hchain.append (List.isChain_singleton b)
    intro x hx y hy
    have hxa : a = x := Option.some.inj (hlast.symm.trans hx)
    have hyb : b = y := Option.some.inj hy
    exact hxa ▸ hyb ▸ hab

theorem of_path {p : List α} {b : α} (hchain : p.IsChain r) (hlast : p.getLast? = some b) :
    WalkTo r (p.length - 1) b := by
  induction p using List.reverseRecOn generalizing b with
  | nil => simp at hlast
  | append_singleton p x ih =>
    have hxb : x = b := by simpa using hlast
    subst hxb
    rcases p.eq_nil_or_concat with rfl | ⟨q, a, rfl⟩
    · exact .start x
    · obtain ⟨hq, _, hstep⟩ := List.isChain_append.1 hchain
      have hax : r a x := hstep a (by simp) x (by simp)
      have hwalk := (ih hq (b := a) (by simp)).step hax
      simpa using hwalk

theorem trans_gen {n : Nat} {a b : α} (h : WalkTo r n a) (hab : TransGen r a b) :
    ∃ m, n < m ∧ WalkTo r m b := by
  induction hab with
  | single hab => exact ⟨n + 1, by omega, h.step hab⟩
  | tail _ hbc ih =>
    obtain ⟨m, hm, hwalk⟩ := ih
    exact ⟨m + 1, by omega, hwalk.step hbc⟩

/-- A walk is followed step by step, from its end, in a relation that answers every step. -/
theorem simulate (name : α → β → Prop)
    (hsim : ∀ a b y, r a b → name b y → ∃ x, name a x ∧ s x y) {n : Nat} {b : α} {y : β}
    (h : WalkTo r n b) (hname : name b y) : WalkTo s n y := by
  induction h generalizing y with
  | start => exact .start y
  | step _ hab ih =>
    obtain ⟨x, hx, hxy⟩ := hsim _ _ _ hab hname
    exact (ih hx).step hxy

end WalkTo

/-- Every point of a path is its end or has a walk to it. -/
theorem path_reaches_last {p : List α} {b : α} (hchain : p.IsChain r)
    (hlast : p.getLast? = some b) : ∀ a ∈ p, ReflTransGen r a b := by
  intro a ha
  obtain ⟨q, rfl⟩ := List.getLast?_eq_some_iff.1 hlast
  have hpair : (q ++ [b]).Pairwise (TransGen r) :=
    (hchain.imp fun _ _ h => TransGen.single h).pairwise
  rcases List.mem_append.1 ha with ha | ha
  · exact ((List.pairwise_append.1 hpair).2.2 a ha b (by simp)).to_reflTransGen
  · exact List.mem_singleton.1 ha ▸ ReflTransGen.refl

/-- A path that repeats a point goes round a cycle. -/
theorem cycle_of_repeat {p : List α} (hchain : p.IsChain r) (hdup : ¬ p.Nodup) :
    ∃ a ∈ p, TransGen r a a := by
  by_contra hnone
  have hpair : p.Pairwise (TransGen r) := (hchain.imp fun _ _ h => TransGen.single h).pairwise
  apply hdup
  refine hpair.imp_of_mem ?_
  intro a b ha _ hab heq
  exact hnone ⟨a, ha, heq ▸ hab⟩

theorem BehindCycle.exists_longer {b : α} (h : BehindCycle r b) (n : Nat) :
    ∃ m, n < m ∧ WalkTo r m b := by
  obtain ⟨a, hcycle, hreach⟩ := h
  have hround : ∃ m, n < m ∧ WalkTo r m a := by
    induction n with
    | zero => exact (WalkTo.start a).trans_gen hcycle
    | succ n ih =>
      obtain ⟨m, hm, hwalk⟩ := ih
      obtain ⟨l, hl, hlonger⟩ := hwalk.trans_gen hcycle
      exact ⟨l, by omega, hlonger⟩
  obtain ⟨m, hm, hwalk⟩ := hround
  rcases reflTransGen_iff_eq_or_transGen.1 hreach with rfl | htrans
  · exact ⟨m, hm, hwalk⟩
  · obtain ⟨l, hl, hlonger⟩ := hwalk.trans_gen htrans
    exact ⟨l, by omega, hlonger⟩

theorem IsDepth.not_behindCycle {b : α} {k : Nat} (h : IsDepth r b k) : ¬ BehindCycle r b := by
  intro hcycle
  obtain ⟨m, hm, hwalk⟩ := hcycle.exists_longer k
  exact absurd (h.2 m hwalk) (by omega)

theorem IsDepth.unique {b : α} {k l : Nat} (hk : IsDepth r b k) (hl : IsDepth r b l) : k = l :=
  Nat.le_antisymm (hl.2 k hk.1) (hk.2 l hl.1)

/-- The pigeonhole: a walk with more steps than there are points to step from goes round a cycle. -/
theorem behindCycle_of_long_walk (points : List α) (hpoints : ∀ a b, r a b → a ∈ points)
    {b : α} {n : Nat} (hn : points.length < n) (h : WalkTo r n b) : BehindCycle r b := by
  obtain ⟨p, hchain, hlast, hlen⟩ := h.exists_path
  have hreach := path_reaches_last hchain hlast
  obtain ⟨q, rfl⟩ := List.getLast?_eq_some_iff.1 hlast
  have hq : q.IsChain r := (List.isChain_append.1 hchain).1
  have hsub : q ⊆ points := by
    intro a ha
    have hpair : (q ++ [b]).Pairwise (TransGen r) :=
      (hchain.imp fun _ _ h => TransGen.single h).pairwise
    have hab : TransGen r a b := (List.pairwise_append.1 hpair).2.2 a ha b (by simp)
    obtain ⟨c, hac, _⟩ := TransGen.head'_iff.1 hab
    exact hpoints a c hac
  have hdup : ¬ q.Nodup := by
    intro hnodup
    have hle : q.length ≤ points.length := List.Nodup.length_le_of_subset hnodup hsub
    simp only [List.length_append, List.length_singleton] at hlen
    omega
  obtain ⟨a, ha, hcycle⟩ := cycle_of_repeat hq hdup
  exact ⟨a, hcycle, hreach a (List.mem_append_left _ ha)⟩

/-- The longest walk repeats no point. -/
theorem IsDepth.exists_simple_path {b : α} {k : Nat} (h : IsDepth r b k) :
    ∃ p : List α, p.IsChain r ∧ p.getLast? = some b ∧ p.length = k + 1 ∧ p.Nodup := by
  obtain ⟨p, hchain, hlast, hlen⟩ := h.1.exists_path
  refine ⟨p, hchain, hlast, hlen, ?_⟩
  by_contra hdup
  obtain ⟨a, ha, hcycle⟩ := cycle_of_repeat hchain hdup
  exact h.not_behindCycle ⟨a, hcycle, path_reaches_last hchain hlast a ha⟩

end Flowchart
