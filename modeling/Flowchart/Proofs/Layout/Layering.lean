import Flowchart.Layout.Layers
import Flowchart.Proofs.Graph.Walk
import Mathlib.Algebra.BigOperators.Group.List.Lemmas

/-! Layers that sort nodes by their depth, the length of the longest walk of links that ends at
them. What is never in a layer has a link from something else that is not, and walks of any length
end there. -/
namespace Flowchart.Layout

def Linked (links : List (Nat × Nat)) (i j : Nat) : Prop := (i, j) ∈ links

def linksInto (links : List (Nat × Nat)) (from? : Nat → Bool) (v : Nat) : Nat :=
  links.countP fun l => l.2 == v && from? l.1

theorem linksInto_pos {links : List (Nat × Nat)} {from? : Nat → Bool} {v : Nat} :
    0 < linksInto links from? v ↔ ∃ u, (u, v) ∈ links ∧ from? u = true := by
  simp only [linksInto, List.countP_pos_iff, Bool.and_eq_true, beq_iff_eq]
  constructor
  · rintro ⟨⟨u, w⟩, hl, rfl, hu⟩
    exact ⟨u, hl, hu⟩
  · rintro ⟨u, hl, hu⟩
    exact ⟨(u, v), hl, rfl, hu⟩

/-- Where no link comes from outside, all sources are inside. -/
theorem sources_laid {links : List (Nat × Nat)} {laid : List Nat} {v : Nat}
    (hzero : linksInto links (fun u => !laid.contains u) v = 0) :
    ∀ u, (u, v) ∈ links → u ∈ laid := by
  intro u huv
  by_contra hu
  have hpos : 0 < linksInto links (fun u => !laid.contains u) v :=
    linksInto_pos.2 ⟨u, huv, by simpa using hu⟩
  omega

/-- Links from two kinds of sources that exclude each other are counted apart. -/
theorem linksInto_or {links : List (Nat × Nat)} {p q : Nat → Bool} {v : Nat}
    (hpq : ∀ u, p u = true → q u = false) :
    linksInto links (fun u => p u || q u) v = linksInto links p v + linksInto links q v := by
  unfold linksInto
  induction links with
  | nil => rfl
  | cons l rest ih =>
    simp only [List.countP_cons, ih]
    by_cases hv : l.2 = v
    · cases hp : p l.1 with
      | false => cases q l.1 <;> simp [hv]; omega
      | true => simp [hv, hpq l.1 hp]; omega
    · simp [hv]

/-- Layers that hold nodes by their depth, with everything that leads into them. -/
structure Layered (links : List (Nat × Nat)) (count : Nat) (layers : List (List Nat)) : Prop where
  nodup : layers.flatten.Nodup
  nonempty : ∀ layer ∈ layers, layer ≠ []
  depth : ∀ k layer, layers[k]? = some layer →
    ∀ v ∈ layer, v < count ∧ IsDepth (Linked links) v k
  closed : ∀ u v, (u, v) ∈ links → v ∈ layers.flatten → u ∈ layers.flatten

/-- What is in no layer has a link from something that is in none. -/
def Stuck (links : List (Nat × Nat)) (count : Nat) (layers : List (List Nat)) : Prop :=
  ∀ v < count, v ∉ layers.flatten → ∃ u, (u, v) ∈ links ∧ u ∉ layers.flatten

section

variable {node : Nat} {k : Nat} {layers : List (List Nat)}

theorem length_putAt : (putAt node k layers).length = max layers.length (k + 1) := by
  induction k generalizing layers with
  | zero => cases layers <;> simp [putAt]
  | succ k ih =>
    rw [putAt, List.length_cons, ih, List.length_tail]
    omega

theorem perm_flatten_putAt : (putAt node k layers).flatten.Perm (node :: layers.flatten) := by
  have hsplit (ls : List (List Nat)) : ls.flatten = ls.headD [] ++ ls.tail.flatten := by
    cases ls <;> rfl
  induction k generalizing layers with
  | zero =>
    calc (putAt node 0 layers).flatten
      _ = layers.headD [] ++ node :: layers.tail.flatten := by simp [putAt]
      List.Perm _ (node :: (layers.headD [] ++ layers.tail.flatten)) := List.perm_middle
      _ = node :: layers.flatten := by rw [hsplit layers]
  | succ k ih =>
    calc (putAt node (k + 1) layers).flatten
      _ = layers.headD [] ++ (putAt node k layers.tail).flatten := rfl
      List.Perm _ (layers.headD [] ++ node :: layers.tail.flatten) := ih.append_left _
      List.Perm _ (node :: (layers.headD [] ++ layers.tail.flatten)) := List.perm_middle
      _ = node :: layers.flatten := by rw [hsplit layers]

theorem mem_flatten_putAt {v : Nat} :
    v ∈ (putAt node k layers).flatten ↔ v = node ∨ v ∈ layers.flatten := by
  rw [perm_flatten_putAt.mem_iff, List.mem_cons]

theorem contains_flatten_putAt (u : Nat) :
    (putAt node k layers).flatten.contains u = (u == node || layers.flatten.contains u) := by
  rw [Bool.eq_iff_iff, List.contains_iff_mem, mem_flatten_putAt, Bool.or_eq_true, beq_iff_eq,
    List.contains_iff_mem]

/-- Where no layer is missing, only one changes, or one is added at the end. -/
theorem getElem?_putAt (hk : k ≤ layers.length) (j : Nat) :
    (putAt node k layers)[j]? =
      if j = k then some (layers[k]?.getD [] ++ [node]) else layers[j]? := by
  induction k generalizing layers j with
  | zero => cases layers <;> cases j <;> simp [putAt]
  | succ k ih =>
    cases layers with
    | nil => simp at hk
    | cons layer rest =>
      have hrest : k ≤ rest.length := Nat.le_of_succ_le_succ hk
      cases j with
      | zero => simp [putAt]
      | succ j => simp [putAt, ih hrest]

/-- A node that goes to the last layer, or to one after it, comes after all nodes. -/
theorem flatten_putAt (hk : k ≤ layers.length) (hlast : layers.length ≤ k + 1) :
    (putAt node k layers).flatten = layers.flatten ++ [node] := by
  induction k generalizing layers with
  | zero =>
    cases layers with
    | nil => rfl
    | cons layer rest =>
      obtain rfl : rest = [] := List.length_eq_zero_iff.1 (by simpa using hlast)
      simp [putAt]
  | succ k ih =>
    cases layers with
    | nil => simp at hk
    | cons layer rest =>
      have hrest : (putAt node k rest).flatten = rest.flatten ++ [node] :=
        ih (Nat.le_of_succ_le_succ hk) (Nat.le_of_succ_le_succ hlast)
      rw [putAt, List.headD_cons, List.tail_cons, List.flatten_cons, hrest, List.flatten_cons,
        List.append_assoc]

end

section

variable {links : List (Nat × Nat)} {count : Nat} {layers : List (List Nat)} {v : Nat}

theorem Layered.exists_depth (h : Layered links count layers) (hv : v ∈ layers.flatten) :
    ∃ k < layers.length, IsDepth (Linked links) v k := by
  obtain ⟨layer, hlayer, hmem⟩ := List.mem_flatten.1 hv
  obtain ⟨k, hk⟩ := List.getElem?_of_mem hlayer
  exact ⟨k, (List.getElem?_eq_some_iff.1 hk).1, (h.depth k layer hk v hmem).2⟩

/-- A node all of whose sources are laid, one of them in the last layer, comes after all layers. -/
theorem Layered.isDepth_length (h : Layered links count layers)
    (hsources : ∀ u, (u, v) ∈ links → u ∈ layers.flatten)
    (hwalk : WalkTo (Linked links) layers.length v) :
    IsDepth (Linked links) v layers.length := by
  refine ⟨hwalk, ?_⟩
  intro n hn
  cases hn with
  | start => exact Nat.zero_le _
  | step walk last =>
    obtain ⟨j, hj, hdepth⟩ := h.exists_depth (hsources _ last)
    exact Nat.lt_of_le_of_lt (hdepth.2 _ walk) hj

/-- A node goes to the layer of its depth, after all its sources. -/
theorem Layered.put (h : Layered links count layers) {k : Nat} (hk : k ≤ layers.length)
    (hlt : v < count) (hnew : v ∉ layers.flatten) (hdepth : IsDepth (Linked links) v k)
    (hsources : ∀ u, (u, v) ∈ links → u ∈ layers.flatten) :
    Layered links count (putAt v k layers) where
  nodup := perm_flatten_putAt.nodup_iff.2 (List.nodup_cons.2 ⟨hnew, h.nodup⟩)
  nonempty := by
    intro layer hlayer
    obtain ⟨j, hj⟩ := List.getElem?_of_mem hlayer
    rw [getElem?_putAt hk] at hj
    split at hj
    · rw [← Option.some.inj hj]
      exact List.append_ne_nil_of_right_ne_nil _ (List.cons_ne_nil v [])
    · exact h.nonempty layer (List.mem_of_getElem? hj)
  depth := by
    intro j layer hlayer w hw
    rw [getElem?_putAt hk] at hlayer
    split at hlayer
    · next hjk =>
      rw [← Option.some.inj hlayer, List.mem_append, List.mem_singleton] at hw
      rcases hw with hw | rfl
      · cases hold : layers[k]? with
        | none => simp [hold] at hw
        | some old =>
          rw [hold] at hw
          exact hjk ▸ h.depth k old hold w hw
      · exact ⟨hlt, hjk ▸ hdepth⟩
    · exact h.depth j layer hlayer w hw
  closed := by
    intro u w huw hw
    rw [mem_flatten_putAt] at hw ⊢
    rcases hw with rfl | hw
    · exact .inr (hsources u huw)
    · exact .inr (h.closed u w huw hw)

end

end Flowchart.Layout
