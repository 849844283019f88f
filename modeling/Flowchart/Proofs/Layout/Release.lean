import Flowchart.Proofs.Layout.Sweep
import Mathlib.Data.Prod.Lex

/-! Edges arrive in the order in which their sources are laid, and those of one source in the order
of their declaration; this gives every edge a moment. The queue is served in turn, so nodes are laid
in the order of the moments at which they stop waiting. -/
namespace Flowchart.Layout

def Joins (g : Graph) (number source target : Nat) : Prop :=
  ∃ e, g.edges[number]? = some e ∧ g.endpoints? e = some (source, target)

def hasIncoming (g : Graph) (v : Nat) : Bool := g.edges.any fun e => (g.endpoints? e).any (·.2 == v)

/-- A node stops waiting when the last edge into it arrives. A moment is the position of the edge's
source in the order in which nodes are laid, and then the number of the edge. -/
structure ReleasedAt (g : Graph) (order : List Nat) (v : Nat) (moment : Nat ×ₗ Nat) : Prop where
  arrives : ∃ p number u, moment = toLex (p, number) ∧ order[p]? = some u ∧ Joins g number u v
  last : ∀ number u, Joins g number u v → ∃ p, order[p]? = some u ∧ toLex (p, number) ≤ moment

section

variable {g : Graph} {order : List Nat} {v : Nat} {moment : Nat ×ₗ Nat}

/-- Nodes that are laid later do not matter for a node that is released. -/
theorem ReleasedAt.append (h : ReleasedAt g order v moment) (later : List Nat) :
    ReleasedAt g (order ++ later) v moment := by
  have hgrow {p u : Nat} (hp : order[p]? = some u) : (order ++ later)[p]? = some u := by
    rw [List.getElem?_append_left (List.getElem?_eq_some_iff.1 hp).1, hp]
  obtain ⟨p, number, u, hmoment, hp, hjoins⟩ := h.arrives
  refine ⟨⟨p, number, u, hmoment, hgrow hp, hjoins⟩, ?_⟩
  intro number u hjoins
  obtain ⟨p, hp, hle⟩ := h.last number u hjoins
  exact ⟨p, hgrow hp, hle⟩

/-- A node has one moment of release. -/
theorem ReleasedAt.unique (hnodup : order.Nodup) {other : Nat ×ₗ Nat}
    (h : ReleasedAt g order v moment) (h' : ReleasedAt g order v other) : moment = other := by
  have hle {m m' : Nat ×ₗ Nat} (h : ReleasedAt g order v m) (h' : ReleasedAt g order v m') :
      m ≤ m' := by
    obtain ⟨p, number, u, rfl, hp, hjoins⟩ := h.arrives
    obtain ⟨p', hp', hle⟩ := h'.last number u hjoins
    have hpp' : p = p' :=
      (List.getElem?_inj (List.getElem?_eq_some_iff.1 hp).1 hnodup).1 (hp.trans hp'.symm)
    exact hpp' ▸ hle
  exact le_antisymm (hle h h') (hle h' h)

/-- The source of the last edge is laid before the moment is over. -/
theorem ReleasedAt.lt_of_length_le (h : ReleasedAt g order v moment) {p number : Nat}
    (hp : order.length ≤ p) : moment < toLex (p, number) := by
  obtain ⟨q, _, u, rfl, hq, _⟩ := h.arrives
  have hlt := (List.getElem?_eq_some_iff.1 hq).1
  exact Prod.Lex.toLex_lt_toLex.2 (.inl (by dsimp only; omega))

end

def numberedLinks (g : Graph) : List ((Nat × Nat) × Nat) :=
  g.edges.zipIdx.filterMap fun (e, number) => (g.endpoints? e).map (·, number)

def leavingLinks (g : Graph) (u : Nat) : List ((Nat × Nat) × Nat) :=
  (numberedLinks g).filter (·.1.1 == u)

variable {g : Graph}

theorem mem_numberedLinks {number u v : Nat} :
    ((u, v), number) ∈ numberedLinks g ↔ Joins g number u v := by
  simp only [numberedLinks, List.mem_filterMap, Option.map_eq_some_iff, Prod.mk.injEq, Prod.exists,
    List.mem_zipIdx_iff_getElem?, Joins]
  constructor
  · rintro ⟨e, n, he, _, _, hends, ⟨rfl, rfl⟩, rfl⟩
    exact ⟨e, he, hends⟩
  · rintro ⟨e, he, hends⟩
    exact ⟨e, number, he, u, v, hends, ⟨rfl, rfl⟩, rfl⟩

theorem map_numberedLinks (g : Graph) : (numberedLinks g).map (·.1) = links g := by
  have hlink (e : Edge) (number : Nat) :
      ((g.endpoints? e).map (·, number)).map (·.1) = g.endpoints? e := by
    cases g.endpoints? e <;> rfl
  calc (numberedLinks g).map (·.1)
    _ = g.edges.zipIdx.filterMap (g.endpoints? ∘ Prod.fst) := by
      simp only [numberedLinks, List.map_filterMap, hlink, Function.comp_def]
    _ = (g.edges.zipIdx.map Prod.fst).filterMap g.endpoints? := (List.filterMap_map ..).symm
    _ = links g := by rw [List.zipIdx_map_fst, links]

theorem linked_iff {u v : Nat} : Linked (links g) u v ↔ ∃ number, Joins g number u v := by
  rw [Linked, ← map_numberedLinks]
  constructor
  · intro h
    obtain ⟨⟨_, number⟩, hl, rfl⟩ := List.mem_map.1 h
    exact ⟨number, mem_numberedLinks.1 hl⟩
  · rintro ⟨number, hjoins⟩
    exact List.mem_map_of_mem (mem_numberedLinks.2 hjoins)

/-- Numbers grow along the links. -/
theorem numberedLinks_sorted (g : Graph) : (numberedLinks g).Pairwise (·.2 < ·.2) := by
  have hnumbers : g.edges.zipIdx.Pairwise (·.2 < ·.2) := by
    rw [← List.pairwise_map (f := Prod.snd), List.zipIdx_map_snd]
    exact List.pairwise_lt_range'
  refine hnumbers.filterMap _ ?_
  rintro ⟨e, m⟩ ⟨f, n⟩ hmn l hl k hk
  obtain ⟨_, _, rfl⟩ := Option.map_eq_some_iff.1 hl
  obtain ⟨_, _, rfl⟩ := Option.map_eq_some_iff.1 hk
  exact hmn

theorem targetsOf_links (g : Graph) (u : Nat) :
    targetsOf (links g) u = (leavingLinks g u).map (·.1.2) := by
  rw [targetsOf, ← map_numberedLinks, List.filter_map, List.map_map]
  rfl

theorem hasIncoming_iff {v : Nat} : hasIncoming g v = true ↔ ∃ number u, Joins g number u v := by
  simp only [hasIncoming, List.any_eq_true, Option.any_eq_true, beq_iff_eq, Prod.exists, Joins]
  constructor
  · rintro ⟨e, he, u, _, hends, rfl⟩
    obtain ⟨number, hnumber⟩ := List.getElem?_of_mem he
    exact ⟨number, u, e, hnumber, hends⟩
  · rintro ⟨number, u, e, he, hends⟩
    exact ⟨e, List.mem_of_getElem? he, u, v, hends, rfl⟩

/-- The nodes that wait for nothing at first are those without incoming edges. -/
theorem roots_indegrees (g : Graph) : roots (indegrees g.nodes.size (links g)) =
    (List.range g.nodes.size).filter fun v => !hasIncoming g v := by
  have hlength : (indegrees g.nodes.size (links g)).length = g.nodes.size := by simp [indegrees]
  rw [roots, hlength]
  refine List.filter_congr fun v hv => ?_
  rw [Bool.eq_iff_iff, beq_iff_eq, Bool.not_eq_true', ← Bool.not_eq_true, hasIncoming_iff]
  simp only [indegrees, List.getElem?_map, List.getElem?_range (List.mem_range.1 hv),
    Option.map_some, Option.some.injEq, List.countP_eq_zero, beq_iff_eq]
  constructor
  · rintro hnone ⟨number, u, hjoins⟩
    exact hnone (u, v) (linked_iff.2 ⟨number, hjoins⟩) rfl
  · rintro hnone ⟨u, w⟩ hl rfl
    obtain ⟨number, hjoins⟩ := linked_iff.1 hl
    exact hnone ⟨number, u, hjoins⟩

namespace Sweep

/-- The nodes laid, and after them those in the queue, are first the roots and then the released
ones in the order of their moments. The edges to `pending` are still to arrive from the node laid
last, so their moments are yet to come. -/
structure InOrder (g : Graph) (pending : List ((Nat × Nat) × Nat))
    (released : List (Nat × (Nat ×ₗ Nat))) (s : Sweep) : Prop where
  order_eq : s.layers.flatten ++ s.queue.map (·.1) =
    roots (indegrees g.nodes.size (links g)) ++ released.map (·.1)
  releasedAt : ∀ e ∈ released, ReleasedAt g s.layers.flatten e.1 e.2
  increasing : released.Pairwise (·.2 < ·.2)
  pending_later : ∀ e ∈ released, ∀ l ∈ pending, e.2 < toLex (s.layers.flatten.length - 1, l.2)

/-- The moment at which the last edge into a node arrives. -/
theorem releasedAt_of_last {g : Graph} {order : List Nat} {passed rest : List ((Nat × Nat) × Nat)}
    {u t number : Nat} (hlast : order.getLast? = some u)
    (hleaving : leavingLinks g u = passed ++ ((u, t), number) :: rest)
    (hsources : ∀ w, (w, t) ∈ links g → w ∈ order) (hnone : t ∉ rest.map (·.1.2)) :
    ReleasedAt g order t (toLex (order.length - 1, number)) := by
  have hu : order[order.length - 1]? = some u := List.getLast?_eq_getElem? ▸ hlast
  have hmem {l : (Nat × Nat) × Nat} (hl : l ∈ leavingLinks g u) : l ∈ numberedLinks g :=
    (List.mem_filter.1 hl).1
  have hsorted : (leavingLinks g u).Pairwise (·.2 < ·.2) := (numberedLinks_sorted g).filter _
  refine ⟨⟨_, number, u, rfl, hu, mem_numberedLinks.1 (hmem (hleaving ▸ by simp))⟩, ?_⟩
  intro n w hjoins
  have hlink := mem_numberedLinks.2 hjoins
  have hw : w ∈ order := hsources w (linked_iff.2 ⟨n, hjoins⟩)
  obtain ⟨p, hp⟩ := List.getElem?_of_mem hw
  refine ⟨p, hp, Prod.Lex.toLex_le_toLex.2 ?_⟩
  have hlt := (List.getElem?_eq_some_iff.1 hp).1
  by_cases hbefore : p < order.length - 1
  · exact .inl hbefore
  -- an edge of the last node itself: it is the one that arrives or one before it
  have hpe : p = order.length - 1 := by omega
  subst hpe
  obtain rfl := Option.some.inj (hp.symm.trans hu)
  refine .inr ⟨rfl, ?_⟩
  have hleave : ((w, t), n) ∈ leavingLinks g w := List.mem_filter.2 ⟨hlink, by simp⟩
  rw [hleaving, List.mem_append, List.mem_cons] at hleave
  rw [hleaving] at hsorted
  rcases hleave with hpassed | hnow | hrest
  · exact Nat.le_of_lt ((List.pairwise_append.1 hsorted).2.2 _ hpassed _ List.mem_cons_self)
  · exact Nat.le_of_eq (Prod.mk.inj hnow).2
  · exact absurd (List.mem_map_of_mem hrest) hnone

section

variable {u t number : Nat} {passed rest pending : List ((Nat × Nat) × Nat)}
  {released : List (Nat × (Nat ×ₗ Nat))} {s s' : Sweep}

/-- An edge arrives that brings nothing into the queue. -/
theorem InOrder.wait {l : (Nat × Nat) × Nat} (h : InOrder g (l :: rest) released s)
    (hlayers : s'.layers = s.layers) (hqueue : s'.queue = s.queue) :
    InOrder g rest released s' := by
  constructor
  case order_eq => rw [hlayers, hqueue, h.order_eq]
  case releasedAt => exact hlayers ▸ h.releasedAt
  case increasing => exact h.increasing
  case pending_later =>
    rw [hlayers]
    exact fun e he l hl => h.pending_later e he l (List.mem_cons_of_mem _ hl)

/-- The last edge into a node arrives, and the node joins the queue behind all others. -/
theorem InOrder.join (h : InOrder g (((u, t), number) :: rest) released s)
    (hsorted : (((u, t), number) :: rest).Pairwise (·.2 < ·.2))
    (hmoment : ReleasedAt g s.layers.flatten t (toLex (s.layers.flatten.length - 1, number)))
    (hlayers : s'.layers = s.layers) {layer : Nat} (hqueue : s'.queue = s.queue ++ [(t, layer)]) :
    InOrder g rest (released ++ [(t, toLex (s.layers.flatten.length - 1, number))]) s' := by
  constructor
  case order_eq =>
    rw [hlayers, hqueue, List.map_append, List.map_append, ← List.append_assoc, h.order_eq,
      List.append_assoc]
    rfl
  case releasedAt =>
    rw [hlayers, List.forall_mem_append]
    exact ⟨h.releasedAt, List.forall_mem_singleton.2 hmoment⟩
  case increasing =>
    refine List.pairwise_append.2 ⟨h.increasing, List.pairwise_singleton _ _, ?_⟩
    intro e he f hf
    rw [List.mem_singleton.1 hf]
    exact h.pending_later e he _ List.mem_cons_self
  case pending_later =>
    rw [hlayers, List.forall_mem_append]
    refine ⟨fun e he l hl => h.pending_later e he l (List.mem_cons_of_mem _ hl), ?_⟩
    refine List.forall_mem_singleton.2 fun l hl => ?_
    exact Prod.Lex.toLex_lt_toLex.2 (.inr ⟨rfl, (List.pairwise_cons.1 hsorted).1 l hl⟩)

/-- One arrival keeps the order. -/
theorem InOrder.arrive (h : InOrder g (((u, t), number) :: rest) released s)
    (hgoing : s.Going (links g) g.nodes.size (t :: rest.map (·.1.2)))
    (hlast : s.layers.flatten.getLast? = some u)
    (hleaving : leavingLinks g u = passed ++ ((u, t), number) :: rest) :
    ∃ released', InOrder g rest released' (s.arrive s.layers.length t) := by
  by_cases ht : t < g.nodes.size
  · have hcounts := hgoing.counts_eq t ht
    rw [List.count_cons_self, ← Nat.add_assoc] at hcounts
    have hqueue : (s.arrive s.layers.length t).queue = _ := queue_arrive hcounts
    split at hqueue
    · next hzero =>
      have hsources := sources_laid (Nat.eq_zero_of_add_eq_zero_right hzero)
      have hnone : t ∉ rest.map (·.1.2) :=
        List.count_eq_zero.1 (Nat.eq_zero_of_add_eq_zero_left hzero)
      have hsorted : (leavingLinks g u).Pairwise (·.2 < ·.2) := (numberedLinks_sorted g).filter _
      rw [hleaving] at hsorted
      exact ⟨_, h.join (List.pairwise_append.1 hsorted).2.1
        (releasedAt_of_last hlast hleaving hsources hnone) layers_arrive hqueue⟩
    · exact ⟨released, h.wait layers_arrive (hqueue.trans (List.append_nil _))⟩
  · have hnone : s.counts[t]? = none :=
      List.getElem?_eq_none (hgoing.length_counts.trans_le (Nat.le_of_not_lt ht))
    have hsame : s.arrive s.layers.length t = s := by simp only [Sweep.arrive, hnone]
    exact ⟨released, h.wait layers_arrive (congrArg Sweep.queue hsame)⟩

/-- So do all arrivals from the node laid last. -/
theorem InOrder.arrive_all (h : InOrder g pending released s)
    (hgoing : s.Going (links g) g.nodes.size (pending.map (·.1.2)))
    (hlast : s.layers.flatten.getLast? = some u)
    (hleaving : leavingLinks g u = passed ++ pending) :
    ∃ released', InOrder g [] released'
      ((pending.map (·.1.2)).foldl (Sweep.arrive s.layers.length) s) := by
  induction pending generalizing passed released s with
  | nil => exact ⟨released, h⟩
  | cons l rest ih =>
    obtain ⟨⟨w, t⟩, number⟩ := l
    have hmem : ((w, t), number) ∈ leavingLinks g u := hleaving ▸ by simp
    obtain rfl : w = u := by simpa using (List.mem_filter.1 hmem).2
    obtain ⟨released', hnext⟩ := h.arrive hgoing hlast hleaving
    have hrest := ih hnext hgoing.arrive (by rwa [layers_arrive])
      (hleaving.trans (List.append_cons ..))
    rwa [layers_arrive] at hrest

/-- The node at the front is laid after all others, and its edges are about to arrive. -/
theorem InOrder.put {front : Nat × Nat} {queue : List (Nat × Nat)} (h : InOrder g [] released s)
    (hgoing : s.Going (links g) g.nodes.size []) (hqueue : s.queue = front :: queue) :
    InOrder g (leavingLinks g front.1) released
      { s with
        queue := queue
        laid := s.laid.set front.1 true
        layers := putAt front.1 front.2 s.layers } := by
  obtain ⟨hle, hge⟩ := hgoing.lined.near front (by simp [hqueue])
  have hflatten : (putAt front.1 front.2 s.layers).flatten = s.layers.flatten ++ [front.1] :=
    flatten_putAt hle hge
  constructor
  case order_eq =>
    rw [← h.order_eq, hqueue]
    simp [hflatten]
  case releasedAt =>
    intro e he
    rw [hflatten]
    exact (h.releasedAt e he).append [front.1]
  case increasing => exact h.increasing
  case pending_later =>
    intro e he l _
    refine (h.releasedAt e he).lt_of_length_le ?_
    simp [hflatten]

/-- A step keeps the order. -/
theorem InOrder.step {front : Nat × Nat} {queue : List (Nat × Nat)} (h : InOrder g [] released s)
    (hgoing : s.Going (links g) g.nodes.size []) (hqueue : s.queue = front :: queue) :
    ∃ released', InOrder g [] released' ({ s with queue := queue }.step (links g) front) := by
  obtain ⟨hle, hge⟩ := hgoing.lined.near front (by simp [hqueue])
  have hput := h.put hgoing hqueue
  have hlast : (putAt front.1 front.2 s.layers).flatten.getLast? = some front.1 := by
    rw [flatten_putAt hle hge, List.getLast?_concat]
  have hgone := hgoing.put hqueue
  rw [targetsOf_links] at hgone
  rw [hgoing.step_eq hqueue, targetsOf_links]
  exact hput.arrive_all hgone hlast (List.nil_append _).symm

/-- A whole sweep lays the released nodes after the roots, in the order of their moments. -/
theorem InOrder.run (h : InOrder g [] released s) (hgoing : s.Going (links g) g.nodes.size []) :
    ∃ released' : List (Nat × (Nat ×ₗ Nat)), (s.run (links g)).flatten =
        roots (indegrees g.nodes.size (links g)) ++ released'.map (·.1) ∧
      (∀ e ∈ released', ReleasedAt g (s.run (links g)).flatten e.1 e.2) ∧
      released'.Pairwise (·.2 < ·.2) := by
  fun_induction Sweep.run (links g) s generalizing released with
  | case1 s hqueue =>
    have horder := h.order_eq
    rw [hqueue, List.map_nil, List.append_nil] at horder
    exact ⟨released, horder, h.releasedAt, h.increasing⟩
  | case2 s front queue hqueue ih =>
    obtain ⟨released', hnext⟩ := h.step hgoing hqueue
    exact ih hnext (hgoing.step hqueue)

end

end Sweep

variable (g : Graph)

theorem exists_released : ∃ released : List (Nat × (Nat ×ₗ Nat)),
    (layers g).flatten =
        ((List.range g.nodes.size).filter fun v => !hasIncoming g v) ++ released.map (·.1) ∧
      (∀ e ∈ released, ReleasedAt g (layers g).flatten e.1 e.2) ∧
      released.Pairwise (·.2 < ·.2) := by
  have hfirst : Sweep.InOrder g [] [] (firstSweep g.nodes.size (links g)) := by
    constructor
    case order_eq => simp [firstSweep, Function.comp_def]
    case releasedAt => exact fun e he => absurd he List.not_mem_nil
    case increasing => exact .nil
    case pending_later => exact fun e he => absurd he List.not_mem_nil
  rw [← roots_indegrees]
  exact hfirst.run (going_firstSweep (links g) g.nodes.size)

variable {g} {k v : Nat} {layer : List Nat}

/-- Edges lead into the nodes of all layers but the first one. -/
theorem hasIncoming_iff_of_mem_layer (hlayer : (layers g)[k]? = some layer) (hv : v ∈ layer) :
    hasIncoming g v = true ↔ k ≠ 0 := by
  have hdepth := ((layers_layered g).1.depth k layer hlayer v hv).2
  rw [hasIncoming_iff]
  constructor
  · rintro ⟨number, u, hjoins⟩ rfl
    have hwalk := hdepth.2 _ ((WalkTo.start u).step (linked_iff.2 ⟨number, hjoins⟩))
    omega
  · intro hk
    obtain ⟨n, rfl⟩ := Nat.exists_eq_succ_of_ne_zero hk
    cases hdepth.1 with
    | step _ hstep =>
      obtain ⟨number, hjoins⟩ := linked_iff.1 hstep
      exact ⟨number, _, hjoins⟩

/-- Two ways to divide a list in front of its elements of some kind are one. -/
theorem append_eq_append_of_kind {α : Type} {p : α → Bool} {before after before' after' : List α}
    (h : before ++ after = before' ++ after') (hbefore : ∀ a ∈ before, p a = false)
    (hafter : ∀ a ∈ after, p a = true) (hbefore' : ∀ a ∈ before', p a = false)
    (hafter' : ∀ a ∈ after', p a = true) : before = before' ∧ after = after' := by
  have hkept {before after : List α} (hbefore : ∀ a ∈ before, p a = false)
      (hafter : ∀ a ∈ after, p a = true) : (before ++ after).filter (!p ·) = before := by
    rw [List.filter_append, List.filter_eq_self.2 (by simpa using hbefore),
      List.filter_eq_nil_iff.2 (by simpa using hafter), List.append_nil]
  have hfirst : before = before' := by
    rw [← hkept hbefore hafter, h, hkept hbefore' hafter']
  exact ⟨hfirst, List.append_cancel_left (hfirst ▸ h)⟩

/-- The released nodes are those behind the first layer. -/
theorem exists_released_tail (g : Graph) : ∃ released : List (Nat × (Nat ×ₗ Nat)),
    (layers g).headD [] = ((List.range g.nodes.size).filter fun v => !hasIncoming g v) ∧
      (layers g).tail.flatten = released.map (·.1) ∧
      (∀ e ∈ released, ReleasedAt g (layers g).flatten e.1 e.2) ∧
      released.Pairwise (·.2 < ·.2) := by
  obtain ⟨released, horder, hreleased, hincreasing⟩ := exists_released g
  have hsplit : (layers g).flatten = (layers g).headD [] ++ (layers g).tail.flatten := by
    cases layers g <;> rfl
  have hhead : ∀ v ∈ (layers g).headD [], hasIncoming g v = false := by
    intro v hv
    have hlayer : (layers g)[0]? = some ((layers g).headD []) := by
      cases hlayers : layers g with
      | nil => simp [hlayers] at hv
      | cons layer rest => rfl
    rw [← Bool.not_eq_true, hasIncoming_iff_of_mem_layer hlayer hv]
    exact fun h => h rfl
  have htail : ∀ v ∈ (layers g).tail.flatten, hasIncoming g v = true := by
    intro v hv
    obtain ⟨layer, hlayer, hmem⟩ := List.mem_flatten.1 hv
    obtain ⟨k, hk⟩ := List.getElem?_of_mem hlayer
    rw [List.getElem?_tail] at hk
    exact (hasIncoming_iff_of_mem_layer hk hmem).2 (Nat.succ_ne_zero k)
  have hroots : ∀ v ∈ (List.range g.nodes.size).filter (fun v => !hasIncoming g v),
      hasIncoming g v = false := fun v hv => by simpa using (List.mem_filter.1 hv).2
  have hlate : ∀ v ∈ released.map (·.1), hasIncoming g v = true := by
    intro v hv
    obtain ⟨e, he, rfl⟩ := List.mem_map.1 hv
    obtain ⟨_, number, u, _, _, hjoins⟩ := (hreleased e he).arrives
    exact hasIncoming_iff.2 ⟨number, u, hjoins⟩
  obtain ⟨hfirst, hrest⟩ :=
    append_eq_append_of_kind (hsplit.symm.trans horder) hhead htail hroots hlate
  exact ⟨released, hfirst, hrest, hreleased, hincreasing⟩

/-- Nodes of one later layer stand in the order of their release. -/
theorem exists_moments_of_layer (hlayer : (layers g)[k + 1]? = some layer) :
    ∃ part : List (Nat × (Nat ×ₗ Nat)), layer = part.map (·.1) ∧
      (∀ e ∈ part, ReleasedAt g (layers g).flatten e.1 e.2) ∧ part.Pairwise (·.2 < ·.2) := by
  obtain ⟨released, _, htail, hreleased, hincreasing⟩ := exists_released_tail g
  have hmem : layer ∈ (layers g).tail := by
    refine List.mem_of_getElem? (i := k) ?_
    rw [List.getElem?_tail, hlayer]
  have hsublist := List.sublist_flatten_of_mem hmem
  rw [htail, List.sublist_map_iff] at hsublist
  obtain ⟨part, hpart, rfl⟩ := hsublist
  exact ⟨part, rfl, fun e he => hreleased e (hpart.subset he), hincreasing.sublist hpart⟩

/-- The first layer lists the nodes without incoming edges as they were inserted. In every other
layer each node has one moment of release, and the nodes stand in the order of these moments. -/
theorem layers_in_order_of_release (g : Graph) :
    (layers g).headD [] = ((List.range g.nodes.size).filter fun v => !hasIncoming g v) ∧
    ∀ k layer, (layers g)[k + 1]? = some layer →
      (∀ v ∈ layer, ∃! moment, ReleasedAt g (layers g).flatten v moment) ∧
      ∀ (i j u v : Nat) (moment moment' : Nat ×ₗ Nat), layer[i]? = some u → layer[j]? = some v →
        ReleasedAt g (layers g).flatten u moment → ReleasedAt g (layers g).flatten v moment' →
        (i < j ↔ moment < moment') := by
  have hnodup := (layers_layered g).1.nodup
  obtain ⟨_, hfirst, _⟩ := exists_released_tail g
  refine ⟨hfirst, fun k layer hlayer => ?_⟩
  obtain ⟨part, rfl, hreleased, hincreasing⟩ := exists_moments_of_layer hlayer
  constructor
  · intro v hv
    obtain ⟨e, he, rfl⟩ := List.mem_map.1 hv
    exact ⟨e.2, hreleased e he, fun other hother => hother.unique hnodup (hreleased e he)⟩
  · intro i j u v moment moment' hi hj hu hv
    -- what is found at a place of the layer stands in `part` with its moment
    have hpart {i u : Nat} {moment : Nat ×ₗ Nat} (hi : (part.map (·.1))[i]? = some u)
        (hu : ReleasedAt g (layers g).flatten u moment) : part[i]? = some (u, moment) := by
      rw [List.getElem?_map] at hi
      obtain ⟨e, he, rfl⟩ := Option.map_eq_some_iff.1 hi
      rw [he, hu.unique hnodup (hreleased e (List.mem_of_getElem? he))]
    have hlt {i j u v : Nat} {moment moment' : Nat ×ₗ Nat} (hi : part[i]? = some (u, moment))
        (hj : part[j]? = some (v, moment')) (hij : i < j) : moment < moment' := by
      obtain ⟨hilt, hi⟩ := List.getElem?_eq_some_iff.1 hi
      obtain ⟨hjlt, hj⟩ := List.getElem?_eq_some_iff.1 hj
      have hpair := List.pairwise_iff_getElem.1 hincreasing i j hilt hjlt hij
      rwa [hi, hj] at hpair
    have hi := hpart hi hu
    have hj := hpart hj hv
    refine ⟨hlt hi hj, fun hmoment => ?_⟩
    rcases lt_trichotomy i j with hij | rfl | hji
    · exact hij
    · have hsame : (u, moment) = (v, moment') := Option.some.inj (hi.symm.trans hj)
      exact absurd (Prod.mk.inj hsame).2 hmoment.ne
    · exact absurd (hlt hj hi hji) hmoment.asymm

def crossedGraph : Graph where
  nodes := ["A", "B", "C", "D"].foldl
    (fun t id => t.insertNew id (.new id id .rectangle none)) .empty
  edges := [("A", "C"), ("A", "D"), ("B", "C")].map fun (a, b) => .new a b none .solid .arrow

/-- The second one is released first, so it is laid first. -/
theorem crossedGraph_order :
    (layers crossedGraph)[1]? = some [3, 2] ∧
    ∃ moment moment', ReleasedAt crossedGraph (layers crossedGraph).flatten 3 moment ∧
      ReleasedAt crossedGraph (layers crossedGraph).flatten 2 moment' ∧ moment < moment' := by
  have hlayer : (layers crossedGraph)[1]? = some [3, 2] := by decide +kernel
  obtain ⟨hmoments, horder⟩ := (layers_in_order_of_release crossedGraph).2 0 [3, 2] hlayer
  obtain ⟨moment, hreleased, _⟩ := hmoments 3 (by simp)
  obtain ⟨moment', hreleased', _⟩ := hmoments 2 (by simp)
  have hbefore := horder 0 1 3 2 moment moment' rfl rfl hreleased hreleased'
  exact ⟨hlayer, moment, moment', hreleased, hreleased', hbefore.1 Nat.zero_lt_one⟩

end Flowchart.Layout
