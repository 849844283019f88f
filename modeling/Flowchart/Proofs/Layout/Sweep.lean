import Flowchart.Proofs.Layout.Layering

/-! While the sweep goes on, a node waits for the links whose source is not laid and for those of
the last node laid that are still to arrive. At most two layers are in the queue, the last one begun
and the one after it; so whichever link of a node arrives last comes from the last layer begun. -/
namespace Flowchart.Layout

/-- The links that arrive when a node is laid are those that leave it. -/
theorem count_targetsOf (links : List (Nat × Nat)) (u v : Nat) :
    (targetsOf links u).count v = linksInto links (· == u) v := by
  rw [targetsOf, List.count_eq_countP, List.countP_map, List.countP_filter]
  rfl

/-- A node laid is waited for no more, but for the links that leave it. -/
theorem linksInto_putAt {links : List (Nat × Nat)} {layers : List (List Nat)} {u k : Nat}
    (hu : u ∉ layers.flatten) (v : Nat) :
    linksInto links (fun w => !layers.flatten.contains w) v =
      linksInto links (fun w => !(putAt u k layers).flatten.contains w) v +
        (targetsOf links u).count v := by
  rw [count_targetsOf, ← linksInto_or]
  · congr 1
    funext w
    rw [contains_flatten_putAt]
    by_cases hw : w = u
    · subst hw
      simpa using hu
    · rw [beq_false_of_ne hw, Bool.false_or, Bool.or_false]
  · intro w hw
    rw [contains_flatten_putAt, Bool.not_or, Bool.and_eq_true] at hw
    simpa using hw.1

namespace Sweep

section

variable {layer : Nat} {s : Sweep} {target : Nat}

@[simp] theorem layers_arrive : (s.arrive layer target).layers = s.layers := by
  unfold arrive
  split <;> rfl

@[simp] theorem laid_arrive : (s.arrive layer target).laid = s.laid :=
  laid_foldl_arrive layer [target] s

theorem getElem?_counts_arrive (v : Nat) :
    (s.arrive layer target).counts[v]? =
      s.counts[v]?.map fun n => if v = target then n - 1 else n := by
  unfold arrive
  split
  · next n h =>
    by_cases hv : v = target
    · subst hv
      obtain ⟨hlt, hget⟩ := List.getElem?_eq_some_iff.1 h
      simp [hlt, hget]
    · simp [hv, List.getElem?_set_ne (Ne.symm hv)]
  · next h =>
    by_cases hv : v = target
    · subst hv
      simp [h]
    · simp [hv]

theorem length_counts_arrive : (s.arrive layer target).counts.length = s.counts.length := by
  unfold arrive
  split
  · exact List.length_set
  · rfl

/-- Only the last edge that a node waits for brings it into the queue. -/
theorem queue_arrive {n : Nat} (h : s.counts[target]? = some (n + 1)) :
    (s.arrive layer target).queue = s.queue ++ if n = 0 then [(target, layer)] else [] := by
  by_cases hn : n = 0 <;> simp [arrive, h, hn]

end

/-- The queue holds the nodes that are to be laid and wait for nothing, each with its depth. It is
sorted by layers, and these are the last one begun and the one after it. -/
structure Lined (links : List (Nat × Nat)) (count : Nat) (s : Sweep) : Prop where
  nodup : (s.queue.map (·.1)).Nodup
  mem_queue : ∀ v, v ∈ s.queue.map (·.1) ↔
    v < count ∧ v ∉ s.layers.flatten ∧ s.counts[v]? = some 0
  depth : ∀ e ∈ s.queue, IsDepth (Linked links) e.1 e.2
  sorted : s.queue.Pairwise fun e f => e.2 ≤ f.2
  near : ∀ e ∈ s.queue, e.2 ≤ s.layers.length ∧ s.layers.length ≤ e.2 + 1

/-- The sweep while the links to `pending` are still to arrive from the last node laid: every node
waits for these and for the links from nodes that are not laid. -/
structure Going (links : List (Nat × Nat)) (count : Nat) (pending : List Nat) (s : Sweep) : Prop where
  layered : Layered links count s.layers
  lined : s.Lined links count
  laid_eq : ∀ v < count, s.laid[v]? = some (s.layers.flatten.contains v)
  length_counts : s.counts.length = count
  counts_eq : ∀ v < count, s.counts[v]? =
    some (linksInto links (fun u => !s.layers.flatten.contains u) v + pending.count v)
  next : ∀ t ∈ pending, t ∉ s.layers.flatten ∧ WalkTo (Linked links) s.layers.length t

section

variable {links : List (Nat × Nat)} {count : Nat} {pending : List Nat} {s : Sweep} {v t : Nat}

/-- A link arrives that is not the last one. -/
theorem Lined.wait {layer n : Nat} (h : s.Lined links count)
    (hwait : s.counts[t]? = some (n + 2)) : (s.arrive layer t).Lined links count := by
  have hqueue : (s.arrive layer t).queue = s.queue := by simp [queue_arrive hwait]
  constructor
  case nodup => exact hqueue ▸ h.nodup
  case depth => exact hqueue ▸ h.depth
  case sorted => exact hqueue ▸ h.sorted
  case near => simpa [hqueue] using h.near
  case mem_queue =>
    intro v
    rw [hqueue, h.mem_queue v, layers_arrive, getElem?_counts_arrive]
    by_cases hv : v = t
    · subst hv
      simp [hwait]
    · simp [hv]

/-- The last link arrives: the node joins the queue at the end, for the layer after all begun. -/
theorem Lined.join (h : s.Lined links count) (hlt : t < count) (hnew : t ∉ s.layers.flatten)
    (hlast : s.counts[t]? = some 1) (hdepth : IsDepth (Linked links) t s.layers.length) :
    (s.arrive s.layers.length t).Lined links count := by
  have hqueue : (s.arrive s.layers.length t).queue = s.queue ++ [(t, s.layers.length)] := by
    simp [queue_arrive hlast]
  -- a queued node waits for no link, and this one still waited for its last
  have hout : t ∉ s.queue.map (·.1) := by
    intro hmem
    have hzero := ((h.mem_queue t).1 hmem).2.2
    simp [hlast] at hzero
  constructor
  case nodup =>
    rw [hqueue, List.map_append, List.map_singleton]
    refine List.nodup_append.2 ⟨h.nodup, List.nodup_singleton t, ?_⟩
    intro a ha b hb hab
    rw [hab, List.mem_singleton.1 hb] at ha
    exact hout ha
  case mem_queue =>
    intro v
    rw [hqueue, List.map_append, List.map_singleton, List.mem_append, List.mem_singleton,
      h.mem_queue v, layers_arrive, getElem?_counts_arrive]
    by_cases hv : v = t
    · subst hv
      simp [hlt, hnew, hlast]
    · simp [hv]
  case depth =>
    intro e he
    rw [hqueue, List.mem_append, List.mem_singleton] at he
    rcases he with he | rfl
    · exact h.depth e he
    · exact hdepth
  case sorted =>
    rw [hqueue]
    refine List.pairwise_append.2 ⟨h.sorted, List.pairwise_singleton _ _, ?_⟩
    intro e he f hf
    rw [List.mem_singleton.1 hf]
    exact (h.near e he).1
  case near =>
    intro e he
    rw [hqueue, List.mem_append, List.mem_singleton] at he
    rw [layers_arrive]
    rcases he with he | rfl
    · exact h.near e he
    · exact ⟨Nat.le_refl _, Nat.le_succ _⟩

/-- One arrival: the first pending link is no longer pending. -/
theorem Going.arrive {ts : List Nat} (h : Going links count (t :: ts) s) :
    Going links count ts (s.arrive s.layers.length t) := by
  obtain ⟨hnew, hwalk⟩ := h.next t List.mem_cons_self
  have hcounts : ∀ v < count, (s.arrive s.layers.length t).counts[v]? =
      some (linksInto links (fun u => !s.layers.flatten.contains u) v + ts.count v) := by
    intro v hv
    rw [getElem?_counts_arrive, h.counts_eq v hv, Option.map_some]
    by_cases hvt : v = t
    · subst hvt
      rw [if_pos rfl, List.count_cons_self]
      congr 1
    · rw [if_neg hvt, List.count_cons_of_ne (Ne.symm hvt)]
  have hlined : (s.arrive s.layers.length t).Lined links count := by
    by_cases ht : t < count
    · have hwait := h.counts_eq t ht
      rw [List.count_cons_self, ← Nat.add_assoc] at hwait
      -- the link is the last one when all sources are laid and nothing else is pending
      cases hrest : linksInto links (fun u => !s.layers.flatten.contains u) t + ts.count t with
      | zero =>
        rw [hrest] at hwait
        have hsources := sources_laid (Nat.eq_zero_of_add_eq_zero_right hrest)
        exact h.lined.join ht hnew hwait (h.layered.isDepth_length hsources hwalk)
      | succ n =>
        rw [hrest] at hwait
        exact h.lined.wait hwait
    · have hnone : s.counts[t]? = none :=
        List.getElem?_eq_none (h.length_counts.trans_le (Nat.le_of_not_lt ht))
      have hsame : s.arrive s.layers.length t = s := by simp only [Sweep.arrive, hnone]
      exact hsame.symm ▸ h.lined
  constructor
  case layered => simpa using h.layered
  case lined => exact hlined
  case laid_eq => simpa using h.laid_eq
  case length_counts => exact length_counts_arrive.trans h.length_counts
  case counts_eq => simpa using hcounts
  case next => simpa using fun u hu => h.next u (List.mem_cons_of_mem t hu)

theorem Going.arrive_all (h : Going links count pending s) :
    Going links count [] (pending.foldl (Sweep.arrive s.layers.length) s) := by
  induction pending generalizing s with
  | nil => exact h
  | cons t ts ih =>
    have hrest := ih h.arrive
    rwa [layers_arrive] at hrest

variable {front : Nat × Nat} {rest : List (Nat × Nat)}

/-- The node at the front of the queue leaves it and is laid. -/
theorem Going.put (h : Going links count [] s) (hqueue : s.queue = front :: rest) :
    Going links count (targetsOf links front.1)
      { s with
        queue := rest
        laid := s.laid.set front.1 true
        layers := putAt front.1 front.2 s.layers } := by
  obtain ⟨v, k⟩ := front
  have hfront : (v, k) ∈ s.queue := by simp [hqueue]
  obtain ⟨hlt, hnew, hzero⟩ := (h.lined.mem_queue v).1 (List.mem_map_of_mem hfront)
  obtain ⟨hle, hge⟩ := h.lined.near _ hfront
  have hdepth := h.lined.depth _ hfront
  have hsources : ∀ u, (u, v) ∈ links → u ∈ s.layers.flatten := by
    rw [h.counts_eq v hlt, Option.some.injEq] at hzero
    exact sources_laid (Nat.eq_zero_of_add_eq_zero_right hzero)
  have hlength : (putAt v k s.layers).length = k + 1 := by
    rw [length_putAt]
    omega
  have hnodup := h.lined.nodup
  have hsorted := h.lined.sorted
  rw [hqueue] at hnodup hsorted
  constructor
  case layered => exact h.layered.put hle hlt hnew hdepth hsources
  case laid_eq =>
    intro w hw
    rw [contains_flatten_putAt]
    by_cases hwv : w = v
    · subst hwv
      have hlen := (List.getElem?_eq_some_iff.1 (h.laid_eq w hlt)).1
      simp [hlen]
    · rw [List.getElem?_set_ne (Ne.symm hwv), h.laid_eq w hw, beq_false_of_ne hwv, Bool.false_or]
  case length_counts => exact h.length_counts
  case counts_eq =>
    intro w hw
    rw [h.counts_eq w hw, linksInto_putAt hnew]
    rfl
  case next =>
    intro t ht
    have hlink : (v, t) ∈ links := by
      simpa [targetsOf] using ht
    constructor
    · intro hmem
      rcases mem_flatten_putAt.1 hmem with rfl | hmem
      · exact hnew (hsources _ hlink)
      · exact hnew (h.layered.closed v t hlink hmem)
    · exact hlength ▸ hdepth.1.step hlink
  case lined =>
    constructor
    case nodup => exact (List.nodup_cons.1 hnodup).2
    case depth => exact fun e he => h.lined.depth e (hqueue ▸ List.mem_cons_of_mem _ he)
    case sorted => exact (List.pairwise_cons.1 hsorted).2
    case near =>
      intro e he
      have hup := (h.lined.near e (hqueue ▸ List.mem_cons_of_mem _ he)).1
      have hdown := (List.pairwise_cons.1 hsorted).1 e he
      dsimp only at hdown ⊢
      omega
    case mem_queue =>
      intro w
      have hw := h.lined.mem_queue w
      rw [hqueue, List.map_cons, List.mem_cons] at hw
      dsimp only
      rw [mem_flatten_putAt]
      by_cases hwv : w = v
      -- the node laid left the queue, in which it stood once
      · subst hwv
        have hout := (List.nodup_cons.1 hnodup).1
        simpa using hout
      · simpa [hwv] using hw

/-- A step lays the front, in the last layer begun or in the next one, and the links that leave it
arrive. -/
theorem Going.step_eq (h : Going links count [] s) (hqueue : s.queue = front :: rest) :
    { s with queue := rest }.step links front =
      (targetsOf links front.1).foldl (Sweep.arrive (putAt front.1 front.2 s.layers).length)
        { s with
          queue := rest
          laid := s.laid.set front.1 true
          layers := putAt front.1 front.2 s.layers } := by
  have hfront : front ∈ s.queue := by simp [hqueue]
  obtain ⟨hlt, hnew, _⟩ := (h.lined.mem_queue front.1).1 (List.mem_map_of_mem hfront)
  have hlength : (putAt front.1 front.2 s.layers).length = front.2 + 1 := by
    have hnear := h.lined.near front hfront
    rw [length_putAt]
    omega
  have hlaid : s.laid[front.1]? = some false := by
    rw [h.laid_eq _ hlt]
    simpa using hnew
  rw [Sweep.step, if_pos hlaid, lay, hlength]

/-- One step. -/
theorem Going.step (h : Going links count [] s) (hqueue : s.queue = front :: rest) :
    Going links count [] ({ s with queue := rest }.step links front) := by
  rw [h.step_eq hqueue]
  exact (h.put hqueue).arrive_all

theorem Going.stuck (h : Going links count [] s) (hqueue : s.queue = []) :
    Stuck links count s.layers := by
  intro v hlt hv
  have hne : s.counts[v]? ≠ some 0 := by
    intro hzero
    have hmem := (h.lined.mem_queue v).2 ⟨hlt, hv, hzero⟩
    simp [hqueue] at hmem
  rw [h.counts_eq v hlt] at hne
  have hpos : 0 < linksInto links (fun u => !s.layers.flatten.contains u) v :=
    Nat.pos_of_ne_zero fun hzero => hne (congrArg some hzero)
  obtain ⟨u, huv, hu⟩ := linksInto_pos.1 hpos
  exact ⟨u, huv, by simpa using hu⟩

/-- All steps. -/
theorem Going.run (h : Going links count [] s) :
    Layered links count (s.run links) ∧ Stuck links count (s.run links) := by
  fun_induction Sweep.run links s with
  | case1 s hqueue => exact ⟨h.layered, h.stuck hqueue⟩
  | case2 s front rest hqueue ih => exact ih (h.step hqueue)

end

end Sweep

/-- Before the first step every node waits for all links into it. -/
theorem going_firstSweep (links : List (Nat × Nat)) (count : Nat) :
    (firstSweep count links).Going links count [] := by
  have hlayered : Layered links count [] := ⟨List.nodup_nil, by simp, by simp, by simp⟩
  have hcounts : ∀ v < count, (firstSweep count links).counts[v]? =
      some (linksInto links (fun u => !([] : List (List Nat)).flatten.contains u) v) := by
    intro v hv
    simp [firstSweep, indegrees, linksInto, List.getElem?_range hv]
  have hlength : (firstSweep count links).counts.length = count := by simp [firstSweep, indegrees]
  have hnodes : (firstSweep count links).queue.map (·.1) = roots (indegrees count links) := by
    simp [firstSweep, Function.comp_def]
  have hmem : ∀ v, v ∈ (firstSweep count links).queue.map (·.1) ↔
      v < count ∧ v ∉ ([] : List (List Nat)).flatten ∧
        (firstSweep count links).counts[v]? = some 0 := by
    intro v
    rw [hnodes, roots, List.mem_filter, List.mem_range, beq_iff_eq]
    simp [firstSweep, indegrees]
  have hfirst : ∀ e ∈ (firstSweep count links).queue, e.2 = 0 := by
    intro e he
    obtain ⟨v, _, rfl⟩ := List.mem_map.1 he
    rfl
  constructor
  case layered => exact hlayered
  case laid_eq =>
    intro v hv
    simp [firstSweep, hv]
  case length_counts => exact hlength
  case counts_eq => exact hcounts
  case next => simp
  case lined =>
    constructor
    case nodup => exact hnodes ▸ List.nodup_range.filter _
    case mem_queue => exact hmem
    case depth =>
      intro e he
      obtain ⟨hlt, _, hzero⟩ := (hmem e.1).1 (List.mem_map_of_mem he)
      rw [hcounts e.1 hlt, Option.some.injEq] at hzero
      exact hfirst e he ▸ hlayered.isDepth_length (sources_laid hzero) (.start e.1)
    case sorted =>
      exact List.pairwise_map.2 (List.pairwise_of_forall fun _ _ => Nat.le_refl 0)
    case near =>
      intro e he
      rw [hfirst e he]
      exact ⟨Nat.zero_le _, Nat.zero_le _⟩

/-- The layers of a graph hold its nodes by their depth, and what is in none is stuck. -/
theorem layers_layered (g : Graph) :
    Layered (links g) g.nodes.size (layers g) ∧ Stuck (links g) g.nodes.size (layers g) :=
  (going_firstSweep (links g) g.nodes.size).run

end Flowchart.Layout
