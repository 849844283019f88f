import Flowchart.Graph.Basic

/-! A node waits for as many edges as lead into it. Nodes that wait for none stand in a queue, each
with the number of its layer. The node at the front is laid and the edges that leave it arrive, in
order of declaration; a node whose last edge arrives joins the queue for the layer after that of the
edge's source. A node on a cycle, or behind one, waits for ever. -/
namespace Flowchart.Layout

def links (g : Graph) : List (Nat × Nat) := g.edges.filterMap g.endpoints?

def targetsOf (links : List (Nat × Nat)) (source : Nat) : List Nat :=
  (links.filter (·.1 == source)).map (·.2)

def indegrees (count : Nat) (links : List (Nat × Nat)) : List Nat :=
  (List.range count).map fun i => links.countP (·.2 == i)

def roots (counts : List Nat) : List Nat :=
  (List.range counts.length).filter fun i => counts[i]? == some 0

/-- Layers with one more node at the end of a layer; layers up to it that are missing are made. -/
def putAt (node : Nat) : Nat → List (List Nat) → List (List Nat)
  | 0, layers => (layers.headD [] ++ [node]) :: layers.tail
  | k + 1, layers => layers.headD [] :: putAt node k layers.tail

structure Sweep where
  counts : List Nat
  queue : List (Nat × Nat)
  laid : List Bool
  layers : List (List Nat)

namespace Sweep

def arrive (layer : Nat) (s : Sweep) (target : Nat) : Sweep :=
  match s.counts[target]? with
  | some n =>
    { s with
      counts := s.counts.set target (n - 1)
      queue := if n - 1 = 0 then s.queue ++ [(target, layer)] else s.queue }
  | none => s

def lay (links : List (Nat × Nat)) (s : Sweep) (node layer : Nat) : Sweep :=
  (targetsOf links node).foldl (arrive (layer + 1))
    { s with laid := s.laid.set node true, layers := putAt node layer s.layers }

/-- What the front of the queue does once it has left it: a node that is laid is passed over. -/
def step (links : List (Nat × Nat)) (s : Sweep) (front : Nat × Nat) : Sweep :=
  if s.laid[front.1]? = some false then s.lay links front.1 front.2 else s

/-- A bound on the nodes still to leave the queue: a node to be laid can bring in as many as there
are edges. -/
def left (links : List (Nat × Nat)) (s : Sweep) : Nat :=
  s.laid.count false * (links.length + 1) + s.queue.length

theorem laid_foldl_arrive (layer : Nat) (targets : List Nat) (s : Sweep) :
    (targets.foldl (arrive layer) s).laid = s.laid := by
  induction targets generalizing s with
  | nil => rfl
  | cons t ts ih =>
    rw [List.foldl_cons, ih, arrive]
    split <;> rfl

theorem length_queue_foldl_arrive (layer : Nat) (targets : List Nat) (s : Sweep) :
    (targets.foldl (arrive layer) s).queue.length ≤ s.queue.length + targets.length := by
  induction targets generalizing s with
  | nil => exact Nat.le_refl _
  | cons t ts ih =>
    have hone : (s.arrive layer t).queue.length ≤ s.queue.length + 1 := by
      unfold arrive
      split
      · dsimp only
        split
        · simp
        · omega
      · omega
    have hrest := ih (s.arrive layer t)
    rw [List.foldl_cons, List.length_cons]
    omega

theorem left_step (links : List (Nat × Nat)) (s : Sweep) (front : Nat × Nat) :
    (s.step links front).left links ≤ s.left links := by
  unfold step
  split
  · next hfront =>
    obtain ⟨hlt, hget⟩ := List.getElem?_eq_some_iff.1 hfront
    have hone : 1 ≤ s.laid.count false := List.count_pos_iff.2 (hget ▸ List.getElem_mem hlt)
    have hfewer : (s.laid.set front.1 true).count false = s.laid.count false - 1 := by
      rw [List.count_set hlt, hget]
      simp
    have hqueue := length_queue_foldl_arrive (front.2 + 1) (targetsOf links front.1)
      { s with laid := s.laid.set front.1 true, layers := putAt front.1 front.2 s.layers }
    have htargets : (targetsOf links front.1).length ≤ links.length := by
      simpa [targetsOf] using List.length_filter_le (·.1 == front.1) links
    obtain ⟨n, hn⟩ := Nat.exists_eq_add_of_le' hone
    rw [left, left, lay, laid_foldl_arrive, hfewer, hn, Nat.add_sub_cancel, Nat.succ_mul]
    dsimp only at hqueue
    omega
  · exact Nat.le_refl _

def run (links : List (Nat × Nat)) (s : Sweep) : List (List Nat) :=
  match _h : s.queue with
  | [] => s.layers
  | front :: rest => run links ({ s with queue := rest }.step links front)
termination_by s.left links
decreasing_by
  have hstep := left_step links { s with queue := rest } front
  simp only [left] at hstep ⊢
  rw [_h, List.length_cons]
  omega

end Sweep

def firstSweep (count : Nat) (links : List (Nat × Nat)) : Sweep where
  counts := indegrees count links
  queue := (roots (indegrees count links)).map fun v => (v, 0)
  laid := List.replicate count false
  layers := []

def layers (g : Graph) : List (List Nat) :=
  (firstSweep g.nodes.size (links g)).run (links g)

end Flowchart.Layout
