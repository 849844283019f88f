import Flowchart.Proofs.Source.Origin
import Mathlib.Algebra.Order.BigOperators.Group.List
import Mathlib.Tactic.Linarith

namespace Flowchart

open scoped List

theorem length_le_length_flatten {α : Type} {pieces : List (List α)}
    (h : ∀ piece ∈ pieces, piece ≠ []) : pieces.length ≤ pieces.flatten.length := by
  rw [List.length_flatten, ← pieces.length_map (f := List.length)]
  refine List.length_le_sum_of_one_le _ fun n hn => ?_
  obtain ⟨piece, hpiece, rfl⟩ := List.mem_map.1 hn
  exact List.length_pos_of_ne_nil (h piece hpiece)

namespace Source

theorem length_pos_of_readRef? {token : List Char} {r : NodeRef} (h : readRef? token = some r) :
    1 ≤ token.length := by
  refine List.length_pos_of_ne_nil ?_
  rintro rfl
  have hnone : readRef? [] = none := rfl
  exact absurd (hnone.symm.trans h) (by simp)

theorem length_le_of_readGroup? {token : List Char} {group : List NodeRef}
    (h : readGroup? token = some group) : group.length ≤ token.length := by
  have hparts (parts : List (List Char)) (group : List NodeRef)
      (h : parts.mapM readRef? = some group) : group.length ≤ parts.flatten.length := by
    induction parts generalizing group with
    | nil =>
      obtain rfl : [] = group := Option.some.inj h
      exact le_rfl
    | cons part rest ih =>
      rw [List.mapM_cons] at h
      obtain ⟨r, hr, h⟩ := Option.bind_eq_some_iff.1 h
      obtain ⟨others, hothers, h⟩ := Option.bind_eq_some_iff.1 h
      obtain rfl := Option.some.inj h
      have hpart := length_pos_of_readRef? hr
      have hrest := ih others hothers
      rw [List.flatten_cons, List.length_append, List.length_cons]
      omega
  exact (hparts _ group h).trans (flatten_groupParts_sublist token).length_le

theorem length_refs_le_of_readLinks? {early : Option (List Char)}
    {tokens : List (Connector × List Char)} {links : List Link}
    (h : readLinks? early tokens = some links) :
    (links.flatMap (·.group)).length ≤ (tokens.flatMap Prod.snd).length := by
  induction tokens generalizing early links with
  | nil =>
    obtain rfl : [] = links := Option.some.inj h
    exact le_rfl
  | cons cut rest ih =>
    obtain ⟨k, token⟩ := cut
    rw [readLinks?] at h
    obtain ⟨group, hgroup, h⟩ := Option.bind_eq_some_iff.1 h
    obtain ⟨others, hothers, h⟩ := Option.bind_eq_some_iff.1 h
    obtain rfl := Option.some.inj h
    have hfirst := (length_le_of_readGroup? hgroup).trans (takeLabel_sublist token).2.length_le
    have hrest := ih hothers
    rw [List.flatMap_cons, List.flatMap_cons, List.length_append, List.length_append]
    exact Nat.add_le_add hfirst hrest

theorem length_refs_le_of_readChain? {line : List Char} {c : Chain} (h : readChain? line = some c) :
    c.refs.length ≤ line.length := by
  obtain ⟨⟨token, cuts⟩, hsplit, h⟩ := Option.bind_eq_some_iff.1 h
  obtain ⟨first, hfirst, h⟩ := Option.bind_eq_some_iff.1 h
  obtain ⟨links, hlinks, h⟩ := Option.bind_eq_some_iff.1 h
  obtain rfl := Option.some.inj h
  refine le_trans ?_ (splitConnectors?_sublist hsplit).length_le
  rw [Chain.refs, List.length_append, List.length_append]
  exact Nat.add_le_add
    ((length_le_of_readGroup? hfirst).trans (takeLabel_sublist token).2.length_le)
    (length_refs_le_of_readLinks? hlinks)

theorem length_refs_readStyle_le (rest : List Char) : (readStyle rest).refs.length ≤ rest.length := by
  unfold readStyle
  split
  · exact Nat.zero_le _
  next target ps hstyled =>
  split
  · dsimp only
    split
    · exact Nat.zero_le _
    · exact Nat.zero_le _
  · have hitems : ∀ item ∈ Text.items ',' target, item ≠ [] := by
      intro item hitem
      have hvisible := (List.mem_filter.1 hitem).2
      rintro rfl
      exact absurd hvisible (by decide)
    change (readNames target).length ≤ rest.length
    rw [readNames, List.length_map]
    exact (length_le_length_flatten hitems).trans
      ((Text.flatten_items_sublist ',' target).trans (readStyled?_sublist hstyled)).length_le

/-- A statement refers to no more nodes than it has characters. -/
theorem length_refs_read_le (s : List Char) : (Statement.read s).refs.length ≤ s.length := by
  unfold Statement.read
  split
  · exact Nat.zero_le _
  split
  · exact Nat.zero_le _
  split
  · exact Nat.zero_le _
  split
  · split
    · exact Nat.zero_le _
    · exact Nat.zero_le _
  split
  · unfold readAssignment
    split
    · exact Nat.zero_le _
    · exact Nat.zero_le _
  split
  · next rest hrest =>
    exact (length_refs_readStyle_le rest).trans (afterKeyword?_sublist hrest).length_le
  split
  · split
    · exact Nat.zero_le _
    · exact Nat.zero_le _
  split
  · next c hchain =>
    rw [Statement.refs, List.length_map]
    exact length_refs_le_of_readChain? hchain
  split
  · next r hnode => exact length_pos_of_readRef? (Option.filter_eq_some_iff.1 hnode).1
  · exact Nat.zero_le _

/-- A source refers to no more nodes than it has characters. -/
theorem length_refs_statementsOf_le (source : List Char) :
    ((statementsOf source).flatMap Statement.refs).length ≤ source.length := by
  obtain ⟨pieces, hpieces, hsub⟩ := exists_pieces_statementsOf source
  refine le_trans ?_ hsub.length_le
  rw [hpieces]
  clear hpieces hsub
  induction pieces with
  | nil => exact le_rfl
  | cons piece rest ih =>
    rw [List.map_cons, List.flatMap_cons, List.length_append, List.flatten_cons, List.length_append]
    exact Nat.add_le_add (length_refs_read_le piece) ih

theorem size_nodes_le (t : Theme) (source : String) :
    (readWith t source).graph.nodes.size ≤ source.length := by
  have hdistinct := (readWith t source).graph.nodes.distinct
  have hsize : (readWith t source).graph.nodes.size =
      (readWith t source).graph.nodes.keys.length := by
    rw [Table.keys, List.length_map]
    rfl
  have hsub : (readWith t source).graph.nodes.keys ⊆
      (statementsOf source.toList).flatMap Statement.refs := by
    rw [keys_readWith]
    exact fun id hid => List.mem_eraseDups.1 hid
  rw [hsize, ← source.length_toList]
  exact (List.Nodup.length_le_of_subset hdistinct hsub).trans (length_refs_statementsOf_le _)

namespace State

variable {d : Defaults}

theorem length_chainEdges_le (styles : Table (String × String) Properties) (sources : List NodeRef)
    (links : List Link) : (chainEdges d styles sources links).length ≤
      (sources ++ links.flatMap (·.group)).length ^ 2 := by
  induction links generalizing sources with
  | nil => exact Nat.zero_le _
  | cons link rest ih =>
    have hlink : (linkEdges d styles sources link).length = sources.length * link.group.length := by
      simp [linkEdges, List.length_flatMap]
    have hrest := ih link.group
    have hgroup : link.group.length ≤ (link.group ++ rest.flatMap (·.group)).length :=
      (List.sublist_append_left _ _).length_le
    rw [chainEdges, List.length_append, hlink, List.flatMap_cons, List.length_append]
    calc sources.length * link.group.length + (chainEdges d styles link.group rest).length
        ≤ sources.length * (link.group ++ rest.flatMap (·.group)).length +
            (link.group ++ rest.flatMap (·.group)).length ^ 2 :=
          Nat.add_le_add (Nat.mul_le_mul_left _ hgroup) hrest
      _ ≤ (sources.length + (link.group ++ rest.flatMap (·.group)).length) ^ 2 := by
          rw [add_sq]
          nlinarith

/-- A statement makes no more edges than there are pairs of its references. -/
theorem length_newEdges_le (s : State) (st : Statement) :
    (newEdges d s st).length ≤ st.refs.length ^ 2 := by
  cases st with
  | chain c =>
    rw [Statement.refs, List.length_map]
    exact length_chainEdges_le s.edgeStyles c.first c.links
  | _ => exact Nat.zero_le _

theorem length_edges_foldl_apply_le (statements : List Statement) (s : State) :
    (statements.foldl (apply d) s).graph.edges.length ≤
      s.graph.edges.length + (statements.flatMap Statement.refs).length ^ 2 := by
  induction statements generalizing s with
  | nil => exact Nat.le_add_right _ _
  | cons st rest ih =>
    have hrest := ih (s.apply d st)
    have hnew := length_newEdges_le (d := d) s st
    rw [length_edges_apply] at hrest
    rw [List.foldl_cons, List.flatMap_cons, List.length_append, add_sq]
    linarith [Nat.zero_le (2 * st.refs.length * (rest.flatMap Statement.refs).length)]

end State

theorem length_edges_le (t : Theme) (source : String) :
    (readWith t source).graph.edges.length ≤ source.length ^ 2 := by
  rw [graph_readWith, ← source.length_toList]
  refine (State.length_edges_foldl_apply_le (statementsOf source.toList) {}).trans ?_
  rw [List.length_nil, zero_add]
  exact Nat.pow_le_pow_left (length_refs_statementsOf_le _) 2

end Source
end Flowchart
