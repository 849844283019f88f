import Flowchart.Proofs.Source.Grounded

namespace Flowchart

structure Graph.WellFormed (g : Graph) : Prop extends g.Grounded where
  distinct : g.nodes.keys.Nodup
  named : ∀ id ∈ g.nodes.keys, id ≠ ""
  unplaced : ∀ n ∈ g.nodes.values, n.position = none ∧ n.rank = none
  unrouted : ∀ e ∈ g.edges, e.exitPort = none ∧ e.entryPort = none

namespace Source

/-- The graph is well formed, and every identifier with a style of its own is a node. -/
structure State.WellFormed (s : State) : Prop where
  graph : s.graph.WellFormed
  styled : ∀ id ∈ s.nodeStyles.keys, id ∈ s.graph.nodes.keys

theorem exists_of_mem_mapM {α β : Type} {f : α → Option β} {l : List α} {found : List β}
    (h : l.mapM f = some found) : ∀ b ∈ found, ∃ a ∈ l, f a = some b := by
  induction l generalizing found with
  | nil =>
    obtain rfl : [] = found := Option.some.inj h
    exact fun b hb => absurd hb List.not_mem_nil
  | cons a rest ih =>
    rw [List.mapM_cons] at h
    obtain ⟨first, hfirst, h⟩ := Option.bind_eq_some_iff.1 h
    obtain ⟨others, hothers, h⟩ := Option.bind_eq_some_iff.1 h
    obtain rfl := Option.some.inj h
    intro b hb
    rcases List.mem_cons.1 hb with rfl | hb
    · exact ⟨a, List.mem_cons_self, hfirst⟩
    · obtain ⟨a', ha', hb⟩ := ih hothers b hb
      exact ⟨a', List.mem_cons_of_mem a ha', hb⟩

theorem id_ne_of_readRef? {token : List Char} {r : NodeRef} (h : readRef? token = some r) :
    r.id ≠ "" := by
  obtain ⟨base, classes, -, id, wrapper, hbase, hid, -, -⟩ := exists_of_readRef? h
  rw [hid]
  simpa using (readBase?_eq_some hbase).1

/-- A reference of a chain is what a part of the group in one of its tokens refers to. -/
theorem exists_part_of_mem_refs {line : List Char} {c : Chain} (h : readChain? line = some c)
    {r : NodeRef} (hr : r ∈ c.refs) :
    ∃ token links, splitConnectors? line = some (token, links) ∧
      ∃ t ∈ token :: links.map Prod.snd, ∃ part ∈ groupParts (takeLabel t).2,
        readRef? part = some r := by
  have hlinks {early : Option (List Char)} {tokens : List (Connector × List Char)}
      {links : List Link} (h : readLinks? early tokens = some links)
      (hr : r ∈ links.flatMap (·.group)) :
      ∃ t ∈ tokens.map Prod.snd, ∃ part ∈ groupParts (takeLabel t).2, readRef? part = some r := by
    induction tokens generalizing early links with
    | nil =>
      obtain rfl : [] = links := Option.some.inj h
      exact absurd hr List.not_mem_nil
    | cons cut rest ih =>
      rw [readLinks?] at h
      obtain ⟨group, hgroup, h⟩ := Option.bind_eq_some_iff.1 h
      obtain ⟨others, hothers, h⟩ := Option.bind_eq_some_iff.1 h
      obtain rfl := Option.some.inj h
      rw [List.flatMap_cons, List.mem_append] at hr
      rcases hr with hr | hr
      · exact ⟨cut.2, List.mem_cons_self, exists_of_mem_mapM hgroup r hr⟩
      · obtain ⟨t, ht, hpart⟩ := ih hothers hr
        exact ⟨t, List.mem_cons_of_mem _ ht, hpart⟩
  obtain ⟨⟨token, rest⟩, hsplit, h⟩ := Option.bind_eq_some_iff.1 h
  obtain ⟨first, hfirst, h⟩ := Option.bind_eq_some_iff.1 h
  obtain ⟨links, htokens, h⟩ := Option.bind_eq_some_iff.1 h
  obtain rfl := Option.some.inj h
  refine ⟨token, rest, hsplit, ?_⟩
  rcases List.mem_append.1 hr with hr | hr
  · exact ⟨token, List.mem_cons_self, exists_of_mem_mapM hfirst r hr⟩
  · obtain ⟨t, ht, hpart⟩ := hlinks htokens hr
    exact ⟨t, List.mem_cons_of_mem token ht, hpart⟩

theorem id_ne_of_mem_readChain? {line : List Char} {c : Chain} (h : readChain? line = some c) :
    ∀ r ∈ c.refs, r.id ≠ "" := by
  intro r hr
  obtain ⟨_, _, _, _, _, _, _, hpart⟩ := exists_part_of_mem_refs h hr
  exact id_ne_of_readRef? hpart

theorem ne_of_mem_readNames {s : List Char} : ∀ id ∈ readNames s, id ≠ "" := by
  intro id hid
  obtain ⟨item, hitem, rfl⟩ := List.mem_map.1 hid
  have hne : item ≠ [] := by simpa using (List.mem_filter.1 hitem).2
  simpa using hne

/-- A reference is one of a chain, or the node that the statement consists of, or the name alone of
a node that gets a style. -/
theorem mem_nodeRefs_read {s : List Char} {r : NodeRef} (hr : r ∈ (Statement.read s).nodeRefs) :
    (∃ c, readChain? s = some c ∧ r ∈ c.refs) ∨ readNode? s = some r ∨
      ∃ id, id ≠ "" ∧ r = ⟨id, none, none, []⟩ := by
  have hnone {st : Statement} (hr : r ∈ st.nodeRefs) (h : st.nodeRefs = []) : False :=
    absurd (h ▸ hr) List.not_mem_nil
  have hstyle {rest : List Char} (hr : r ∈ (readStyle rest).nodeRefs) :
      ∃ id, id ≠ "" ∧ r = ⟨id, none, none, []⟩ := by
    unfold readStyle at hr
    split at hr
    · exact (hnone hr rfl).elim
    split at hr
    · dsimp only at hr
      split at hr <;> exact (hnone hr rfl).elim
    · obtain ⟨id, hid, rfl⟩ := List.mem_map.1 hr
      exact ⟨id, ne_of_mem_readNames id hid, rfl⟩
  have hassign (rest : List Char) : (readAssignment rest).nodeRefs = [] := by
    unfold readAssignment
    split <;> rfl
  -- every branch but those of a style, a chain and a lone node refers to nothing
  unfold Statement.read at hr
  split at hr
  · exact (hnone hr rfl).elim
  split at hr
  · exact (hnone hr rfl).elim
  split at hr
  · exact (hnone hr rfl).elim
  split at hr
  · split at hr <;> exact (hnone hr rfl).elim
  split at hr
  · exact (hnone hr (hassign _)).elim
  split at hr
  · exact .inr (.inr (hstyle hr))
  split at hr
  · split at hr <;> exact (hnone hr rfl).elim
  split at hr
  · next c hchain => exact .inl ⟨c, hchain, hr⟩
  split at hr
  · next node hnode =>
    obtain rfl := List.mem_singleton.1 hr
    exact .inr (.inl hnode)
  · exact (hnone hr rfl).elim

/-- What a statement refers to has a name. -/
theorem ne_of_mem_refs_read (s : List Char) : ∀ id ∈ (Statement.read s).refs, id ≠ "" := by
  intro id hid
  rw [← Statement.map_id_nodeRefs] at hid
  obtain ⟨r, hr, rfl⟩ := List.mem_map.1 hid
  rcases mem_nodeRefs_read hr with ⟨c, hchain, hr⟩ | hnode | ⟨id, hne, rfl⟩
  · exact id_ne_of_mem_readChain? hchain r hr
  · exact id_ne_of_readRef? (Option.filter_eq_some_iff.1 hnode).1
  · exact hne

namespace State

variable {d : Defaults}

theorem mem_keys_update {ν : Type} {t : Table String ν} {k id : String} {start : ν} {f : ν → ν}
    (h : id ∈ (t.update k start f).keys) : id ∈ t.keys ∨ id = k := by
  by_contra hnot
  obtain ⟨hkeys, hk⟩ := not_or.1 hnot
  refine Table.find?_eq_none_iff.1 ?_ h
  rw [Table.find?_update, if_neg hk]
  exact Table.find?_eq_none_iff.2 hkeys

/-- Properties are put to references of the statement only. -/
theorem mem_keys_nodeStyles_apply {s : State} {st : Statement} {id : String}
    (h : id ∈ (s.apply d st).nodeStyles.keys) : id ∈ s.nodeStyles.keys ∨ id ∈ st.refs := by
  rw [nodeStyles_apply] at h
  cases st with
  | styleNodes ids ps =>
    have hall : ∀ (ids : List String) (t : Table String Properties),
        id ∈ (ids.foldl (fun t a => t.update a .empty (·.insertAll ps)) t).keys →
          id ∈ t.keys ∨ id ∈ ids := by
      intro ids
      induction ids with
      | nil => exact fun t h => .inl h
      | cons a rest ih =>
        intro t h
        rcases ih _ h with h | h
        · rcases mem_keys_update h with h | rfl
          · exact .inl h
          · exact .inr List.mem_cons_self
        · exact .inr (List.mem_cons_of_mem a h)
    exact hall ids s.nodeStyles h
  | header | beginSubgraph | endSubgraph | defineClasses | assignClasses | styleEdges | styleLinks
  | chain | node | nothing => exact .inl h

/-- A statement whose references have names keeps the state well formed. -/
theorem wellFormed_apply {s : State} (h : s.WellFormed) {st : Statement}
    (hst : ∀ id ∈ st.refs, id ≠ "") : (s.apply d st).WellFormed := by
  have hkeys (id : String) : id ∈ (s.apply d st).graph.nodes.keys ↔
      id ∈ s.graph.nodes.keys ∨ id ∈ st.refs := by
    rw [keys_apply, mem_foldl_addKey]
  have hnodes : ∀ e ∈ (s.apply d st).graph.nodes.entries,
      e.2.position = none ∧ e.2.rank = none := by
    refine forall_apply (fun _ _ => ⟨rfl, rfl⟩) (fun e he => ?_) st
    exact h.graph.unplaced e.2 (List.mem_map_of_mem he)
  refine ⟨⟨grounded_apply h.graph.toGrounded st, Table.distinct _, ?_, ?_, ?_⟩, ?_⟩
  · intro id hid
    rcases (hkeys id).1 hid with hid | hid
    · exact h.graph.named id hid
    · exact hst id hid
  · intro n hn
    obtain ⟨e, he, rfl⟩ := List.mem_map.1 hn
    exact hnodes e he
  · intro e he
    rcases unstyled_apply he with ⟨f, hf, hedge⟩ | ⟨a, _, b, _, label, arrowhead, hedge⟩
    · have hexit := congrArg Edge.exitPort hedge
      have hentry := congrArg Edge.entryPort hedge
      change f.exitPort = e.exitPort at hexit
      change f.entryPort = e.entryPort at hentry
      rw [← hexit, ← hentry]
      exact h.graph.unrouted f hf
    · have hexit := congrArg Edge.exitPort hedge
      have hentry := congrArg Edge.entryPort hedge
      exact ⟨hexit, hentry⟩
  · intro id hid
    rw [hkeys]
    rcases mem_keys_nodeStyles_apply hid with hid | hid
    · exact .inl (h.styled id hid)
    · exact .inr hid

/-- The styles at the end of a reading change neither places nor identifiers. -/
theorem wellFormed_finish {s : State} (h : s.WellFormed) : s.finish.WellFormed := by
  refine ⟨grounded_finish h.graph.toGrounded, Table.distinct _, ?_, ?_, h.graph.unrouted⟩
  · rw [keys_finish]
    exact h.graph.named
  · intro n hn
    obtain ⟨e, he, rfl⟩ := List.mem_map.1 hn
    have hmem : (e.1, e.2.unstyled) ∈ unstyledEntries s.graph.nodes :=
      unstyledEntries_finish s ▸ List.mem_map_of_mem he
    obtain ⟨f, hf, hsame⟩ := List.mem_map.1 hmem
    have hnode := congrArg Prod.snd hsame
    have hposition := congrArg Node.position hnode
    have hrank := congrArg Node.rank hnode
    change f.2.position = e.2.position at hposition
    change f.2.rank = e.2.rank at hrank
    rw [← hposition, ← hrank]
    exact h.graph.unplaced f.2 (List.mem_map_of_mem hf)

end State

theorem exists_read_of_mem_saidBy {inNote : Bool} {lines : List (List Char)} {st : Statement}
    (h : st ∈ saidBy inNote lines) : ∃ piece, st = Statement.read piece := by
  induction lines generalizing inNote with
  | nil => exact absurd h List.not_mem_nil
  | cons line rest ih =>
    rcases List.mem_append.1 h with h | h
    · unfold said at h
      dsimp only at h
      -- only the last kind of line says anything
      split at h
      · exact absurd h List.not_mem_nil
      split at h
      · exact absurd h List.not_mem_nil
      split at h
      · exact absurd h List.not_mem_nil
      split at h
      · exact absurd h List.not_mem_nil
      split at h
      · exact absurd h List.not_mem_nil
      · obtain ⟨piece, _, hpiece⟩ := List.mem_map.1 h
        exact ⟨piece, hpiece.symm⟩
    · exact ih h

def stateAfter (d : Defaults) (source : List Char) (count : Nat) : State :=
  ((statementsOf source).take count).foldl (State.apply d) {}

theorem stateAfter_length (d : Defaults) (source : List Char) :
    stateAfter d source (statementsOf source).length = (readLines d source).state := by
  rw [stateAfter, List.take_length, state_readLines]

theorem wellFormed_stateAfter (d : Defaults) (source : List Char) (count : Nat) :
    (stateAfter d source count).WellFormed := by
  refine List.foldlRecOn (motive := State.WellFormed) _ (State.apply d) ?_ ?_
  · exact {
      graph := {
        keyed := fun _ he => absurd he List.not_mem_nil
        ends := fun _ he => absurd he List.not_mem_nil
        distinct := List.nodup_nil
        named := fun _ hid => absurd hid List.not_mem_nil
        unplaced := fun _ hn => absurd hn List.not_mem_nil
        unrouted := fun _ he => absurd he List.not_mem_nil }
      styled := fun _ hid => absurd hid List.not_mem_nil }
  · intro s hs st hst
    obtain ⟨piece, rfl⟩ := exists_read_of_mem_saidBy (List.mem_of_mem_take hst)
    exact State.wellFormed_apply hs (ne_of_mem_refs_read piece)

/-- Under every theme the state is well formed after every statement of a source, and so is the
graph that the reading ends with. -/
theorem reading_wellFormed (t : Theme) (source : String) :
    (∀ count, (stateAfter (.ofTheme t) source.toList count).WellFormed) ∧
      (readWith t source).graph.WellFormed := by
  refine ⟨wellFormed_stateAfter (.ofTheme t) source.toList, ?_⟩
  have hall := wellFormed_stateAfter (.ofTheme t) source.toList (statementsOf source.toList).length
  rw [stateAfter_length] at hall
  exact State.wellFormed_finish hall

end Source
end Flowchart
