import Flowchart.Proofs.Source.Growth

namespace Flowchart.Source

theorem isSome_mapM {α β : Type} {f : α → Option β} {l : List α} :
    (l.mapM f).isSome = true ↔ ∀ a ∈ l, (f a).isSome = true := by
  induction l with
  | nil => exact ⟨fun _ a ha => absurd ha List.not_mem_nil, fun _ => rfl⟩
  | cons a rest ih =>
    rw [List.mapM_cons, List.forall_mem_cons, ← ih]
    cases f a with
    | none => simp
    | some b => cases rest.mapM f <;> simp

/-- What stands between the connectors and ampersands of a text, without the labels. -/
def nodeParts (line : List Char) : List (List Char) :=
  match splitConnectors? line with
  | none => []
  | some (token, rest) =>
    groupParts (takeLabel token).2 ++ rest.flatMap fun cut => groupParts (takeLabel cut.2).2

theorem isSome_readLinks? (early : Option (List Char)) (rest : List (Connector × List Char)) :
    (readLinks? early rest).isSome = true ↔
      ∀ part ∈ rest.flatMap (fun cut => groupParts (takeLabel cut.2).2),
        (readRef? part).isSome = true := by
  induction rest generalizing early with
  | nil => exact ⟨fun _ part hpart => absurd hpart List.not_mem_nil, fun _ => rfl⟩
  | cons cut rest ih =>
    -- the reading goes on only after the group of this connector has been read
    have hgroup : (readGroup? (takeLabel cut.2).2).isSome = true ↔ _ := isSome_mapM
    rw [List.flatMap_cons, List.forall_mem_append, ← ih none, ← hgroup, readLinks?]
    dsimp only
    cases readGroup? (takeLabel cut.2).2 with
    | none => simp
    | some group => cases readLinks? none rest <;> simp

/-- A chain is read off a text with a connector whose parts all refer to nodes, and off no other. -/
theorem isSome_readChain? (line : List Char) :
    (readChain? line).isSome = true ↔
      hasConnector line = true ∧ ∀ part ∈ nodeParts line, (readRef? part).isSome = true := by
  unfold readChain? hasConnector nodeParts
  cases splitConnectors? line with
  | none => simp
  | some found =>
    obtain ⟨token, rest⟩ := found
    have hgroup : (readGroup? (takeLabel token).2).isSome = true ↔ _ := isSome_mapM
    dsimp only
    rw [List.forall_mem_append, ← isSome_readLinks? (takeLabel token).1, ← hgroup]
    dsimp only [Option.bind_eq_bind, Option.bind_some]
    cases readGroup? (takeLabel token).2 with
    | none => simp
    | some first => cases readLinks? (takeLabel token).1 rest <;> simp

/-- The text begins with no keyword, it has a connector, and one of its parts refers to no node. -/
structure MalformedChain (line : List Char) : Prop extends Unkeyed line where
  connected : hasConnector line = true
  malformed : ∃ part ∈ nodeParts line, readRef? part = none

variable {d : Defaults} {line : List Char}

theorem MalformedChain.readChain?_eq_none (h : MalformedChain line) : readChain? line = none := by
  obtain ⟨part, hpart, hnone⟩ := h.malformed
  rw [← Option.not_isSome_iff_eq_none, isSome_readChain?]
  rintro ⟨_, hall⟩
  have hsome := hall part hpart
  rw [hnone] at hsome
  exact absurd hsome (by simp)

theorem readNode?_eq_none_iff :
    readNode? line = none ↔
      ∀ r, readRef? line = some r → r.id.toList.any Text.isBlank = true := by
  unfold readNode?
  cases readRef? line with
  | none => simp
  | some r => simp

theorem MalformedChain.apply_read (h : MalformedChain line) (s : State) :
    s.apply d (Statement.read line) = (readNode? line).elim s (s.touch d) := by
  rw [Statement.read_of_unkeyed h.toUnkeyed, h.readChain?_eq_none]
  cases readNode? line <;> rfl

theorem touch_empty_ne (r : NodeRef) : State.touch d {} r ≠ {} := by
  intro h
  have hkeys := congrArg (fun s : State => s.graph.nodes.keys) h
  dsimp only at hkeys
  rw [State.graph_touch, State.keys_ensureNode] at hkeys
  exact absurd hkeys (by simp [State.addKey, Table.keys])

/-- A malformed chain says nothing exactly when the whole text refers to no node or to one with a
blank in its identifier. Otherwise it is a reference to that one node, which makes no edge and gives
no style. -/
theorem malformedChain_silent_iff (h : MalformedChain line) (d : Defaults) :
    ((∀ s : State, s.apply d (Statement.read line) = s) ↔
        ∀ r, readRef? line = some r → r.id.toList.any Text.isBlank = true) ∧
      ∀ r, readRef? line = some r → r.id.toList.any Text.isBlank = false →
        ∀ s : State, s.apply d (Statement.read line) = s.touch d r := by
  refine ⟨?_, ?_⟩
  · rw [← readNode?_eq_none_iff]
    constructor
    · intro hsilent
      cases hnode : readNode? line with
      | none => rfl
      | some r =>
        -- a reference shows where there was no node yet
        have hempty := hsilent {}
        rw [h.apply_read, hnode] at hempty
        exact absurd hempty (touch_empty_ne r)
    · intro hnode s
      rw [h.apply_read, hnode]
      rfl
  · intro r href hblank s
    have hnode : readNode? line = some r :=
      Option.filter_eq_some_iff.2 ⟨href, by simp [hblank]⟩
    rw [h.apply_read, hnode]
    rfl

/-- With blanks around its connector a malformed chain says nothing. -/
theorem spacedEmptyWrapper_silent :
    MalformedChain "C --> []".toList ∧
      ∀ s : State, s.apply (.ofTheme .standard) (Statement.read "C --> []".toList) = s := by
  have h : MalformedChain "C --> []".toList := {
    header := by decide +kernel
    notEnd := by decide +kernel
    subgraph := by decide +kernel
    styling := by decide +kernel
    connected := by decide +kernel
    malformed := by decide +kernel }
  refine ⟨h, (malformedChain_silent_iff h _).1.2 ?_⟩
  intro r hr
  have href : readRef? "C --> []".toList = some ⟨"C -->", some "", some .rectangle, []⟩ := by
    decide +kernel
  obtain rfl := Option.some.inj (href.symm.trans hr)
  decide +kernel

/-- Without blanks a malformed chain makes a node that is named by the whole text. -/
theorem unspacedMalformed_makes_node :
    MalformedChain "A-->".toList ∧
      (State.apply (.ofTheme .standard) {} (Statement.read "A-->".toList)).graph.nodes.keys =
        ["A-->"] ∧
      State.apply (.ofTheme .standard) {} (Statement.read "A-->".toList) ≠ {} := by
  have hkeys : (State.apply (.ofTheme .standard) {}
      (Statement.read "A-->".toList)).graph.nodes.keys = ["A-->"] := by
    decide +kernel
  refine ⟨?_, hkeys, ?_⟩
  · exact {
      header := by decide +kernel
      notEnd := by decide +kernel
      subgraph := by decide +kernel
      styling := by decide +kernel
      connected := by decide +kernel
      malformed := by decide +kernel }
  · intro h
    rw [h] at hkeys
    exact absurd hkeys (by decide)

end Flowchart.Source
