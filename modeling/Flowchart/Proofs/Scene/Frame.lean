import Flowchart.Proofs.Scene.Dump
import Flowchart.Proofs.Scene.Resolve
import Mathlib.Data.List.Induction

namespace Flowchart.Graph

open Source.State (addKey)
open Source (foldl_addKey_eq_eraseDups)

def firstBearing (nodes : List Node) (label : String) : Nat :=
  nodes.findIdx (·.subgraph == some label)

/-- The nodes of a graph, placed and labelled, parted by frames. -/
structure PartedBy (g : Graph) (frames : List SubgraphFrame) : Prop where
  distinct : (frames.map (·.label)).Nodup
  /-- The members of a frame are the placed nodes that bear its label, in order of insertion. -/
  members : ∀ f ∈ frames, f.members =
    (g.nodes.values.filter fun n => n.isPlaced && n.subgraph == some f.label).map (·.id)
  occupied : ∀ f ∈ frames, f.members ≠ []
  framed : ∀ n ∈ g.nodes.values, n.isPlaced = true → ∀ label, n.subgraph = some label →
    ∃! f, f ∈ frames ∧ f.label = label
  /-- All members together are the placed nodes that bear a label, each once. -/
  parted : (frames.flatMap (·.members)).Perm
    ((g.nodes.values.filter fun n => n.isPlaced && n.subgraph.isSome).map (·.id))
  /-- Where nodes are found by their own identifiers, these tell the members apart. -/
  member_iff : (∀ e ∈ g.nodes.entries, e.2.id = e.1) → ∀ id n, g.node? id = some n →
    ∀ f ∈ frames, (id ∈ f.members ↔ n.isPlaced = true ∧ n.subgraph = some f.label)
  /-- The frames stand in the order of the first nodes, placed or not, that bear their labels. -/
  ordered : frames.Pairwise fun f f' =>
    firstBearing g.nodes.values f.label < firstBearing g.nodes.values f'.label

/-- The labels of some nodes stand in the order in which they come up first. -/
theorem pairwise_firstBearing (nodes : List Node) :
    (nodes.filterMap Node.subgraph).eraseDups.Pairwise fun a b =>
      firstBearing nodes a < firstBearing nodes b := by
  -- a node at the end leaves the first bearers of the labels that are there
  induction nodes using List.reverseRecOn with
  | nil => exact List.Pairwise.nil
  | append_singleton nodes n ih =>
    have hborn {a : String} (ha : a ∈ (nodes.filterMap Node.subgraph).eraseDups) :
        firstBearing nodes a < nodes.length ∧
          firstBearing (nodes ++ [n]) a = firstBearing nodes a := by
      obtain ⟨m, hm, hlabel⟩ := List.mem_filterMap.1 (List.mem_eraseDups.1 ha)
      have hlt : firstBearing nodes a < nodes.length :=
        List.findIdx_lt_length.2 ⟨m, hm, by simp [hlabel]⟩
      exact ⟨hlt, List.findIdx_append.trans (if_pos hlt)⟩
    have hold : (nodes.filterMap Node.subgraph).eraseDups.Pairwise fun a b =>
        firstBearing (nodes ++ [n]) a < firstBearing (nodes ++ [n]) b := by
      refine ih.imp_of_mem fun ha hb hab => ?_
      rwa [(hborn ha).2, (hborn hb).2]
    cases hlabel : n.subgraph with
    | none => simpa [List.filterMap_append, hlabel] using hold
    | some label =>
      have hadd : ((nodes ++ [n]).filterMap Node.subgraph).eraseDups =
          addKey (nodes.filterMap Node.subgraph).eraseDups label := by
        rw [← foldl_addKey_eq_eraseDups, ← foldl_addKey_eq_eraseDups, List.filterMap_append,
          List.foldl_append, List.filterMap_cons_some hlabel]
        rfl
      rw [hadd, addKey]
      split
      · exact hold
      next hnew =>
      refine List.pairwise_append.2 ⟨hold, List.pairwise_singleton _ _, fun a ha b hb => ?_⟩
      obtain rfl := List.mem_singleton.1 hb
      have hnone : ¬ firstBearing nodes b < nodes.length := by
        intro hlt
        obtain ⟨m, hm, hbears⟩ := List.findIdx_lt_length.1 hlt
        exact hnew (List.mem_eraseDups.2 (List.mem_filterMap.2 ⟨m, hm, by simpa using hbears⟩))
      have hlast : nodes.length ≤ firstBearing (nodes ++ [n]) b := by
        rw [firstBearing, List.findIdx_append, ← firstBearing, if_neg hnone]
        exact Nat.le_add_left _ _
      rw [(hborn ha).2]
      exact (hborn ha).1.trans_le hlast

variable {g : Graph} {c : LayoutConfig} {label : String}

/-- The labels of a graph are those of its nodes, each where it comes up first. -/
theorem subgraphLabels_eq (g : Graph) :
    g.subgraphLabels = (g.nodes.values.filterMap Node.subgraph).eraseDups := by
  rw [← foldl_addKey_eq_eraseDups, List.foldl_filterMap, subgraphLabels]
  congr 1
  funext labels n
  cases n.subgraph with
  | none => rfl
  | some label => simp [addKey]

theorem mem_subgraphLabels_iff :
    label ∈ g.subgraphLabels ↔ ∃ n ∈ g.nodes.values, n.subgraph = some label := by
  rw [subgraphLabels_eq, List.mem_eraseDups, List.mem_filterMap]

theorem subgraphLabels_nodup (g : Graph) : g.subgraphLabels.Nodup := by
  rw [subgraphLabels_eq]
  refine (pairwise_firstBearing g.nodes.values).imp fun hlt => ?_
  rintro rfl
  exact Nat.lt_irrefl _ hlt

theorem membersOf_eq (g : Graph) (label : String) : g.membersOf label =
    g.nodes.values.filter fun n => n.isPlaced && n.subgraph == some label := by
  rw [membersOf, placedNodes, List.filter_filter]
  congr 1
  funext n
  exact Bool.and_comm _ _

theorem mem_membersOf_iff {n : Node} : n ∈ g.membersOf label ↔
    n ∈ g.nodes.values ∧ n.isPlaced = true ∧ n.subgraph = some label := by
  rw [membersOf_eq, List.mem_filter, Bool.and_eq_true, beq_iff_eq]

/-- There is a frame for a label just when a placed node bears it. -/
theorem frame?_eq (g : Graph) (label : String) (c : LayoutConfig) :
    (g.frame? label c).map (fun f => (f.label, f.members)) =
      if !(g.membersOf label).isEmpty then some (label, (g.membersOf label).map (·.id))
      else none := by
  unfold frame?
  cases hmembers : g.membersOf label with
  | nil => rfl
  | cons n rest =>
    have hplaced : n.isPlaced = true :=
      (mem_membersOf_iff.1 (hmembers ▸ List.mem_cons_self : n ∈ g.membersOf label)).2.1
    obtain ⟨p, hp⟩ := Option.isSome_iff_exists.1 hplaced
    have hbounds : n.bounds = some (.ofCorner p n.size) := by rw [Node.bounds, hp, Option.map_some]
    simp only [List.filterMap_cons_some hbounds]
    rfl

/-- The frames by their labels and members. -/
theorem frames_eq (g : Graph) (c : LayoutConfig) :
    (g.frames c).map (fun f => (f.label, f.members)) =
      (g.subgraphLabels.filter fun label => !(g.membersOf label).isEmpty).map fun label =>
        (label, (g.membersOf label).map (·.id)) :=
  filterMap_map_eq_filter fun label _ => g.frame?_eq label c

theorem labels_frames (g : Graph) (c : LayoutConfig) : (g.frames c).map (·.label) =
    g.subgraphLabels.filter fun label => !(g.membersOf label).isEmpty := by
  have hlabels := congrArg (List.map Prod.fst) (g.frames_eq c)
  rw [List.map_map, List.map_map] at hlabels
  exact hlabels.trans (List.map_id _)

theorem members_frames (g : Graph) (c : LayoutConfig) : (g.frames c).map (·.members) =
    (g.subgraphLabels.filter fun label => !(g.membersOf label).isEmpty).map fun label =>
      (g.membersOf label).map (·.id) := by
  have hmembers := congrArg (List.map Prod.snd) (g.frames_eq c)
  rw [List.map_map, List.map_map] at hmembers
  exact hmembers

theorem members_of_mem_frames {f : SubgraphFrame} (hf : f ∈ g.frames c) :
    f.members = (g.membersOf f.label).map (·.id) ∧ g.membersOf f.label ≠ [] := by
  have hmem : (f.label, f.members) ∈ (g.frames c).map fun f => (f.label, f.members) :=
    List.mem_map_of_mem hf
  rw [frames_eq] at hmem
  obtain ⟨label, hlabel, hsame⟩ := List.mem_map.1 hmem
  obtain ⟨rfl, hmembers⟩ := Prod.mk.inj hsame
  exact ⟨hmembers.symm, by simpa using (List.mem_filter.1 hlabel).2⟩

/-- The nodes of each of some different labels, one label after the other, are the nodes of all
these labels. -/
theorem flatMap_filter_perm {labels : List String} (hdistinct : labels.Nodup) (nodes : List Node) :
    (labels.flatMap fun label => nodes.filter (·.subgraph == some label)).Perm
      (nodes.filter fun n => n.subgraph.any (· ∈ labels)) := by
  induction labels with
  | nil => simp
  | cons label rest ih =>
    obtain ⟨hnew, hrest⟩ := List.nodup_cons.1 hdistinct
    -- both halves are filters of one list: the nodes of this label, and all the others
    have hthis : nodes.filter (·.subgraph == some label) =
        (nodes.filter fun n => n.subgraph.any (· ∈ label :: rest)).filter
          (·.subgraph == some label) := by
      rw [List.filter_filter]
      refine List.filter_congr fun n _ => ?_
      cases hn : n.subgraph == some label with
      | false => rfl
      | true => simp [eq_of_beq hn]
    have hothers : (nodes.filter fun n => n.subgraph.any (· ∈ rest)) =
        (nodes.filter fun n => n.subgraph.any (· ∈ label :: rest)).filter
          fun n => !(n.subgraph == some label) := by
      rw [List.filter_filter]
      refine List.filter_congr fun n _ => ?_
      cases hn : n.subgraph with
      | none => rfl
      | some other =>
        by_cases hsame : other = label
        · simp [hsame, hnew]
        · simp [hsame]
    rw [List.flatMap_cons]
    refine ((ih hrest).append_left _).trans ?_
    rw [hthis, hothers]
    exact List.filter_append_perm _ _

/-- A label that a placed node bears has a frame. -/
theorem mem_labels_frames {n : Node} (hn : n ∈ g.nodes.values) (hplaced : n.isPlaced = true)
    (hlabel : n.subgraph = some label) : label ∈ (g.frames c).map (·.label) := by
  have hmember : n ∈ g.membersOf label := mem_membersOf_iff.2 ⟨hn, hplaced, hlabel⟩
  rw [labels_frames, List.mem_filter]
  refine ⟨mem_subgraphLabels_iff.2 ⟨n, hn, hlabel⟩, ?_⟩
  simpa using List.ne_nil_of_mem hmember

theorem labels_frames_nodup (g : Graph) (c : LayoutConfig) :
    ((g.frames c).map (·.label)).Nodup := by
  rw [labels_frames]
  exact g.subgraphLabels_nodup.filter _

theorem perm_members_frames (g : Graph) (c : LayoutConfig) :
    ((g.frames c).flatMap (·.members)).Perm
      ((g.nodes.values.filter fun n => n.isPlaced && n.subgraph.isSome).map (·.id)) := by
  have hall : (g.nodes.values.filter fun n => n.isPlaced && n.subgraph.isSome) =
      g.placedNodes.filter fun n => n.subgraph.any (· ∈ (g.frames c).map (·.label)) := by
    rw [placedNodes, List.filter_filter]
    refine List.filter_congr fun n hn => ?_
    rw [Bool.and_comm]
    cases hplaced : n.isPlaced with
    | false => rw [Bool.and_false, Bool.and_false]
    | true =>
      cases hlabel : n.subgraph with
      | none => rfl
      | some label => simpa using List.mem_map.1 (mem_labels_frames (c := c) hn hplaced hlabel)
  have hmembers : (g.frames c).flatMap (·.members) =
      (((g.frames c).map (·.label)).flatMap g.membersOf).map (·.id) := by
    rw [List.flatMap_def, members_frames, ← labels_frames g c, ← List.flatMap_def, List.map_flatMap]
  rw [hmembers, hall]
  exact (flatMap_filter_perm (g.labels_frames_nodup c) g.placedNodes).map _

theorem mem_members_frames_iff (hkeyed : ∀ e ∈ g.nodes.entries, e.2.id = e.1) {id : String}
    {n : Node} (hn : g.node? id = some n) {f : SubgraphFrame} (hf : f ∈ g.frames c) :
    id ∈ f.members ↔ n.isPlaced = true ∧ n.subgraph = some f.label := by
  have hentry := Table.mem_entries_of_find? hn
  have hmember : id ∈ f.members ↔ n ∈ g.membersOf f.label := by
    rw [(members_of_mem_frames hf).1, List.mem_map]
    constructor
    · rintro ⟨m, hm, rfl⟩
      obtain ⟨e, he, rfl⟩ := List.mem_map.1 (mem_membersOf_iff.1 hm).1
      -- the member and the node have one identifier, so they are found under one key
      have hfound : g.node? e.2.id = some e.2 := by
        rw [hkeyed e he]
        exact Table.find?_eq_some_iff.2 he
      rwa [← Option.some.inj (hfound.symm.trans hn)]
    · exact fun hmem => ⟨n, hmem, hkeyed _ hentry⟩
  rw [hmember, mem_membersOf_iff]
  exact and_iff_right (List.mem_map_of_mem hentry)

/-- Frames part the placed nodes with a label. -/
theorem frames_part_placed_nodes (c : LayoutConfig) (g : Graph) : g.PartedBy (g.frames c) where
  distinct := g.labels_frames_nodup c
  members f hf := by rw [(members_of_mem_frames hf).1, membersOf_eq]
  occupied f hf := by
    rw [(members_of_mem_frames hf).1, ne_eq, List.map_eq_nil_iff]
    exact (members_of_mem_frames hf).2
  framed n hn hplaced label hlabel := by
    obtain ⟨f, hf, hframe⟩ := List.mem_map.1 (mem_labels_frames (c := c) hn hplaced hlabel)
    refine ⟨f, ⟨hf, hframe⟩, fun f' ⟨hf', hframe'⟩ => ?_⟩
    exact List.inj_on_of_nodup_map (g.labels_frames_nodup c) hf' hf (hframe'.trans hframe.symm)
  parted := g.perm_members_frames c
  member_iff hkeyed id n hn f hf := mem_members_frames_iff hkeyed hn hf
  ordered := by
    rw [← List.pairwise_map (f := SubgraphFrame.label)
      (R := fun a b => firstBearing g.nodes.values a < firstBearing g.nodes.values b),
      labels_frames, subgraphLabels_eq]
    exact (pairwise_firstBearing g.nodes.values).filter _

def labelledGraph (nodes : List (String × String × Bool)) : Graph where
  nodes := nodes.foldl (fun t (id, label, placed) => t.insertNew id
    { Node.new id id .rectangle (some label) with
      position := if placed then some .zero else none }) .empty
  edges := []

/-- The frame of a label stands where the label comes up first, also on a node without a place; its
members need not be next to each other. -/
example :
    ((labelledGraph [("U", "late", false), ("X", "early", true), ("Y", "late", true),
      ("W", "lost", false), ("Z", "early", true), ("E", "", true)]).frames {}).map
        (fun f => (f.label, f.members)) =
      [("late", ["Y"]), ("early", ["X", "Z"]), ("", ["E"])] := by
  decide +kernel

end Flowchart.Graph
