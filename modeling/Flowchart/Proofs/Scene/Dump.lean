import Flowchart.Diagram
import Flowchart.Proofs.Layout.Port
import Flowchart.Proofs.Layout.Rank
import Flowchart.Proofs.Source.Grounded

/-! Nodes and edges are passed over at several places, when they have no place, no ports or no
rectangle, or when an end of an edge is missing. In the graph of a source what is passed over at all
these places is the same: the nodes on cycles and behind them, and the edges into these. -/
namespace Flowchart

def Node.isDrawable (n : Node) : Bool := n.bounds.any Rect.isFinite

/-- A node is drawn under its identifier when its rectangle is finite. -/
theorem Node.id_drawn? (n : Node) (c : LayoutConfig) :
    (n.drawn? c).map (·.id) = if n.isDrawable then some n.id else none := by
  unfold Node.drawn? Node.resolve Node.resolvePlain? Node.isDrawable
  cases n.bounds with
  | none => rfl
  | some bounds =>
    cases hfinite : bounds.isFinite with
    | false => simp [hfinite]
    | true =>
      by_cases hflat : bounds.width ≤ 0.0 ∨ bounds.height ≤ 0.0
      · simp [hfinite, hflat, Node.draw]
      · simp [hfinite, hflat, Node.draw]

theorem filterMap_map_eq_filter {α β γ : Type} {f : α → Option β} {view : β → γ} {n : α → γ}
    {p : α → Bool} {l : List α}
    (h : ∀ a ∈ l, (f a).map view = if p a then some (n a) else none) :
    (l.filterMap f).map view = (l.filter p).map n := by
  rw [List.map_filterMap, List.filterMap_congr h]
  induction l with
  | nil => rfl
  | cons a l ih =>
    have ih := ih fun b hb => h b (List.mem_cons_of_mem a hb)
    cases hp : p a <;> simp [hp, ih]

namespace Graph

def sceneDump (g : Graph) (c : LayoutConfig) : SceneDump := (g.scene c).dump g

/-- The identifiers of the nodes for which a property of nodes says yes. -/
theorem ids_filter_values {g : Graph} (h : g.Grounded) (p : Node → Bool) (q : String → Prop)
    [DecidablePred q] (hpq : ∀ id n, g.node? id = some n → (p n = true ↔ q id)) :
    (g.nodes.values.filter p).map (·.id) = g.nodes.keys.filter q := by
  have hentries {entries : List (String × Node)} (hsub : entries ⊆ g.nodes.entries) :
      ((entries.map (·.2)).filter p).map (·.id) = (entries.map (·.1)).filter q := by
    induction entries with
    | nil => rfl
    | cons e rest ih =>
      obtain ⟨hmem, hrest⟩ := List.cons_subset.1 hsub
      have hiff := hpq e.1 e.2 (Table.find?_eq_some_iff.2 hmem)
      have hid := h.keyed e hmem
      by_cases hp : p e.2 = true
      · simp [hp, hiff.1 hp, hid, ih hrest]
      · simp [hp, mt hiff.2 hp, ih hrest]
  exact hentries (List.Subset.refl _)

open Layout (ends? isSome_ends?_iff)

/-- An edge with ports just when both its ends are placed is drawn just then, under its number. -/
theorem index_resolveEdge {g : Graph} {i : Nat} {e : Edge} (c : LayoutConfig)
    (he : g.edges[i]? = some e) (hexit : e.exitPort.isSome = (ends? g e).isSome)
    (hentry : e.entryPort.isSome = (ends? g e).isSome) :
    (g.resolveEdge i c).toOption.map (·.index) = if (ends? g e).isSome then some i else none := by
  unfold resolveEdge
  -- placed ends give both rectangles and ports; without them the ports are missing if nothing else is
  cases hends : (ends? g e).isSome with
  | true =>
    rw [hends] at hexit hentry
    obtain ⟨n, m, hn, hm, hnplaced, hmplaced⟩ := isSome_ends?_iff.1 hends
    obtain ⟨p, hp⟩ := Option.isSome_iff_exists.1 hnplaced
    obtain ⟨q, hq⟩ := Option.isSome_iff_exists.1 hmplaced
    obtain ⟨exit, hexit⟩ := Option.isSome_iff_exists.1 hexit
    obtain ⟨entry, hentry⟩ := Option.isSome_iff_exists.1 hentry
    simp only [he, endpointBounds, hn, hm, Node.bounds, hp, hq, hexit, hentry]
    rfl
  | false =>
    rw [hends] at hexit
    have hnone : e.exitPort = none := by simpa using hexit
    simp only [he, hnone]
    cases g.endpointBounds e e.source with
    | error _ => rfl
    | ok first => cases g.endpointBounds e e.target <;> rfl

variable {g : Graph} {c : LayoutConfig}

theorem leads_arrange : (g.arrange c).Leads = g.Leads := by
  have hends (edges : List Edge) (a b : String) :
      (∃ e ∈ edges, e.source = a ∧ e.target = b) ↔
        ∃ e ∈ edges.map Edge.clearPorts, e.source = a ∧ e.target = b := by
    simp [Edge.clearPorts]
  funext a b
  apply propext
  simp only [Leads, Layout.keys_arrange]
  rw [hends (g.arrange c).edges, hends g.edges, Layout.edges_arrange_looks]

theorem Grounded.arrange (h : g.Grounded) : (g.arrange c).Grounded := by
  constructor
  · intro e he
    obtain ⟨i, hi⟩ := List.getElem?_of_mem he
    rw [Layout.getElem?_arrange] at hi
    obtain ⟨f, hf, rfl⟩ := Option.map_eq_some_iff.1 hi
    exact h.keyed f (List.mem_of_getElem? hf)
  · intro e he
    have hmem : e.clearPorts ∈ g.edges.map Edge.clearPorts :=
      Layout.edges_arrange_looks (c := c) ▸ List.mem_map_of_mem he
    obtain ⟨f, hf, hef⟩ := List.mem_map.1 hmem
    have hsource : f.clearPorts.source = e.clearPorts.source := congrArg Edge.source hef
    have htarget : f.clearPorts.target = e.clearPorts.target := congrArg Edge.target hef
    have hends := h.ends f hf
    rw [Layout.keys_arrange]
    exact ⟨hsource ▸ hends.1, htarget ▸ hends.2⟩

theorem isPlaced_iff_of_node? {id : String} {n : Node} (hn : (g.arrange c).node? id = some n) :
    n.isPlaced = true ↔ ¬ BehindCycle (g.arrange c).Leads id := by
  obtain ⟨i, hi⟩ := Layout.entry_of_node? hn
  rw [leads_arrange]
  exact Layout.isPlaced_arrange_iff hi

theorem exists_node? {id : String} (h : id ∈ g.nodes.keys) : ∃ n, g.node? id = some n := by
  obtain ⟨⟨_, n⟩, hmem, rfl⟩ := List.mem_map.1 h
  exact ⟨n, Table.find?_eq_some_iff.2 hmem⟩

def CanDraw (g : Graph) (id : String) : Prop :=
  ∃ n bounds, g.node? id = some n ∧ n.bounds = some bounds ∧ bounds.isFinite = true

open Classical in
theorem unplaced_dump (h : g.Grounded) :
    ((g.arrange c).sceneDump c).unplaced =
      g.nodes.keys.filter (BehindCycle (g.arrange c).Leads ·) := by
  rw [← Layout.keys_arrange c g]
  refine ids_filter_values h.arrange (!·.isPlaced) _ fun id n hn => ?_
  rw [Bool.not_eq_true', ← Bool.not_eq_true, isPlaced_iff_of_node? hn, not_not]

open Classical in
theorem ids_dump (h : g.Grounded) :
    ((g.arrange c).sceneDump c).nodes.map (·.id) = g.nodes.keys.filter fun id =>
      ¬ BehindCycle (g.arrange c).Leads id ∧ (g.arrange c).CanDraw id := by
  have hscene : ((g.arrange c).sceneDump c).nodes.map (·.id) =
      ((g.arrange c).placedNodes.filterMap (·.drawn? c)).map (·.id) := by
    simp only [sceneDump, Scene.dump, scene, List.map_map]
    rfl
  rw [hscene, filterMap_map_eq_filter fun n _ => n.id_drawn? c, placedNodes, List.filter_filter,
    ← Layout.keys_arrange c g]
  refine ids_filter_values h.arrange _ _ fun id n hn => ?_
  have hdraw : n.isDrawable = true ↔ (g.arrange c).CanDraw id := by
    simp [CanDraw, hn, Node.isDrawable, Option.any_eq_true]
  rw [Bool.and_eq_true, isPlaced_iff_of_node? hn, hdraw, and_comm]

/-- A dumped node is a node of the graph, with its rank. -/
theorem node?_of_mem_dump (h : g.Grounded) {m : NodeDump}
    (hm : m ∈ ((g.arrange c).sceneDump c).nodes) :
    ∃ n k, (g.arrange c).node? m.id = some n ∧ m.shape = n.shape.name ∧
      m.subgraph = n.subgraph ∧ n.rank = some k ∧ m.rank = some k := by
  obtain ⟨drawn, hdrawn, rfl⟩ := List.mem_map.1 hm
  obtain ⟨n, hn, hdraw⟩ := List.mem_filterMap.1 hdrawn
  obtain ⟨hvalue, hplaced⟩ := List.mem_filter.1 hn
  obtain ⟨e, he, rfl⟩ := List.mem_map.1 hvalue
  have hid : drawn.id = e.2.id := by
    have hmap := e.2.id_drawn? c
    rw [hdraw] at hmap
    split at hmap
    · exact Option.some.inj hmap
    · exact absurd hmap (by simp)
  have hnode : (g.arrange c).node? drawn.id = some e.2 := by
    rw [hid, h.arrange.keyed e he]
    exact Table.find?_eq_some_iff.2 he
  obtain ⟨i, hi⟩ := List.getElem?_of_mem he
  obtain ⟨k, hk⟩ := Option.isSome_iff_exists.1 ((Layout.rank_arrange hi).1 ▸ hplaced)
  refine ⟨e.2, k, hnode, ?_, ?_, hk, ?_⟩
  · simp [NodeGeometry.dump, hnode]
  · simp [NodeGeometry.dump, hnode]
  · simp [NodeGeometry.dump, hnode, hk]

theorem mem_unplaced_dump (h : g.Grounded) {id : String} :
    id ∈ ((g.arrange c).sceneDump c).unplaced ↔
      id ∈ g.nodes.keys ∧ BehindCycle (g.arrange c).Leads id := by
  classical
  rw [unplaced_dump h, List.mem_filter, decide_eq_true_eq]

/-- The ends of an edge are placed when its target is not among the unplaced nodes. -/
theorem isSome_ends?_arrange_iff (h : g.Grounded) {e : Edge} (he : e ∈ (g.arrange c).edges) :
    (ends? (g.arrange c) e).isSome = true ↔
      e.target ∉ ((g.arrange c).sceneDump c).unplaced := by
  obtain ⟨hsource, htarget⟩ := h.arrange.ends e he
  obtain ⟨n, hn⟩ := exists_node? hsource
  obtain ⟨m, hm⟩ := exists_node? htarget
  rw [mem_unplaced_dump h, isSome_ends?_iff, ← Layout.keys_arrange c g, not_and]
  constructor
  · rintro ⟨_, m', _, hm', _, hplaced⟩ _
    exact (isPlaced_iff_of_node? hm').1 hplaced
  · intro hnot
    refine ⟨n, m, hn, hm, ?_, (isPlaced_iff_of_node? hm).2 (hnot htarget)⟩
    -- a cycle that reached the source would reach the target along the edge
    rw [isPlaced_iff_of_node? hn]
    rintro ⟨a, hcycle, hreach⟩
    exact hnot htarget ⟨a, hcycle, hreach.tail ⟨hsource, htarget, e, he, rfl, rfl⟩⟩

theorem indices_scene :
    (((g.arrange c).scene c).edges.map (·.index)) =
      (List.range (g.arrange c).edges.length).filter fun i =>
        ((g.arrange c).edges[i]?.any fun e => (ends? (g.arrange c) e).isSome) := by
  refine (filterMap_map_eq_filter (n := id) fun i hi => ?_).trans (List.map_id _)
  have hlt : i < (g.arrange c).edges.length := List.mem_range.1 hi
  have he := List.getElem?_eq_getElem hlt
  obtain ⟨hexit, hentry⟩ := Layout.ports_arrange he
  rw [index_resolveEdge c he hexit hentry, he]
  rfl

/-- The dump leaves out none of the drawn edges. -/
theorem indices_dump :
    ((g.arrange c).sceneDump c).edges.map (·.index) =
      ((g.arrange c).scene c).edges.map (·.index) := by
  have hfound : ∀ r ∈ ((g.arrange c).scene c).edges,
      (r.dump? (g.arrange c)).map (·.index) = if true then some r.index else none := by
    intro r hr
    have hmem : r.index ∈ ((g.arrange c).scene c).edges.map (·.index) := List.mem_map_of_mem hr
    rw [indices_scene, List.mem_filter, List.mem_range] at hmem
    simp [EdgeGeometry.dump?, List.getElem?_eq_getElem hmem.1]
  exact (filterMap_map_eq_filter hfound).trans (by rw [List.filter_true])

/-- A dumped edge is an edge of the graph under its number, and both its ends are placed. -/
theorem edge_of_mem_dump (h : g.Grounded) {m : EdgeDump}
    (hm : m ∈ ((g.arrange c).sceneDump c).edges) :
    ∃ e, (g.arrange c).edges[m.index]? = some e ∧ m.source = e.source ∧ m.target = e.target ∧
      m.style = e.style.name ∧ m.arrowhead = e.arrowhead.name ∧
      e.source ∉ ((g.arrange c).sceneDump c).unplaced ∧
      e.target ∉ ((g.arrange c).sceneDump c).unplaced := by
  have hindex : m.index ∈ ((g.arrange c).sceneDump c).edges.map (·.index) := List.mem_map_of_mem hm
  obtain ⟨r, _, hdump⟩ := List.mem_filterMap.1 hm
  obtain ⟨e, he, rfl⟩ := Option.map_eq_some_iff.1 hdump
  have hmem := List.mem_of_getElem? he
  rw [indices_dump, indices_scene, List.mem_filter] at hindex
  have hends : (ends? (g.arrange c) e).isSome = true := by
    have hany := hindex.2
    simp only [he, Option.any_some] at hany
    exact hany
  have htarget := (isSome_ends?_arrange_iff h hmem).1 hends
  have hedge := h.arrange.ends e hmem
  refine ⟨e, he, rfl, rfl, rfl, rfl, ?_, htarget⟩
  rw [mem_unplaced_dump h] at htarget ⊢
  rintro ⟨_, a, hcycle, hreach⟩
  rw [← Layout.keys_arrange c g] at htarget
  exact htarget ⟨hedge.2, a, hcycle, hreach.tail ⟨hedge.1, hedge.2, e, hmem, rfl, rfl⟩⟩

end Graph

open Classical in
/-- The dump of a scene accounts for all nodes and edges of a graph, the nodes in a given order. -/
structure Scene.AccountsFor (s : Scene) (g : Graph) (ids : List String) : Prop where
  /-- The nodes of the graph stand in this order. -/
  keys : g.nodes.keys = ids
  /-- The unplaced nodes are those on cycles and behind them. -/
  unplaced : (s.dump g).unplaced = ids.filter (BehindCycle g.Leads ·)
  /-- The dumped nodes are the others whose rectangles are finite. -/
  nodes : (s.dump g).nodes.map (·.id) =
    ids.filter fun id => ¬ BehindCycle g.Leads id ∧ g.CanDraw id
  /-- A dumped node says what the graph says, and it has a rank. -/
  node : ∀ m ∈ (s.dump g).nodes, ∃ n k, g.node? m.id = some n ∧ m.shape = n.shape.name ∧
    m.subgraph = n.subgraph ∧ n.rank = some k ∧ m.rank = some k
  /-- The dumped edges are those into placed nodes, in order of their numbers. -/
  edges : (s.dump g).edges.map (·.index) = (List.range g.edges.length).filter fun i =>
    ∃ e, g.edges[i]? = some e ∧ e.target ∉ (s.dump g).unplaced
  /-- A dumped edge says what the graph says, and both its ends are placed. -/
  edge : ∀ m ∈ (s.dump g).edges, ∃ e, g.edges[m.index]? = some e ∧ m.source = e.source ∧
    m.target = e.target ∧ m.style = e.style.name ∧ m.arrowhead = e.arrowhead.name ∧
    e.source ∉ (s.dump g).unplaced ∧ e.target ∉ (s.dump g).unplaced
  /-- The dump leaves out no edge of the scene. -/
  drawn : (s.dump g).edges.map (·.index) = s.edges.map (·.index)

/-- The names in a dump tell shapes, styles and ends of edges apart. -/
theorem NodeShape.name_injective : Function.Injective NodeShape.name := by
  intro a b h
  cases a <;> cases b <;> first | rfl | exact absurd h (by decide)

theorem EdgeStyle.name_injective : Function.Injective EdgeStyle.name := by
  intro a b h
  cases a <;> cases b <;> first | rfl | exact absurd h (by decide)

theorem Arrowhead.name_injective : Function.Injective Arrowhead.name := by
  intro a b h
  cases a <;> cases b <;> first | rfl | exact absurd h (by decide)

theorem Graph.accountsFor_scene_arrange {g : Graph} {c : LayoutConfig} (h : g.Grounded) :
    ((g.arrange c).scene c).AccountsFor (g.arrange c) g.nodes.keys where
  keys := Layout.keys_arrange c g
  unplaced := unplaced_dump h
  nodes := ids_dump h
  node _ hm := node?_of_mem_dump h hm
  edges := by
    refine indices_dump.trans (indices_scene.trans (List.filter_congr fun i hi => ?_))
    have he := List.getElem?_eq_getElem (List.mem_range.1 hi)
    have hends := isSome_ends?_arrange_iff h (List.mem_of_getElem? he)
    rw [Bool.eq_iff_iff, decide_eq_true_eq, he, Option.any_some, hends]
    constructor
    · intro hnot
      exact ⟨_, rfl, hnot⟩
    · rintro ⟨e, hget, hnot⟩
      exact Option.some.inj hget ▸ hnot
  edge _ hm := edge_of_mem_dump h hm
  drawn := indices_dump

namespace Diagram

theorem graph_ofSource (source : String) (base : Config) :
    (ofSource source base).graph =
      (if (ofSource source base).config.theme.sameDefaults base.theme then
        (Source.readWith base.theme source).graph
      else (Source.readWith (ofSource source base).config.theme source).graph).arrange
        (ofSource source base).config.layout := rfl

theorem scene_ofSource (source : String) (base : Config) :
    (ofSource source base).scene =
      (ofSource source base).graph.scene (ofSource source base).config.layout := rfl

/-- Without a directive the configuration is the one given. -/
theorem config_ofSource_of_init {source : String} {base : Config}
    (h : (Source.readWith base.theme source).init = none) : (ofSource source base).config = base := by
  unfold ofSource
  dsimp only
  rw [h]

/-- A diagram is a source, read under some theme, laid out and drawn. -/
theorem exists_graph_ofSource (source : String) (base : Config) :
    ∃ t, (ofSource source base).graph =
      (Source.readWith t source).graph.arrange (ofSource source base).config.layout := by
  rw [graph_ofSource]
  split
  · exact ⟨_, rfl⟩
  · exact ⟨_, rfl⟩

theorem exists_arranged_ofSource (source : String) (base : Config) :
    ∃ t c, (ofSource source base).graph = (Source.readWith t source).graph.arrange c ∧
      (ofSource source base).scene = ((Source.readWith t source).graph.arrange c).scene c := by
  obtain ⟨t, hgraph⟩ := exists_graph_ofSource source base
  exact ⟨t, _, hgraph, by rw [scene_ofSource, hgraph]⟩

/-- Nothing is lost on the way from a source to its dump. -/
theorem dump_accounts_for_source (source : String) (base : Config) :
    (ofSource source base).scene.AccountsFor (ofSource source base).graph
      (Source.firstRefs source.toList) := by
  obtain ⟨t, c, hgraph, hscene⟩ := exists_arranged_ofSource source base
  have hdump := Graph.accountsFor_scene_arrange (c := c) (Source.grounded_readWith t source)
  rw [Source.keys_readWith] at hdump
  rw [hscene, hgraph]
  exact hdump

/-- A cycle and an edge past it. -/
example :
    let d := ofSource "A --> B\nB --> C\nC --> B\nA -->|past| D" {}
    (d.scene.dump d.graph).unplaced = ["B", "C"] ∧
      (d.scene.dump d.graph).nodes.map (·.id) = ["A", "D"] ∧
      (d.scene.dump d.graph).edges.map (·.index) = [3] := by
  decide +kernel

end Diagram
end Flowchart
