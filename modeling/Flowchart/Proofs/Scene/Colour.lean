import Flowchart.Proofs.Diagram.Directive
import Flowchart.Proofs.Layout.Skeleton
import Flowchart.Proofs.Source.Colour

namespace Flowchart

def NodeGeometry.uncoloured (n : NodeGeometry) : NodeGeometry :=
  { n with fill := .black, border := .black, textColor := .black }

def EdgeGeometry.uncoloured (e : EdgeGeometry) : EdgeGeometry := { e with color := .black }

def Scene.uncoloured (s : Scene) : Scene :=
  { s with
    nodes := s.nodes.map NodeGeometry.uncoloured
    edges := s.edges.map EdgeGeometry.uncoloured }

/-- The room that a scene takes does not depend on colours. -/
theorem Scene.extent_uncoloured (s : Scene) (margin : Float32) :
    s.uncoloured.extent margin = s.extent margin := by
  have hparts : s.uncoloured.parts = s.parts := by
    simp only [Scene.parts, Scene.uncoloured, List.map_map, List.flatMap_map]
    rfl
  rw [Scene.extent, hparts, Scene.extent]

theorem Node.uncoloured_drawn? (n : Node) (c : LayoutConfig) :
    (n.uncoloured.drawn? c).map NodeGeometry.uncoloured =
      (n.drawn? c).map NodeGeometry.uncoloured := by
  have hbounds : n.uncoloured.bounds = n.bounds := rfl
  unfold drawn? resolve resolvePlain?
  rw [hbounds]
  cases n.bounds with
  | none => rfl
  | some bounds =>
    by_cases hflat : (!bounds.isFinite || bounds.width ≤ 0.0 || bounds.height ≤ 0.0) = true
    · simp only [hflat, if_true]
      by_cases hfinite : bounds.isFinite = true
      · simp only [hfinite, if_true]
        rfl
      · simp only [hfinite]
        rfl
    · simp only [hflat]
      rfl

namespace Graph

variable {g h : Graph} {c : LayoutConfig}

theorem uncoloured_resolveEdge (g : Graph) (i : Nat) (c : LayoutConfig) :
    (g.uncoloured.resolveEdge i c).map EdgeGeometry.uncoloured =
      (g.resolveEdge i c).map EdgeGeometry.uncoloured := by
  have hedge : g.uncoloured.edges[i]? = g.edges[i]?.map Edge.uncoloured :=
    g.getElem?_edges_recast _ i
  unfold resolveEdge
  rw [hedge]
  cases g.edges[i]? with
  | none => rfl
  | some e =>
    have hends (id : String) :
        g.uncoloured.endpointBounds e.uncoloured id = g.endpointBounds e id := by
      rw [endpointBounds, uncoloured, node?_recast, endpointBounds]
      cases g.node? id <;> rfl
    have hsource : e.uncoloured.source = e.source := rfl
    have htarget : e.uncoloured.target = e.target := rfl
    have hexit : e.uncoloured.exitPort = e.exitPort := rfl
    have hentry : e.uncoloured.entryPort = e.entryPort := rfl
    simp only [Option.map_some, hends, hsource, htarget, hexit, hentry]
    cases g.endpointBounds e e.source with
    | error _ => simp only [Except.map, bind, Except.bind]
    | ok first =>
      cases g.endpointBounds e e.target with
      | error _ => simp only [Except.map, bind, Except.bind]
      | ok second =>
        cases e.exitPort with
        | none => rfl
        | some exit =>
          cases e.entryPort with
          | none => rfl
          | some entry => rfl

theorem frames_uncoloured (g : Graph) (c : LayoutConfig) : g.uncoloured.frames c = g.frames c := by
  have hlabels : g.uncoloured.subgraphLabels = g.subgraphLabels :=
    g.subgraphLabels_recast _ fun _ => rfl
  have hframe (label : String) : g.uncoloured.frame? label c = g.frame? label c := by
    have hplaced (n : Node) : n.uncoloured.isPlaced = n.isPlaced := rfl
    have hsubgraph (n : Node) : n.uncoloured.subgraph = n.subgraph := rfl
    have hmembers : g.uncoloured.membersOf label = (g.membersOf label).map Node.uncoloured :=
      g.membersOf_recast _ hplaced hsubgraph label
    simp only [frame?, hmembers, List.filterMap_map, List.map_map]
    rfl
  simp only [frames, hlabels, hframe]

def drawn (g : Graph) (c : LayoutConfig) : Scene where
  nodes := g.placedNodes.filterMap (·.drawn? c)
  edges := (List.range g.edges.length).filterMap fun i => (g.resolveEdge i c).toOption
  frames := g.frames c

theorem uncoloured_drawn (g : Graph) (c : LayoutConfig) :
    (g.uncoloured.drawn c).uncoloured = (g.drawn c).uncoloured := by
  have hnodes : (g.uncoloured.placedNodes.filterMap (·.drawn? c)).map NodeGeometry.uncoloured =
      (g.placedNodes.filterMap (·.drawn? c)).map NodeGeometry.uncoloured := by
    have hplaced : g.uncoloured.placedNodes = g.placedNodes.map Node.uncoloured :=
      g.placedNodes_recast _ fun _ => rfl
    rw [hplaced, List.filterMap_map, List.map_filterMap, List.map_filterMap]
    exact List.filterMap_congr fun n _ => n.uncoloured_drawn? c
  have hedges : ((List.range g.uncoloured.edges.length).filterMap fun i =>
        (g.uncoloured.resolveEdge i c).toOption).map EdgeGeometry.uncoloured =
      ((List.range g.edges.length).filterMap fun i =>
        (g.resolveEdge i c).toOption).map EdgeGeometry.uncoloured := by
    have hlength : g.uncoloured.edges.length = g.edges.length := List.length_map ..
    have hoption (r : Except GeometryError EdgeGeometry) :
        r.toOption.map EdgeGeometry.uncoloured =
          (r.map EdgeGeometry.uncoloured).toOption := by
      cases r <;> rfl
    rw [hlength, List.map_filterMap, List.map_filterMap]
    refine List.filterMap_congr fun i _ => ?_
    rw [hoption, hoption, uncoloured_resolveEdge]
  simp only [Scene.uncoloured, drawn, hnodes, hedges, frames_uncoloured]

/-- Graphs that differ only in colours have scenes that do. -/
theorem uncoloured_scene (hgh : g.uncoloured = h.uncoloured) (c : LayoutConfig) :
    (g.scene c).uncoloured = (h.scene c).uncoloured := by
  have hdrawn : (g.drawn c).uncoloured = (h.drawn c).uncoloured := by
    rw [← uncoloured_drawn g, ← uncoloured_drawn h, hgh]
  have hextent : (g.drawn c).extent c.margin = (h.drawn c).extent c.margin := by
    rw [← Scene.extent_uncoloured (g.drawn c), ← Scene.extent_uncoloured (h.drawn c), hdrawn]
  have hscene (g : Graph) : (g.scene c).uncoloured = { (g.drawn c).uncoloured with
      width := ((g.drawn c).extent c.margin).width
      height := ((g.drawn c).extent c.margin).height } := rfl
  rw [hscene, hscene, hdrawn, hextent]

/-- Graphs that differ only in colours do so when they are laid out. -/
theorem uncoloured_arrange (hgh : g.uncoloured = h.uncoloured) (c : LayoutConfig) :
    (g.arrange c).uncoloured = (h.arrange c).uncoloured := by
  have hsame : g.SameSkeleton h := by
    have hg : g.uncoloured.SameSkeleton g := .recast fun _ => rfl
    have hh : h.uncoloured.SameSkeleton h := .recast fun _ => rfl
    exact hg.symm.trans (hgh ▸ hh)
  have hunlaid (k : Graph) : k.uncoloured.unlaid = k.unlaid.uncoloured := by
    simp only [uncoloured, unlaid, recast_recast]
    rfl
  have hplacements (k : Graph) : k.uncoloured.placements = k.placements := by
    rw [placements, uncoloured, values_recast, List.map_map]
    rfl
  have hroutings (k : Graph) : k.uncoloured.routings = k.routings := by
    rw [routings, uncoloured, recast, List.map_map]
    rfl
  refine eq_of_unlaid ?_ ?_ ?_
  · rw [hunlaid, hunlaid, Layout.unlaid_arrange, Layout.unlaid_arrange, ← hunlaid, ← hunlaid, hgh]
  · rw [hplacements, hplacements, Layout.placements_arrange_congr hsame]
  · rw [hroutings, hroutings, Layout.routings_arrange_congr hsame]

end Graph

/-- Under any two themes a source has the same directive, the same graph but for the colours of nodes
and edges, and in every layout the same scene but for these colours. -/
theorem Source.theme_gives_colours_only (t u : Theme) (source : String) :
    (readWith t source).init = (readWith u source).init ∧
      (readWith t source).graph.uncoloured = (readWith u source).graph.uncoloured ∧
      ∀ c : LayoutConfig, (((readWith t source).graph.arrange c).scene c).uncoloured =
        (((readWith u source).graph.arrange c).scene c).uncoloured := by
  have hgraphs := uncoloured_readWith t u source
  refine ⟨?_, hgraphs, fun c => ?_⟩
  · rw [init_readWith, init_readWith]
  · exact Graph.uncoloured_scene (Graph.uncoloured_arrange hgraphs c) c

end Flowchart
