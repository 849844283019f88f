import Flowchart.Proofs.Scene.Canvas
import Flowchart.Proofs.Scene.Dump
import Flowchart.Proofs.Scene.Texts
import Flowchart.Proofs.Source.Size

namespace Flowchart

namespace Source

/-- No text that is ever written has too many nodes, edges or lines. -/
theorem moderate_readWith (t : Theme) {source : String} (h : source.length < 2 ^ 56) :
    (readWith t source).graph.Moderate where
  nodes := (size_nodes_le t source).trans (h.le.trans (Nat.pow_le_pow_right (by decide) (by decide)))
  edges := by
    refine (length_edges_le t source).trans ?_
    exact (Nat.pow_le_pow_left h.le 2).trans_eq (by norm_num)
  lines e he text htext := by
    have hle := ((from_readWith t source).edges e he text htext).length_le
    rw [String.length_toList, String.length_toList] at hle
    have hlines := Label.length_lines_le text
    have hpowers : (2 : ℕ) ^ 56 ≤ 2 ^ 112 := Nat.pow_le_pow_right (by decide) (by decide)
    omega

end Source

namespace Diagram

variable {source : String} {base : Config}

/-- With the standard layout, nodes, frames and routes of a diagram are beside the origin and everything
is finite; an edge is so with its label just when there is room for the label. A drawing with room for
all labels is on its canvas altogether, if it is less than 2^27 wide and high. -/
theorem onCanvas_iff_hasRoom (hlength : source.length < 2 ^ 56)
    (hlayout : (ofSource source base).config.layout = {}) :
    (∀ n ∈ (ofSource source base).scene.nodes, n.bounds.InQuadrant) ∧
      (∀ f ∈ (ofSource source base).scene.frames, f.bounds.InQuadrant) ∧
      (∀ e ∈ (ofSource source base).scene.edges,
        (∀ r ∈ e.parts, r.isFinite = true) ∧ (∀ p ∈ e.route.points, p.InQuadrant) ∧
          (e.InQuadrant ↔ ∀ l ∈ e.label, e.HasRoom l (ofSource source base).graph.direction)) ∧
      ((ofSource source base).scene.width < Single.ofCount (2 ^ 27) →
        (ofSource source base).scene.height < Single.ofCount (2 ^ 27) →
        ((ofSource source base).scene.OnCanvas ↔ ∀ e ∈ (ofSource source base).scene.edges,
          ∀ l ∈ e.label, e.HasRoom l (ofSource source base).graph.direction)) := by
  obtain ⟨t, hgraph⟩ := exists_graph_ofSource source base
  rw [hlayout] at hgraph
  have hmoderate := Source.moderate_readWith t hlength
  rw [scene_ofSource, hlayout, hgraph, Layout.direction_arrange]
  have hnodes := fun n => Graph.inQuadrant_of_mem_nodes hmoderate (n := n)
  have hframes := fun f => Graph.inQuadrant_of_mem_frames hmoderate (f := f)
  have hedges := fun e => Graph.inQuadrant_of_mem_edges hmoderate (e := e)
  refine ⟨fun n hn => (hnodes n hn).2, fun f hf => (hframes f hf).2, fun e he => ?_, ?_⟩
  · obtain ⟨hbounded, hroute⟩ := hedges e he
    exact ⟨fun r hr => (hbounded r hr).isFinite, hroute⟩
  intro hwidth hheight
  have hmargin : Single.Is 24 ({} : LayoutConfig).margin := Single.is_literal 24 (by norm_num)
  constructor
  · intro hcanvas e he
    exact (hedges e he).2.2.1 (hcanvas.inQuadrant.2.2 e he)
  · intro hroom
    exact Scene.onCanvas_of_inQuadrant (fun n hn => (hnodes n hn).1) (fun f hf => (hframes f hf).1)
      (fun e he => (hedges e he).1) ⟨fun n hn => (hnodes n hn).2, fun f hf => (hframes f hf).2,
        fun e he => (hedges e he).2.2.2 (hroom e he)⟩ (Graph.canvas_scene _ _) hmargin
      hwidth hheight

/-- Labels of one and of two lines beside routes down the canvas. -/
theorem shortLabels_onCanvas :
    "A -->|yes| B\nA -->|no<br>no| C".length < 2 ^ 56 ∧
      (ofSource "A -->|yes| B\nA -->|no<br>no| C" {}).config.layout = {} ∧
      (ofSource "A -->|yes| B\nA -->|no<br>no| C" {}).scene.width < Single.ofCount (2 ^ 27) ∧
      (ofSource "A -->|yes| B\nA -->|no<br>no| C" {}).scene.height < Single.ofCount (2 ^ 27) ∧
      (ofSource "A -->|yes| B\nA -->|no<br>no| C" {}).scene.OnCanvas := by
  have hlength : "A -->|yes| B\nA -->|no<br>no| C".length < 2 ^ 56 := by decide +kernel
  have hinit : (Source.readWith ({} : Config).theme
      "A -->|yes| B\nA -->|no<br>no| C").init = none := by
    decide +kernel
  have hlayout : (ofSource "A -->|yes| B\nA -->|no<br>no| C" {}).config.layout = {} := by
    rw [config_ofSource_of_init hinit]
  have hwidth : (ofSource "A -->|yes| B\nA -->|no<br>no| C" {}).scene.width <
      Single.ofCount (2 ^ 27) := by
    decide +kernel
  have hheight : (ofSource "A -->|yes| B\nA -->|no<br>no| C" {}).scene.height <
      Single.ofCount (2 ^ 27) := by
    decide +kernel
  obtain ⟨-, -, -, hiff⟩ := onCanvas_iff_hasRoom hlength hlayout
  refine ⟨hlength, hlayout, hwidth, hheight, (hiff hwidth hheight).2 ?_⟩
  decide +kernel

/-- The segment of a long label begins to the left of the canvas, and so does the label. -/
theorem longLabel_cutOff :
    (ofSource "A -->|漢漢漢漢漢漢漢漢漢漢漢漢漢漢漢漢漢漢漢漢| B" {}).config.layout = {} ∧
      ∃ e ∈ (ofSource "A -->|漢漢漢漢漢漢漢漢漢漢漢漢漢漢漢漢漢漢漢漢| B" {}).scene.edges,
        e.labelSegment.start.x < 0.0 ∧ ∃ l ∈ e.label, l.bounds.x < 0.0 := by
  have hinit : (Source.readWith ({} : Config).theme
      "A -->|漢漢漢漢漢漢漢漢漢漢漢漢漢漢漢漢漢漢漢漢| B").init = none := by
    decide +kernel
  refine ⟨?_, by decide +kernel⟩
  rw [config_ofSource_of_init hinit]

end Diagram
end Flowchart
