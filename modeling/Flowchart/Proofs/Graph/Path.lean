import Flowchart.Graph.Basic
import Flowchart.Proofs.Graph.Walk

namespace Flowchart

def Graph.Leads (g : Graph) (a b : String) : Prop :=
  a ∈ g.nodes.keys ∧ b ∈ g.nodes.keys ∧ ∃ e ∈ g.edges, e.source = a ∧ e.target = b

structure Graph.PathTo (g : Graph) (id : String) (path : List String) : Prop where
  nodes : ∀ a ∈ path, a ∈ g.nodes.keys
  chain : path.IsChain g.Leads
  last : path.getLast? = some id

/-- The longest directed path that ends at a node has so many edges, and no node twice. -/
def Graph.LongestPathTo (g : Graph) (id : String) (k : Nat) : Prop :=
  (∃ path, g.PathTo id path ∧ path.Nodup ∧ path.length = k + 1) ∧
    ∀ path, g.PathTo id path → path.length ≤ k + 1

theorem longestPathTo_of_isDepth {g : Graph} {id : String} {k : Nat} (hid : id ∈ g.nodes.keys)
    (h : IsDepth g.Leads id k) : g.LongestPathTo id k := by
  constructor
  · obtain ⟨p, hchain, hlast, hlen, hnodup⟩ := h.exists_simple_path
    refine ⟨p, ⟨?_, hchain, hlast⟩, hnodup, hlen⟩
    intro a ha
    rcases (path_reaches_last hchain hlast a ha).cases_head with rfl | ⟨b, hab, _⟩
    · exact hid
    · exact hab.1
  · intro p hp
    have hle := h.2 _ (WalkTo.of_path hp.chain hp.last)
    omega

end Flowchart
