import Symbolrt.Lib.Folding

/-!
# Simulations between graphs

A graph simulates another when related nodes have related edges to related nodes.  Every
chain of the one graph is then matched by a chain of the other.
-/

namespace Folding

namespace Graph

variable {Node Edge OtherNode OtherEdge : Type*}

/-- Every edge from a related node is matched by an edge to a related node. -/
def IsSimulation (graph : Graph Node Edge) (other : Graph OtherNode OtherEdge)
    (nodes : Node → OtherNode → Prop) (edges : Edge → OtherEdge → Prop) : Prop :=
  ∀ edge ∈ graph.edges, ∀ node, nodes (graph.source edge) node →
    ∃ otherEdge ∈ other.edges, other.source otherEdge = node ∧ edges edge otherEdge ∧
      nodes (graph.target edge) (other.target otherEdge)

variable {graph : Graph Node Edge} {other : Graph OtherNode OtherEdge}
  {nodes : Node → OtherNode → Prop} {edges : Edge → OtherEdge → Prop}

theorem IsSimulation.chain (isSimulation : graph.IsSimulation other nodes edges) {node : Node}
    {otherNode : OtherNode} (related : nodes node otherNode) {chain : List Edge}
    (isChain : graph.IsChain node chain) :
    ∃ otherChain, other.IsChain otherNode otherChain ∧ List.Forall₂ edges chain otherChain ∧
      nodes (graph.endOf node chain) (other.endOf otherNode otherChain) := by
  induction chain generalizing node otherNode with
  | nil => exact ⟨[], trivial, List.Forall₂.nil, related⟩
  | cons edge chain induction =>
      obtain ⟨member, source, later⟩ := isChain
      rw [← source] at related
      obtain ⟨first, inOther, otherSource, matched, next⟩ :=
        isSimulation edge member otherNode related
      obtain ⟨rest, restChain, allMatched, ended⟩ := induction next later
      exact ⟨first :: rest, ⟨inOther, otherSource, restChain⟩,
        List.Forall₂.cons matched allMatched, ended⟩

theorem IsSimulation.mono {others : Edge → OtherEdge → Prop}
    (isSimulation : graph.IsSimulation other nodes edges)
    (implies : ∀ edge otherEdge, edges edge otherEdge → others edge otherEdge) :
    graph.IsSimulation other nodes others := by
  intro edge member node related
  obtain ⟨otherEdge, inOther, source, matched, target⟩ := isSimulation edge member node related
  exact ⟨otherEdge, inOther, source, implies edge otherEdge matched, target⟩

/-- A graph is simulated across one that lies between. -/
theorem IsSimulation.trans {LastNode LastEdge : Type*} {last : Graph LastNode LastEdge}
    {lastNodes : OtherNode → LastNode → Prop} {lastEdges : OtherEdge → LastEdge → Prop}
    (isSimulation : graph.IsSimulation other nodes edges)
    (next : other.IsSimulation last lastNodes lastEdges) :
    graph.IsSimulation last (fun node lastNode => ∃ between, nodes node between ∧
      lastNodes between lastNode) (fun edge lastEdge => ∃ between, edges edge between ∧
        lastEdges between lastEdge) := by
  rintro edge member lastNode ⟨between, related, lastRelated⟩
  obtain ⟨otherEdge, inOther, rfl, matched, targets⟩ := isSimulation edge member between related
  obtain ⟨lastEdge, inLast, source, lastMatched, lastTargets⟩ :=
    next otherEdge inOther lastNode lastRelated
  exact ⟨lastEdge, inLast, source, ⟨otherEdge, matched, lastMatched⟩,
    ⟨other.target otherEdge, targets, lastTargets⟩⟩

end Graph

end Folding
