import Symbolrt.Lib.Folding

/-!
# Interleavings of two graphs

Two components move along their edges, each alone or both together.  The joint chains
project to chains of the components, and two chains with one order of their moves are the
projections of a joint chain.
-/

namespace Folding

/-- Who moves, and along which edges. -/
inductive Joint (Edge1 Edge2 : Type*) where
  | first (edge1 : Edge1)
  | second (edge2 : Edge2)
  | both (edge1 : Edge1) (edge2 : Edge2)

namespace Joint

variable {Edge1 Edge2 : Type*}

/-- The edge of the first component if it moves. -/
def edge1 : Joint Edge1 Edge2 → Option Edge1
  | .first edge1 => some edge1
  | .second _ => none
  | .both edge1 _ => some edge1

/-- The edge of the second component if it moves. -/
def edge2 : Joint Edge1 Edge2 → Option Edge2
  | .first _ => none
  | .second edge2 => some edge2
  | .both _ edge2 => some edge2

end Joint

namespace Graph

section Optional

variable {Node Edge Item : Type*} (graph : Graph Node Edge)

/-- If there is an edge, it leads on from the node. -/
def Leaves (node : Node) (edge : Option Edge) : Prop :=
  ∀ taken ∈ edge, taken ∈ graph.edges ∧ graph.source taken = node

/-- The node after an edge, if there is one. -/
def after (node : Node) (edge : Option Edge) : Node := edge.elim node graph.target

variable {graph} {node : Node} (edgeOf : Item → Option Edge) (item : Item) (items : List Item)

theorem isChain_filterMap_cons : graph.IsChain node ((item :: items).filterMap edgeOf) ↔
    graph.Leaves node (edgeOf item) ∧
      graph.IsChain (graph.after node (edgeOf item)) (items.filterMap edgeOf) := by
  rw [List.filterMap_cons]
  cases edgeOf item with
  | none =>
      have noEdge : graph.Leaves node none :=
        fun taken impossible => absurd impossible (Option.not_mem_none taken)
      exact ⟨fun chain => ⟨noEdge, chain⟩, And.right⟩
  | some edge =>
      constructor
      · rintro ⟨member, source, later⟩
        exact ⟨fun taken isEdge => Option.some.inj isEdge ▸ ⟨member, source⟩, later⟩
      · rintro ⟨leaves, later⟩
        obtain ⟨member, source⟩ := leaves edge rfl
        exact ⟨member, source, later⟩

theorem endOf_filterMap_cons : graph.endOf node ((item :: items).filterMap edgeOf) =
    graph.endOf (graph.after node (edgeOf item)) (items.filterMap edgeOf) := by
  rw [List.filterMap_cons]
  cases edgeOf item <;> rfl

end Optional

section Interleave

variable {Node1 Edge1 Node2 Edge2 : Type*} (graph1 : Graph Node1 Edge1)
  (graph2 : Graph Node2 Edge2) (allowed : Set (Joint Edge1 Edge2))

/-- The pair of nodes after a joint move. -/
def afterBoth (pair : Node1 × Node2) (joint : Joint Edge1 Edge2) : Node1 × Node2 :=
  (graph1.after pair.1 joint.edge1, graph2.after pair.2 joint.edge2)

/-- The allowed joint moves at the pairs where they can be made. -/
def interleave : Graph (Node1 × Node2) ((Node1 × Node2) × Joint Edge1 Edge2) where
  edges := {edge | edge.2 ∈ allowed ∧ graph1.Leaves edge.1.1 edge.2.edge1 ∧
    graph2.Leaves edge.1.2 edge.2.edge2}
  source := Prod.fst
  target edge := graph1.afterBoth graph2 edge.1 edge.2

/-- The joint moves with the pairs where they are made. -/
def place (pair : Node1 × Node2) :
    List (Joint Edge1 Edge2) → List ((Node1 × Node2) × Joint Edge1 Edge2)
  | [] => []
  | joint :: joints => (pair, joint) :: place (graph1.afterBoth graph2 pair joint) joints

variable {graph1 graph2 allowed} {pair : Node1 × Node2}

/-- A joint chain is the list of its moves, placed. -/
theorem eq_place {chain : List ((Node1 × Node2) × Joint Edge1 Edge2)}
    (isChain : (graph1.interleave graph2 allowed).IsChain pair chain) :
    chain = graph1.place graph2 pair (chain.map Prod.snd) := by
  induction chain generalizing pair with
  | nil => rfl
  | cons edge chain induction =>
      obtain ⟨_, rfl, later⟩ := isChain
      exact congrArg (edge :: ·) (induction later)

/-- Placed moves are a joint chain exactly if they are allowed and the moves of each
component are a chain. -/
theorem isChain_place_iff {joints : List (Joint Edge1 Edge2)} :
    (graph1.interleave graph2 allowed).IsChain pair (graph1.place graph2 pair joints) ↔
      (∀ joint ∈ joints, joint ∈ allowed) ∧
        graph1.IsChain pair.1 (joints.filterMap Joint.edge1) ∧
          graph2.IsChain pair.2 (joints.filterMap Joint.edge2) := by
  induction joints generalizing pair with
  | nil =>
      have noJoint : ∀ joint ∈ ([] : List (Joint Edge1 Edge2)), joint ∈ allowed :=
        fun joint impossible => absurd impossible List.not_mem_nil
      exact ⟨fun _ => ⟨noJoint, trivial, trivial⟩, fun _ => trivial⟩
  | cons joint joints induction =>
      rw [isChain_filterMap_cons, isChain_filterMap_cons, List.forall_mem_cons]
      constructor
      · rintro ⟨⟨isAllowed, leaves1, leaves2⟩, _, later⟩
        obtain ⟨allAllowed, chain1, chain2⟩ := induction.mp later
        exact ⟨⟨isAllowed, allAllowed⟩, ⟨leaves1, chain1⟩, ⟨leaves2, chain2⟩⟩
      · rintro ⟨⟨isAllowed, allAllowed⟩, ⟨leaves1, chain1⟩, ⟨leaves2, chain2⟩⟩
        exact ⟨⟨isAllowed, leaves1, leaves2⟩, rfl,
          induction.mpr ⟨allAllowed, chain1, chain2⟩⟩

theorem endOf_place (joints : List (Joint Edge1 Edge2)) :
    (graph1.interleave graph2 allowed).endOf pair (graph1.place graph2 pair joints) =
      (graph1.endOf pair.1 (joints.filterMap Joint.edge1),
        graph2.endOf pair.2 (joints.filterMap Joint.edge2)) := by
  induction joints generalizing pair with
  | nil => rfl
  | cons joint joints induction =>
      rw [endOf_filterMap_cons, endOf_filterMap_cons]
      exact induction

end Interleave

end Graph

end Folding
