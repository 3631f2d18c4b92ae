import Symbolrt.Lib.Folding

/-!
# Two graphs joined by a bridge

One edge leads from a node of the first graph to a node of the second one, and none leads
back.  A chain stays in the first graph or crosses the bridge once.
-/

namespace Folding

/-- The edges of the first graph, the bridge, and the edges of the second graph. -/
inductive Passage (Edge1 Edge2 : Type*) where
  | before (edge1 : Edge1)
  | across
  | behind (edge2 : Edge2)

namespace Graph

variable {Node1 Edge1 Node2 Edge2 : Type*} (graph1 : Graph Node1 Edge1)
  (graph2 : Graph Node2 Edge2) (exit : Node1) (entry : Node2)

/-- The two graphs with a bridge from the exit to the entry. -/
def bridge : Graph (Node1 ⊕ Node2) (Passage Edge1 Edge2) where
  edges := {passage | ∃ edge1 ∈ graph1.edges, passage = .before edge1} ∪
    ({.across} ∪ {passage | ∃ edge2 ∈ graph2.edges, passage = .behind edge2})
  source
    | .before edge1 => .inl (graph1.source edge1)
    | .across => .inl exit
    | .behind edge2 => .inr (graph2.source edge2)
  target
    | .before edge1 => .inl (graph1.target edge1)
    | .across => .inr entry
    | .behind edge2 => .inr (graph2.target edge2)

variable {graph1 graph2 exit entry}

theorem before_mem_bridge {edge1 : Edge1} :
    .before edge1 ∈ (graph1.bridge graph2 exit entry).edges ↔ edge1 ∈ graph1.edges := by
  constructor
  · rintro (⟨other, member, same⟩ | isAcross | ⟨other, _, same⟩)
    · cases same
      exact member
    · cases isAcross
    · cases same
  · exact fun member => Or.inl ⟨edge1, member, rfl⟩

theorem across_mem_bridge : .across ∈ (graph1.bridge graph2 exit entry).edges :=
  Or.inr (Or.inl rfl)

theorem behind_mem_bridge {edge2 : Edge2} :
    .behind edge2 ∈ (graph1.bridge graph2 exit entry).edges ↔ edge2 ∈ graph2.edges := by
  constructor
  · rintro (⟨other, _, same⟩ | isAcross | ⟨other, member, same⟩)
    · cases same
    · cases isAcross
    · cases same
      exact member
  · exact fun member => Or.inr (Or.inr ⟨edge2, member, rfl⟩)

/-- Behind the bridge a chain is one of the second graph. -/
theorem isChain_behind_iff {node : Node2} {chain : List (Passage Edge1 Edge2)} :
    (graph1.bridge graph2 exit entry).IsChain (.inr node) chain ↔
      ∃ chain2, graph2.IsChain node chain2 ∧ chain = chain2.map .behind := by
  constructor
  · intro isChain
    induction chain generalizing node with
    | nil => exact ⟨[], trivial, rfl⟩
    | cons passage chain induction =>
        obtain ⟨member, source, later⟩ := isChain
        cases passage with
        | before edge1 => cases source
        | across => cases source
        | behind edge2 =>
            obtain ⟨chain2, isChain2, rfl⟩ := induction later
            exact ⟨edge2 :: chain2,
              ⟨behind_mem_bridge.mp member, Sum.inr.inj source, isChain2⟩, rfl⟩
  · rintro ⟨chain2, isChain2, rfl⟩
    induction chain2 generalizing node with
    | nil => trivial
    | cons edge2 chain2 induction =>
        obtain ⟨member, source, later⟩ := isChain2
        exact ⟨behind_mem_bridge.mpr member, congrArg Sum.inr source, induction later⟩

/-- A chain of the first graph leads to what follows at its end. -/
theorem IsChain.before_append {node : Node1} {chain1 : List Edge1}
    {rest : List (Passage Edge1 Edge2)} (isChain1 : graph1.IsChain node chain1)
    (later : (graph1.bridge graph2 exit entry).IsChain (.inl (graph1.endOf node chain1)) rest) :
    (graph1.bridge graph2 exit entry).IsChain (.inl node) (chain1.map .before ++ rest) := by
  induction chain1 generalizing node with
  | nil => exact later
  | cons edge1 chain1 induction =>
      obtain ⟨member, source, isChain1⟩ := isChain1
      exact ⟨before_mem_bridge.mpr member, congrArg Sum.inl source, induction isChain1 later⟩

/-- In front of the bridge a chain is one of the first graph, or it goes to the exit, across
the bridge, and on through the second graph. -/
theorem isChain_before_iff {node : Node1} {chain : List (Passage Edge1 Edge2)} :
    (graph1.bridge graph2 exit entry).IsChain (.inl node) chain ↔
      (∃ chain1, graph1.IsChain node chain1 ∧ chain = chain1.map .before) ∨
        ∃ chain1 chain2, graph1.IsChain node chain1 ∧ graph1.endOf node chain1 = exit ∧
          graph2.IsChain entry chain2 ∧
            chain = chain1.map .before ++ .across :: chain2.map .behind := by
  constructor
  · intro isChain
    induction chain generalizing node with
    | nil => exact Or.inl ⟨[], trivial, rfl⟩
    | cons passage chain induction =>
        obtain ⟨member, source, later⟩ := isChain
        cases passage with
        | before edge1 =>
            have edge := before_mem_bridge.mp member
            have isSource := Sum.inl.inj source
            rcases induction later with ⟨chain1, isChain1, rfl⟩ |
              ⟨chain1, chain2, isChain1, ends, isChain2, rfl⟩
            · exact Or.inl ⟨edge1 :: chain1, ⟨edge, isSource, isChain1⟩, rfl⟩
            · exact Or.inr ⟨edge1 :: chain1, chain2, ⟨edge, isSource, isChain1⟩, ends,
                isChain2, rfl⟩
        | across =>
            obtain ⟨chain2, isChain2, rfl⟩ := isChain_behind_iff.mp later
            exact Or.inr ⟨[], chain2, trivial, (Sum.inl.inj source).symm, isChain2, rfl⟩
        | behind edge2 => cases source
  · rintro (⟨chain1, isChain1, rfl⟩ | ⟨chain1, chain2, isChain1, ends, isChain2, rfl⟩)
    · have whole : (graph1.bridge graph2 exit entry).IsChain (.inl node)
          (chain1.map .before ++ []) := isChain1.before_append trivial
      rw [List.append_nil] at whole
      exact whole
    · apply isChain1.before_append
      exact ⟨across_mem_bridge, congrArg Sum.inl ends.symm,
        isChain_behind_iff.mpr ⟨chain2, isChain2, rfl⟩⟩

end Graph

end Folding
