import Mathlib.Data.Set.Card

/-!
# Folding a graph by the labels of its nodes

A graph with labelled nodes is folded by identifying the nodes with equal labels.  The
chains of edges from its root stay what they are exactly if no node with an outgoing edge
shares its label with another node.
-/

namespace Folding

structure Graph (Node Edge : Type*) where
  edges : Set Edge
  source : Edge → Node
  target : Edge → Node

namespace Graph

section Chains

variable {Node Edge Label : Type*} (graph : Graph Node Edge) {node : Node} {chain : List Edge}

/-- The edges lead on from the node one behind the other. -/
def IsChain : Node → List Edge → Prop
  | _, [] => True
  | node, edge :: chain =>
      edge ∈ graph.edges ∧ graph.source edge = node ∧ IsChain (graph.target edge) chain

/-- The node that a chain leads to. -/
def endOf : Node → List Edge → Node
  | node, [] => node
  | _, edge :: chain => endOf (graph.target edge) chain

def chains (root : Node) : Set (List Edge) := {chain | graph.IsChain root chain}

/-- Nodes with equal labels become one. -/
def fold (label : Node → Label) : Graph Label Edge where
  edges := graph.edges
  source edge := label (graph.source edge)
  target edge := label (graph.target edge)

/-- Only the kept edges are left. -/
def keep (kept : Set Edge) : Graph Node Edge := { graph with edges := kept }

theorem endOf_concat (edge : Edge) :
    graph.endOf node (chain ++ [edge]) = graph.target edge := by
  induction chain generalizing node with
  | nil => rfl
  | cons first chain induction => exact induction

theorem isChain_concat {edge : Edge} : graph.IsChain node (chain ++ [edge]) ↔
    graph.IsChain node chain ∧ edge ∈ graph.edges ∧
      graph.source edge = graph.endOf node chain := by
  induction chain generalizing node with
  | nil => simp [IsChain, endOf]
  | cons first chain induction =>
      have rest := @induction (graph.target first)
      constructor
      · rintro ⟨member, source, later⟩
        obtain ⟨isChain, last⟩ := rest.mp later
        exact ⟨⟨member, source, isChain⟩, last⟩
      · rintro ⟨⟨member, source, isChain⟩, last⟩
        exact ⟨member, source, rest.mpr ⟨isChain, last⟩⟩

variable {graph}

theorem IsChain.mem_edges (isChain : graph.IsChain node chain) :
    ∀ edge ∈ chain, edge ∈ graph.edges := by
  induction chain generalizing node with
  | nil => exact fun edge member => absurd member List.not_mem_nil
  | cons first chain induction =>
      intro edge member
      rcases List.mem_cons.mp member with rfl | later
      · exact isChain.1
      · exact induction isChain.2.2 edge later

theorem IsChain.keep_iff {kept : Set Edge} (subset : kept ⊆ graph.edges) :
    (graph.keep kept).IsChain node chain ↔
      graph.IsChain node chain ∧ ∀ edge ∈ chain, edge ∈ kept := by
  induction chain generalizing node with
  | nil => simp [IsChain]
  | cons first chain induction =>
      have rest := @induction (graph.target first)
      constructor
      · rintro ⟨member, source, later⟩
        obtain ⟨isChain, allKept⟩ := rest.mp later
        exact ⟨⟨subset member, source, isChain⟩, List.forall_mem_cons.mpr ⟨member, allKept⟩⟩
      · rintro ⟨⟨_, source, isChain⟩, allKept⟩
        obtain ⟨member, others⟩ := List.forall_mem_cons.mp allKept
        exact ⟨member, source, rest.mpr ⟨isChain, others⟩⟩

theorem endOf_fold (label : Node → Label) :
    (graph.fold label).endOf (label node) chain = label (graph.endOf node chain) := by
  induction chain generalizing node with
  | nil => rfl
  | cons first chain induction => exact induction

theorem IsChain.fold (isChain : graph.IsChain node chain) (label : Node → Label) :
    (graph.fold label).IsChain (label node) chain := by
  induction chain generalizing node with
  | nil => trivial
  | cons first chain induction =>
      obtain ⟨member, source, later⟩ := isChain
      exact ⟨member, congrArg label source, induction later⟩

end Chains

section Folded

variable {Node Edge Label : Type*} {graph : Graph Node Edge} {label : Node → Label} {root : Node}

/-- A node with an outgoing edge shares its label with no other node that is reached. -/
def Distinguishes (graph : Graph Node Edge) (label : Node → Label) (root : Node) : Prop :=
  ∀ chain ∈ graph.chains root, ∀ edge ∈ graph.edges,
    label (graph.source edge) = label (graph.endOf root chain) →
      graph.source edge = graph.endOf root chain

/-- Folding adds no chain exactly if the labels distinguish the nodes. -/
theorem chains_fold_iff :
    (graph.fold label).chains (label root) = graph.chains root ↔
      graph.Distinguishes label root := by
  constructor
  · intro same chain isChain edge member equal
    have longer : chain ++ [edge] ∈ (graph.fold label).chains (label root) :=
      ((graph.fold label).isChain_concat).mpr
        ⟨IsChain.fold isChain label, member, equal.trans (endOf_fold label).symm⟩
    rw [same] at longer
    exact (graph.isChain_concat.mp longer).2.2
  · intro distinguishes
    apply Set.Subset.antisymm _ (fun chain isChain => IsChain.fold isChain label)
    intro chain isChain
    induction chain using List.reverseRecOn with
    | nil => trivial
    | append_singleton chain edge induction =>
        obtain ⟨before, member, source⟩ := (graph.fold label).isChain_concat.mp isChain
        have earlier := induction before
        refine graph.isChain_concat.mpr ⟨earlier, member, ?_⟩
        exact distinguishes chain earlier edge member (source.trans (endOf_fold label))

/-- Sets of which one contains the other and that have as many elements are equal. -/
theorem eq_of_bijOn {First Second : Type*} {part whole : Set First}
    {images : Set Second} {forward other : First → Second} (subset : part ⊆ whole)
    (finite : part.Finite ∨ whole.Finite) (bijection : Set.BijOn forward part images)
    (otherBijection : Set.BijOn other whole images) : part = whole := by
  have wholeFinite : whole.Finite := by
    rcases finite with partFinite | wholeFinite
    · exact otherBijection.finite_iff_finite.mpr (bijection.finite_iff_finite.mp partFinite)
    · exact wholeFinite
  apply Set.eq_of_subset_of_ncard_le subset _ wholeFinite
  rw [bijection.ncard_eq, otherBijection.ncard_eq]

/-- The folded kept edges have the chains of the graph exactly if the labels distinguish the
nodes and every edge is kept. -/
theorem chains_kept_iff (reached : ∀ edge ∈ graph.edges, ∃ chain ∈ graph.chains root,
      graph.endOf root chain = graph.source edge)
    {kept : Set Edge} (subset : kept ⊆ graph.edges) :
    (graph.fold label).chains (label root) = graph.chains root ∧
        ((graph.fold label).keep kept).chains (label root) = graph.chains root ↔
      graph.Distinguishes label root ∧ kept = graph.edges := by
  rw [chains_fold_iff]
  apply and_congr_right
  intro distinguishes
  have same := chains_fold_iff.mpr distinguishes
  constructor
  · intro keptSame
    apply Set.Subset.antisymm subset
    intro edge member
    obtain ⟨chain, isChain, source⟩ := reached edge member
    have longer : chain ++ [edge] ∈ graph.chains root :=
      graph.isChain_concat.mpr ⟨isChain, member, source.symm⟩
    rw [← keptSame] at longer
    have allKept := (@IsChain.keep_iff _ _ (graph.fold label) _ _ _ subset).mp longer
    exact allKept.2 edge
      (List.mem_append_right _ (List.mem_singleton_self edge))
  · rintro rfl
    exact same

end Folded

/-- A walk takes at each label an arrow that leaves it, given with its position. -/
def IsWalk {Label Arrow : Type*} (leaving : Label → List Arrow) (next : Arrow → Label) :
    Label → List (Nat × Arrow) → Prop
  | _, [] => True
  | label, step :: walk =>
      (leaving label)[step.1]? = some step.2 ∧ IsWalk leaving next (next step.2) walk

section Walks

variable {Edge Label Arrow : Type*} [DecidableEq Edge] [DecidableEq Label]

/-- The position of an edge among those with its source, and its arrow. -/
def stepOf (source : Edge → Label) (arrow : Edge → Arrow) (edges : List Edge) (edge : Edge) :
    Nat × Arrow :=
  ((edges.filter (fun other => source edge = source other)).idxOf edge, arrow edge)

variable {graph : Graph Label Edge} {arrow : Edge → Arrow} {edges : List Edge}
  {leaving : Label → List Arrow} {next : Arrow → Label}

/-- If the arrows that leave a label are those of its edges, walks are chains. -/
theorem bijOn_walks (nodup : edges.Nodup) (listed : ∀ edge, edge ∈ graph.edges ↔ edge ∈ edges)
    (leavingEq : ∀ label, leaving label =
      (edges.filter (fun edge => label = graph.source edge)).map arrow)
    (nextEq : ∀ edge ∈ edges, next (arrow edge) = graph.target edge) (root : Label) :
    Set.BijOn (List.map (stepOf graph.source arrow edges)) (graph.chains root)
      {walk | IsWalk leaving next root walk} := by
  have atPosition : ∀ edge ∈ edges,
      (leaving (graph.source edge))[(stepOf graph.source arrow edges edge).1]? =
        some (arrow edge) := by
    intro edge member
    have among : edge ∈ edges.filter (fun other => graph.source edge = graph.source other) :=
      List.mem_filter.mpr ⟨member, decide_eq_true rfl⟩
    rw [leavingEq, List.getElem?_map, stepOf, List.getElem?_idxOf among]
    rfl
  refine ⟨?_, ?_, ?_⟩
  · intro chain isChain
    induction chain generalizing root with
    | nil => trivial
    | cons edge chain induction =>
        obtain ⟨member, rfl, later⟩ := isChain
        have inEdges := (listed edge).mp member
        refine ⟨atPosition edge inEdges, ?_⟩
        have rest := induction (graph.target edge) later
        rw [← nextEq edge inEdges] at rest
        exact rest
  · intro chain isChain other isOther same
    induction chain generalizing root other with
    | nil => exact (List.map_eq_nil_iff.mp same.symm).symm
    | cons edge chain induction =>
        cases other with
        | nil => cases same
        | cons otherEdge other =>
            obtain ⟨member, rfl, later⟩ := isChain
            obtain ⟨otherMember, sameSource, otherLater⟩ := isOther
            obtain ⟨step, rest⟩ := List.cons.inj same
            have positions := (Prod.mk.inj step).1
            rw [sameSource] at positions
            have among : edge ∈ edges.filter
                (fun other => graph.source edge = graph.source other) :=
              List.mem_filter.mpr ⟨(listed edge).mp member, decide_eq_true rfl⟩
            obtain rfl := (List.idxOf_inj among).mp positions
            rw [induction (graph.target edge) later otherLater rest]
  · intro walk isWalk
    induction walk generalizing root with
    | nil => exact ⟨[], trivial, rfl⟩
    | cons step walk induction =>
        obtain ⟨taken, later⟩ := isWalk
        rw [leavingEq, List.getElem?_map] at taken
        obtain ⟨edge, found, isArrow⟩ := Option.map_eq_some_iff.mp taken
        obtain ⟨inEdges, source⟩ := List.mem_filter.mp (List.mem_of_getElem? found)
        have isSource : root = graph.source edge := of_decide_eq_true source
        rw [← isArrow, nextEq edge inEdges] at later
        obtain ⟨chain, isChain, rest⟩ := induction (graph.target edge) later
        refine ⟨edge :: chain, ⟨(listed edge).mpr inEdges, isSource.symm, isChain⟩, ?_⟩
        obtain ⟨inside, isEdge⟩ := List.getElem?_eq_some_iff.mp found
        have position : (stepOf graph.source arrow edges edge).1 = step.1 := by
          rw [stepOf, ← isSource, ← isEdge]
          exact (nodup.filter _).idxOf_getElem _ _
        rw [List.map_cons, rest]
        congr 1
        exact Prod.ext position isArrow

end Walks

end Graph

end Folding
