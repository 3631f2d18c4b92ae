import Symbolrt.SymbolicExecution.FreshParameters
import Symbolrt.SymbolicExecution.TranslatedTestTrees

/-!
# The paths of test cases

Locations of a test case are states of the test tree that have the same label.  Its
sequences of transitions are the root paths of the tree exactly if the labels distinguish
the states that have transitions, and the keys distinguish the transitions.
-/

namespace Symbolrt

open SynchronousProduct SymbolicExecution TestCaseSelection TestTreeTransformation

/-- The created transition carries what the one of the tree carries, and the path condition
of its target. -/
structure CarriesOver (testTree : SymbolicExecutionTree) (symbolicTransition : SymbolicTransition)
    (transition : Transition) : Prop where
  name : transition.action.name = symbolicTransition.symbolicAction.action.name
  type : transition.action.type = symbolicTransition.symbolicAction.action.type
  parameters : transition.action.parameters = symbolicTransition.symbolicAction.paramIds
  dataGuard : ∃ target, testTree.getState symbolicTransition.targetZSES = some target ∧
    transition.dataGuard.text = target.pathCondition
  clockGuard : transition.clockGuard = symbolicTransition.clockGuard
  clockAssignments : transition.clockAssignments = symbolicTransition.clockAssignments
  deadline : transition.deadline = symbolicTransition.deadline

def rootPaths (testTree : SymbolicExecutionTree) : Set (List SymbolicTransition) :=
  {path | ∃ reference, RootPath testTree path reference}

/-- The sequences of transitions from a location, each transition with its position among
those that leave the same location. -/
def sequencesFrom (leaving : String → List Transition) (label : String) :
    Set (List (Nat × Transition)) :=
  {sequence | Folding.Graph.IsWalk leaving Transition.target label sequence}

def PathsCorrespond (testTree : SymbolicExecutionTree) (leaving : String → List Transition)
    (label : String) : Prop :=
  ∃ correspond, Set.BijOn correspond (rootPaths testTree) (sequencesFrom leaving label) ∧
    ∀ path ∈ rootPaths testTree,
      List.Forall₂ (CarriesOver testTree) path ((correspond path).map Prod.snd)

/-- The transitions of a model that leave a location, as the map of the model holds them. -/
def leavingInMap (order : IterationOrder) (testCase : TIOSTS) (label : String) :
    List Transition :=
  (testCase.getTransitions order).filter (fun transition => label = transition.source)

/-- The sequences correspond to the root paths in both views of the test case. -/
structure PreservesTree (order : IterationOrder) (testTree : SymbolicExecutionTree)
    (testCase : TIOSTS) (label : String) : Prop where
  initialLocation : testCase.initialLocation = some label
  outgoing : PathsCorrespond testTree testCase.outOf label
  stored : PathsCorrespond testTree (leavingInMap order testCase) label

/-- No state with transitions shares the label of its location with another state. -/
def DistinguishesStates (testTree : SymbolicExecutionTree) : Prop :=
  ∀ reference node, testTree.getNode reference = some node → node.childrenTransitions ≠ [] →
    ∀ other otherNode, testTree.getNode other = some otherNode →
      otherNode.state.location.label = node.state.location.label → other = reference

/-- The labels of the source and the target with the name of the action between them. -/
def edgeKey (testTree : SymbolicExecutionTree) (symbolicTransition : SymbolicTransition) :
    String :=
  testTree.labelOf symbolicTransition.sourceZSES ++ "#" ++
    symbolicTransition.symbolicAction.action.name ++ "#" ++
      testTree.labelOf symbolicTransition.targetZSES

/-- No two transitions of the tree have the same key. -/
def DistinguishesTransitions (testTree : SymbolicExecutionTree) : Prop :=
  ∀ reference node, testTree.getNode reference = some node →
    ∀ symbolicTransition ∈ node.childrenTransitions,
      ∀ other otherNode, testTree.getNode other = some otherNode →
        ∀ otherTransition ∈ otherNode.childrenTransitions,
          edgeKey testTree symbolicTransition = edgeKey testTree otherTransition →
            symbolicTransition = otherTransition

theorem distinguishesStates_iff_listed (testTree : SymbolicExecutionTree) :
    (∀ entry ∈ testTree.symbolicStates.zipIdx, entry.1.childrenTransitions ≠ [] →
      ∀ other ∈ testTree.symbolicStates.zipIdx,
        other.1.state.location.label = entry.1.state.location.label → other.2 = entry.2) ↔
      DistinguishesStates testTree := by
  constructor
  · intro distinguishes reference node found hasChildren other otherNode otherFound
    exact distinguishes (node, reference) (List.mk_mem_zipIdx_iff_getElem?.mpr found) hasChildren
      (otherNode, other) (List.mk_mem_zipIdx_iff_getElem?.mpr otherFound)
  · rintro distinguishes ⟨node, reference⟩ listed hasChildren ⟨otherNode, other⟩ otherListed
    exact distinguishes reference node (List.mk_mem_zipIdx_iff_getElem?.mp listed) hasChildren other
      otherNode (List.mk_mem_zipIdx_iff_getElem?.mp otherListed)

instance (testTree : SymbolicExecutionTree) : Decidable (DistinguishesStates testTree) :=
  decidable_of_iff _ (distinguishesStates_iff_listed testTree)

theorem distinguishesTransitions_iff_listed (testTree : SymbolicExecutionTree) :
    (∀ node ∈ testTree.symbolicStates, ∀ symbolicTransition ∈ node.childrenTransitions,
      ∀ otherNode ∈ testTree.symbolicStates, ∀ otherTransition ∈ otherNode.childrenTransitions,
        edgeKey testTree symbolicTransition = edgeKey testTree otherTransition →
          symbolicTransition = otherTransition) ↔ DistinguishesTransitions testTree := by
  constructor
  · intro distinguishes reference node found symbolicTransition member other otherNode otherFound
    exact distinguishes node (List.mem_of_getElem? found) symbolicTransition member otherNode
      (List.mem_of_getElem? otherFound)
  · intro distinguishes node listed symbolicTransition member otherNode otherListed
    obtain ⟨reference, found⟩ := List.getElem?_of_mem listed
    obtain ⟨other, otherFound⟩ := List.getElem?_of_mem otherListed
    exact distinguishes reference node found symbolicTransition member other otherNode otherFound

instance (testTree : SymbolicExecutionTree) : Decidable (DistinguishesTransitions testTree) :=
  decidable_of_iff _ (distinguishesTransitions_iff_listed testTree)

section Paths

variable {zset testTree : SymbolicExecutionTree} {acceptZSES root copy : Nat}
  {beside : SymbolicNode → SymbolicTransition → List SymbolicTransition}
  {path : List SymbolicTransition} {references : List Nat}

/-- A test tree with the list of its states. -/
structure ListsStates (zset testTree : SymbolicExecutionTree) (acceptZSES : Nat)
    (beside : SymbolicNode → SymbolicTransition → List SymbolicTransition) (root copy : Nat)
    (path : List SymbolicTransition) (references : List Nat) : Prop where
  initial : testTree.initialZSES = some copy
  copies : CopiesPath zset testTree acceptZSES beside root none copy path references
  only : references.Perm (List.range testTree.next)

namespace ListsStates

theorem mem_iff (lists : ListsStates zset testTree acceptZSES beside root copy path references)
    {reference : Nat} :
    reference ∈ references ↔ ∃ node, testTree.getNode reference = some node := by
  rw [lists.only.mem_iff, List.mem_range]
  constructor
  · exact SymbolicExecutionTree.exists_getNode
  · rintro ⟨node, found⟩
    exact SymbolicExecutionTree.lt_next_of_getNode found

theorem mem_edgesAt_iff
    (lists : ListsStates zset testTree acceptZSES beside root copy path references)
    {edge : SymbolicTransition} : edge ∈ testTree.edgesAt references ↔
      ∃ reference node, testTree.getNode reference = some node ∧
        edge ∈ node.childrenTransitions := by
  rw [SymbolicExecutionTree.edgesAt, List.mem_flatMap]
  constructor
  · rintro ⟨reference, listed, member⟩
    obtain ⟨node, found⟩ := lists.mem_iff.mp listed
    rw [childrenAt_eq found] at member
    exact ⟨reference, node, found, member⟩
  · rintro ⟨reference, node, found, member⟩
    refine ⟨reference, lists.mem_iff.mpr ⟨node, found⟩, ?_⟩
    rw [childrenAt_eq found]
    exact member

theorem source_eq (lists : ListsStates zset testTree acceptZSES beside root copy path references)
    {reference : Nat} {node : SymbolicNode} (found : testTree.getNode reference = some node)
    {edge : SymbolicTransition} (member : edge ∈ node.childrenTransitions) :
    edge.sourceZSES = reference := by
  apply sources_copies lists.copies reference (lists.mem_iff.mpr ⟨node, found⟩)
  rw [childrenAt_eq found]
  exact member

theorem mem_edges_iff
    (lists : ListsStates zset testTree acceptZSES beside root copy path references)
    {edge : SymbolicTransition} :
    edge ∈ (treeGraph testTree).edges ↔ edge ∈ testTree.edgesAt references := by
  rw [lists.mem_edgesAt_iff]
  constructor
  · intro member
    have below : edge ∈ testTree.childrenAt edge.sourceZSES := member
    cases found : testTree.getNode edge.sourceZSES with
    | none =>
        rw [SymbolicExecutionTree.childrenAt, found] at below
        cases below
    | some node =>
        rw [childrenAt_eq found] at below
        exact ⟨edge.sourceZSES, node, found, below⟩
  · rintro ⟨reference, node, found, member⟩
    exact (TestTreeTransformation.mem_edges_iff found (lists.source_eq found member)).mpr member

theorem edgesAt_nodup
    (lists : ListsStates zset testTree acceptZSES beside root copy path references) :
    (testTree.edgesAt references).Nodup := by
  have targets := (targets_copies lists.copies).nodup_iff.mpr
    (lists.only.nodup_iff.mpr List.nodup_range)
  exact (List.nodup_cons.mp targets).2.of_map

theorem target_found
    (lists : ListsStates zset testTree acceptZSES beside root copy path references)
    {edge : SymbolicTransition} (member : edge ∈ testTree.edgesAt references) :
    ∃ target, testTree.getState edge.targetZSES = some target := by
  have listed : edge.targetZSES ∈ references := by
    apply (targets_copies lists.copies).subset
    exact List.mem_cons_of_mem copy (List.mem_map_of_mem member)
  obtain ⟨node, found⟩ := lists.mem_iff.mp listed
  exact ⟨node.state, congrArg (Option.map SymbolicNode.state) found⟩

theorem isChain_of_rootPath
    (lists : ListsStates zset testTree acceptZSES beside root copy path references)
    {symbolicPath : List SymbolicTransition} {reference : Nat}
    (isPath : RootPath testTree symbolicPath reference) :
    (treeGraph testTree).IsChain copy symbolicPath ∧
      (treeGraph testTree).endOf copy symbolicPath = reference := by
  induction isPath with
  | root isRoot =>
      rw [lists.initial] at isRoot
      exact ⟨trivial, Option.some.inj isRoot⟩
  | step _ found member induction =>
      obtain ⟨isChain, ends⟩ := induction
      have source := lists.source_eq found member
      refine ⟨(treeGraph testTree).isChain_concat.mpr ⟨isChain, ?_, source.trans ends.symm⟩,
        (treeGraph testTree).endOf_concat _⟩
      exact (TestTreeTransformation.mem_edges_iff found source).mpr member

theorem rootPath_of_isChain
    (lists : ListsStates zset testTree acceptZSES beside root copy path references)
    {symbolicPath : List SymbolicTransition}
    (isChain : (treeGraph testTree).IsChain copy symbolicPath) :
    RootPath testTree symbolicPath ((treeGraph testTree).endOf copy symbolicPath) := by
  induction symbolicPath using List.reverseRecOn with
  | nil => exact RootPath.root lists.initial
  | append_singleton symbolicPath edge induction =>
      obtain ⟨before, member, source⟩ := (treeGraph testTree).isChain_concat.mp isChain
      obtain ⟨reference, node, found, below⟩ :=
        lists.mem_edgesAt_iff.mp (lists.mem_edges_iff.mp member)
      have isSource : (treeGraph testTree).endOf copy symbolicPath = reference :=
        source.symm.trans (lists.source_eq found below)
      have earlier := induction before
      rw [isSource] at earlier
      rw [(treeGraph testTree).endOf_concat]
      exact RootPath.step earlier found below

theorem rootPaths_eq
    (lists : ListsStates zset testTree acceptZSES beside root copy path references) :
    rootPaths testTree = (treeGraph testTree).chains copy := by
  ext symbolicPath
  constructor
  · rintro ⟨reference, isPath⟩
    exact (lists.isChain_of_rootPath isPath).1
  · intro isChain
    exact ⟨_, lists.rootPath_of_isChain isChain⟩

theorem exists_chain
    (lists : ListsStates zset testTree acceptZSES beside root copy path references)
    {reference : Nat} {node : SymbolicNode} (found : testTree.getNode reference = some node) :
    ∃ chain ∈ (treeGraph testTree).chains copy,
      (treeGraph testTree).endOf copy chain = reference :=
  reached_copies lists.copies reference (lists.mem_iff.mpr ⟨node, found⟩)

theorem exists_end
    (lists : ListsStates zset testTree acceptZSES beside root copy path references)
    {chain : List SymbolicTransition} (isChain : (treeGraph testTree).IsChain copy chain) :
    ∃ node, testTree.getNode ((treeGraph testTree).endOf copy chain) = some node := by
  have isPath := lists.rootPath_of_isChain isChain
  generalize (treeGraph testTree).endOf copy chain = reference at isPath ⊢
  cases isPath with
  | root isRoot =>
      cases lists.initial.symm.trans isRoot
      exact exists_copy lists.copies
  | step _ found below =>
      obtain ⟨target, isTarget⟩ := lists.target_found
        (lists.mem_edgesAt_iff.mpr ⟨_, _, found, below⟩)
      obtain ⟨node, nodeFound, _⟩ := Option.map_eq_some_iff.mp isTarget
      exact ⟨node, nodeFound⟩

theorem distinguishesStates_iff
    (lists : ListsStates zset testTree acceptZSES beside root copy path references) :
    DistinguishesStates testTree ↔ (treeGraph testTree).Distinguishes testTree.labelOf copy := by
  constructor
  · intro distinguishes chain isChain edge member same
    obtain ⟨reference, node, found, below⟩ :=
      lists.mem_edgesAt_iff.mp (lists.mem_edges_iff.mp member)
    have isSource : (treeGraph testTree).source edge = reference := lists.source_eq found below
    obtain ⟨otherNode, otherFound⟩ := lists.exists_end isChain
    rw [isSource, labelOf_eq found, labelOf_eq otherFound] at same
    rw [isSource]
    exact (distinguishes reference node found (List.ne_nil_of_mem below) _ otherNode otherFound
      same.symm).symm
  · intro distinguishes reference node found hasChildren other otherNode otherFound same
    obtain ⟨edge, rest, children⟩ := List.exists_cons_of_ne_nil hasChildren
    have below : edge ∈ node.childrenTransitions := by
      rw [children]
      exact List.mem_cons_self
    have source := lists.source_eq found below
    obtain ⟨chain, isChain, ends⟩ := lists.exists_chain otherFound
    have isSource := distinguishes chain isChain edge
      ((TestTreeTransformation.mem_edges_iff found source).mpr below)
    have labels : testTree.labelOf ((treeGraph testTree).source edge) =
        testTree.labelOf ((treeGraph testTree).endOf copy chain) := by
      have isReference : (treeGraph testTree).source edge = reference := source
      rw [isReference, ends, labelOf_eq found, labelOf_eq otherFound, same]
    rw [← ends, ← isSource labels]
    exact source

/-- Arrows that are those of some edges with distinct places make sequences and chains
correspond. -/
theorem bijOn_sequences {edges : List SymbolicTransition} (nodup : edges.Nodup)
    {graph : Folding.Graph String SymbolicTransition}
    (listed : ∀ edge, edge ∈ graph.edges ↔ edge ∈ edges)
    (source : graph.source = fun edge => testTree.labelOf edge.sourceZSES)
    (target : graph.target = fun edge => testTree.labelOf edge.targetZSES)
    {leaving : String → List Transition}
    (leavingEq : ∀ label, leaving label = (edges.map testTree.transitionOf).filter
      (fun transition => label = transition.source)) (label : String) :
    ∃ correspond, Set.BijOn correspond (graph.chains label) (sequencesFrom leaving label) ∧
      ∀ chain, (correspond chain).map Prod.snd = chain.map testTree.transitionOf := by
  refine ⟨_, @Folding.Graph.bijOn_walks _ _ _ _ _ graph testTree.transitionOf edges leaving
    Transition.target nodup listed ?_ ?_ label, ?_⟩
  · intro label
    rw [leavingEq, List.filter_map, source]
    rfl
  · intro edge _
    rw [target]
    rfl
  · intro chain
    rw [List.map_map]
    rfl

theorem forall₂_carries
    (lists : ListsStates zset testTree acceptZSES beside root copy path references)
    {chain : List SymbolicTransition}
    (inside : ∀ edge ∈ chain, edge ∈ testTree.edgesAt references) :
    List.Forall₂ (CarriesOver testTree) chain (chain.map testTree.transitionOf) := by
  apply List.forall₂_map_right_iff.mpr
  apply List.forall₂_same.mpr
  intro edge member
  obtain ⟨target, found⟩ := lists.target_found (inside edge member)
  refine ⟨rfl, rfl, rfl, ⟨target, found, ?_⟩, edge.clockGuard.clone_eq, rfl, rfl⟩
  rw [SymbolicExecutionTree.transitionOf, found]
  rfl

theorem pathsCorrespond
    (lists : ListsStates zset testTree acceptZSES beside root copy path references)
    {correspond : List SymbolicTransition → List (Nat × Transition)}
    {leaving : String → List Transition} {label : String} {chains : Set (List SymbolicTransition)}
    (bijection : Set.BijOn correspond chains (sequencesFrom leaving label))
    (carried : ∀ chain, (correspond chain).map Prod.snd = chain.map testTree.transitionOf)
    (same : chains = (treeGraph testTree).chains copy) :
    PathsCorrespond testTree leaving label := by
  rw [same, ← lists.rootPaths_eq] at bijection
  refine ⟨correspond, bijection, ?_⟩
  intro symbolicPath isRootPath
  rw [carried]
  apply lists.forall₂_carries
  intro edge member
  rw [lists.rootPaths_eq] at isRootPath
  exact lists.mem_edges_iff.mp (Folding.Graph.IsChain.mem_edges isRootPath edge member)

theorem exists_stored {transitions : List Transition} {edges : List SymbolicTransition}
    (among : ∀ transition ∈ transitions, transition ∈ edges.map testTree.transitionOf) :
    ∃ stored : List SymbolicTransition, stored.map testTree.transitionOf = transitions ∧
      ∀ edge ∈ stored, edge ∈ edges := by
  induction transitions with
  | nil => exact ⟨[], rfl, fun edge none => absurd none List.not_mem_nil⟩
  | cons transition transitions induction =>
      obtain ⟨edge, member, isEdge⟩ := List.mem_map.mp (among transition List.mem_cons_self)
      obtain ⟨stored, all, inside⟩ :=
        induction (fun other later => among other (List.mem_cons_of_mem _ later))
      refine ⟨edge :: stored, ?_, List.forall_mem_cons.mpr ⟨member, inside⟩⟩
      rw [List.map_cons, isEdge, all]

theorem distinguishesTransitions_iff
    (lists : ListsStates zset testTree acceptZSES beside root copy path references) :
    DistinguishesTransitions testTree ↔
      (((testTree.edgesAt references).map testTree.transitionOf).map Transition.key).Nodup := by
  rw [List.map_map, List.nodup_map_iff_inj_on lists.edgesAt_nodup]
  constructor
  · intro distinguishes edge member other otherMember same
    obtain ⟨reference, node, found, below⟩ := lists.mem_edgesAt_iff.mp member
    obtain ⟨otherReference, otherNode, otherFound, otherBelow⟩ :=
      lists.mem_edgesAt_iff.mp otherMember
    exact distinguishes reference node found edge below otherReference otherNode otherFound other
      otherBelow same
  · intro distinguishes reference node found edge below otherReference otherNode otherFound other
      otherBelow same
    exact distinguishes edge (lists.mem_edgesAt_iff.mpr ⟨reference, node, found, below⟩) other
      (lists.mem_edgesAt_iff.mpr ⟨otherReference, otherNode, otherFound, otherBelow⟩) same

/-- The map holds the transitions of all edges exactly if these have different keys. -/
theorem stored_eq_iff
    (lists : ListsStates zset testTree acceptZSES beside root copy path references)
    {order : IterationOrder} {testCase : TIOSTS}
    (stores : testCase.Stores ((testTree.edgesAt references).map testTree.transitionOf))
    {stored : List SymbolicTransition}
    (all : stored.map testTree.transitionOf = testCase.getTransitions order)
    (inside : ∀ edge ∈ stored, edge ∈ testTree.edgesAt references) :
    {edge | edge ∈ stored} = (treeGraph testTree).edges ↔ DistinguishesTransitions testTree := by
  have keys := @TIOSTS.Stores.keys_nodup order _ _ stores
  rw [← all] at keys
  have nodup : stored.Nodup := keys.of_map.of_map
  rw [lists.distinguishesTransitions_iff, ← @TIOSTS.Stores.getTransitions_perm_iff order _ _ stores,
    ← all]
  constructor
  · intro same
    apply List.Perm.map
    rw [List.perm_ext_iff_of_nodup nodup lists.edgesAt_nodup]
    intro edge
    rw [← lists.mem_edges_iff, ← same]
    rfl
  · intro permutation
    have length := permutation.length_eq
    rw [List.length_map, List.length_map] at length
    have whole := (nodup.subperm inside).perm_of_length_le (Nat.le_of_eq length.symm)
    ext edge
    rw [lists.mem_edges_iff, ← whole.mem_iff]
    rfl

/-- The test case preserves the tree exactly if labels and keys tell its states and its
transitions apart. -/
theorem preservesTree_iff
    (lists : ListsStates zset testTree acceptZSES beside root copy path references)
    {order : IterationOrder} {testCase : TIOSTS}
    (translated : Translated testTree (testTree.labelOf copy) (testTree.edgesAt references)
      testCase) :
    PreservesTree order testTree testCase (testTree.labelOf copy) ↔
      DistinguishesStates testTree ∧ DistinguishesTransitions testTree := by
  obtain ⟨stored, all, inside⟩ := @exists_stored testTree (testCase.getTransitions order)
    (testTree.edgesAt references) (fun transition member =>
      (@TIOSTS.Stores.getTransitions_subperm order _ _ translated.stores).subset member)
  have keys := @TIOSTS.Stores.keys_nodup order _ _ translated.stores
  rw [← all] at keys
  have subset : {edge | edge ∈ stored} ⊆ (treeGraph testTree).edges :=
    fun edge member => lists.mem_edges_iff.mpr (inside edge member)
  obtain ⟨located, locatedBijection, locatedCarried⟩ := @bijOn_sequences testTree _
    lists.edgesAt_nodup ((treeGraph testTree).fold testTree.labelOf)
    (fun edge => lists.mem_edges_iff) rfl rfl testCase.outOf translated.stores.outOf
    (testTree.labelOf copy)
  obtain ⟨mapped, mappedBijection, mappedCarried⟩ := @bijOn_sequences testTree stored
    keys.of_map.of_map (((treeGraph testTree).fold testTree.labelOf).keep {edge | edge ∈ stored})
    (fun edge => Iff.rfl) rfl rfl (leavingInMap order testCase)
    (fun label => by rw [all]; rfl) (testTree.labelOf copy)
  have reached : ∀ edge ∈ (treeGraph testTree).edges, ∃ chain ∈ (treeGraph testTree).chains copy,
      (treeGraph testTree).endOf copy chain = (treeGraph testTree).source edge := by
    intro edge member
    obtain ⟨reference, node, found, below⟩ :=
      lists.mem_edgesAt_iff.mp (lists.mem_edges_iff.mp member)
    have isSource : (treeGraph testTree).source edge = reference := lists.source_eq found below
    rw [isSource]
    exact lists.exists_chain found
  rw [lists.distinguishesStates_iff, ← lists.stored_eq_iff translated.stores all inside,
    ← Folding.Graph.chains_kept_iff reached subset]
  have finite := finite_copies lists.copies
  constructor
  · rintro ⟨_, ⟨first, firstBijection, _⟩, ⟨second, secondBijection, _⟩⟩
    rw [lists.rootPaths_eq] at firstBijection secondBijection
    -- finite sets with as many elements, of which one contains the other
    have whole : ((treeGraph testTree).fold testTree.labelOf).chains (testTree.labelOf copy) =
        (treeGraph testTree).chains copy :=
      (Folding.Graph.eq_of_bijOn (fun chain isChain => Folding.Graph.IsChain.fold isChain _)
        (Or.inl finite) firstBijection locatedBijection).symm
    refine ⟨whole, Folding.Graph.eq_of_bijOn ?_ (Or.inr finite) mappedBijection secondBijection⟩
    intro chain isChain
    rw [← whole]
    exact ((@Folding.Graph.IsChain.keep_iff _ _ ((treeGraph testTree).fold testTree.labelOf) _ _ _
      subset).mp isChain).1
  · rintro ⟨whole, kept⟩
    exact ⟨translated.initialLocation, lists.pathsCorrespond locatedBijection locatedCarried whole,
      lists.pathsCorrespond mappedBijection mappedCarried kept⟩

end ListsStates

end Paths

section TestCases

variable {tools : SymbolicTools} {tiosts : TIOSTS} {rounds : Nat} {zset : SymbolicExecutionTree}
  {testTrees : List SymbolicExecutionTree} {testTree : SymbolicExecutionTree}

/-- Every selected test tree is translated, and its states can be listed. -/
theorem translateTestTree_selected (wellFormed : tiosts.WellFormed)
    (executed : execute tools tiosts rounds = .ok zset)
    (selected : selectAllTestCases zset = .ok testTrees) (member : testTree ∈ testTrees)
    (order : IterationOrder) (sp : TIOSTS) :
    ∃ testCase acceptZSES root copy path references,
      translateTestTree order testTree sp = .ok testCase ∧
      ListsStates zset testTree acceptZSES (inputsBeside zset) root copy path references ∧
      Translated testTree (testTree.labelOf copy) (testTree.edgesAt references) testCase := by
  obtain ⟨location, trace, isInitial, isTree⟩ := execute_returned executed
  obtain ⟨acceptZSES, notRoot, root, copy, path, references, isRoot, initial, copies, only⟩ :=
    isTestTree_of_selected isTree wellFormed (initialLocationOf_registers wellFormed isInitial)
      selected member
  have below : path ≠ [] := by
    rintro rfl
    cases copies with
    | accept =>
        cases isTree.initial.symm.trans isRoot
        exact notRoot rfl
  obtain ⟨testCase, returned, translated⟩ := translateTestTree_returns sp order initial copies only
    below (splits_copies isTree copies)
  exact ⟨testCase, acceptZSES, root, copy, path, references, returned, ⟨initial, copies, only⟩,
    translated⟩

/-- The condition under which the translation of a selected test tree preserves it. -/
theorem preserves_iff (wellFormed : tiosts.WellFormed)
    (executed : execute tools tiosts rounds = .ok zset)
    (selected : selectAllTestCases zset = .ok testTrees) (member : testTree ∈ testTrees)
    (order mapOrder : IterationOrder) (sp : TIOSTS) :
    ∃ testCase, translateTestTree order testTree sp = .ok testCase ∧
      ((∃ label, PreservesTree mapOrder testTree testCase label) ↔
        DistinguishesStates testTree ∧ DistinguishesTransitions testTree) := by
  obtain ⟨testCase, _, _, copy, _, _, returned, lists, translated⟩ :=
    translateTestTree_selected wellFormed executed selected member order sp
  refine ⟨testCase, returned, ?_⟩
  rw [← @ListsStates.preservesTree_iff _ _ _ _ _ _ _ _ lists mapOrder _ translated]
  constructor
  · rintro ⟨label, preserves⟩
    cases preserves.initialLocation.symm.trans translated.initialLocation
    exact preserves
  · exact fun preserves => ⟨_, preserves⟩

end TestCases

namespace TickInstance

open AcceptInstance (enter pay tp)

def tick : Action := ⟨"tick", .internal, []⟩

/-- The location before the payment can be visited twice. -/
def transitions : List Transition :=
  [.bare "Start" enter "Ready", .bare "Ready" tick "Ready", .bare "Ready" pay "Paid"]

def spec : TIOSTS :=
  .assemble (.declare "S" [enter, tick, pay] [] [] [])
    ["Start", "Ready", "Paid"] "Start" transitions

theorem spec_wellFormed : spec.WellFormed :=
  TIOSTS.assemble_wellFormed (TIOSTS.declare_isBlank _ _ _ _ _) (by decide)

/-- The product, its tree and the test trees. -/
def run : Except Failure (TIOSTS × SymbolicExecutionTree × List SymbolicExecutionTree) := do
  let product ← synchronousProduct 4 spec tp
  let zset ← execute LoopInstance.tools product 6
  let testTrees ← selectAllTestCases zset
  return (product, zset, testTrees)

/-- One test tree meets the condition and one does not. -/
def checked (ran : TIOSTS × SymbolicExecutionTree × List SymbolicExecutionTree) : Bool :=
  decide (∃ testTree ∈ ran.2.2, DistinguishesStates testTree ∧ DistinguishesTransitions testTree) &&
    decide (∃ testTree ∈ ran.2.2, ¬ DistinguishesStates testTree)

theorem exists_testTrees : ∃ product zset testTrees,
    synchronousProduct 4 spec tp = .ok product ∧
      execute LoopInstance.tools product 6 = .ok zset ∧ selectAllTestCases zset = .ok testTrees ∧
      (∃ testTree ∈ testTrees, DistinguishesStates testTree ∧ DistinguishesTransitions testTree) ∧
      ∃ testTree ∈ testTrees, ¬ DistinguishesStates testTree := by
  have ran : run.toOption.map checked = some true := by decide +kernel
  obtain ⟨⟨product, zset, testTrees⟩, returned, holds⟩ := exists_checked ran
  obtain ⟨_, composed, returned⟩ := bind_eq_ok.mp returned
  obtain ⟨_, executed, returned⟩ := bind_eq_ok.mp returned
  obtain ⟨_, selected, returned⟩ := bind_eq_ok.mp returned
  cases returned
  obtain ⟨preserved, merged⟩ := (Bool.and_eq_true _ _).mp holds
  exact ⟨product, zset, testTrees, composed, executed, selected, of_decide_eq_true preserved,
    of_decide_eq_true merged⟩

end TickInstance

section Preserved

variable {tools : SymbolicTools} {tiosts : TIOSTS} {rounds : Nat} {zset : SymbolicExecutionTree}
  {testTrees : List SymbolicExecutionTree} {testTree : SymbolicExecutionTree}

/-- Every selected test tree is translated into a test case, which preserves it exactly if no
state with transitions shares its label with another state and no two transitions have the same
source label, action name and target label. -/
theorem translateTestTree_preserves_iff (wellFormed : tiosts.WellFormed)
    (executed : execute tools tiosts rounds = .ok zset)
    (selected : selectAllTestCases zset = .ok testTrees) (member : testTree ∈ testTrees)
    (order mapOrder : IterationOrder) (sp : TIOSTS) :
    ∃ testCase, translateTestTree order testTree sp = .ok testCase ∧
      ((∃ label, PreservesTree mapOrder testTree testCase label) ↔
        DistinguishesStates testTree ∧ DistinguishesTransitions testTree) :=
  preserves_iff wellFormed executed selected member order mapOrder sp

end Preserved

open TickInstance AcceptInstance in
/-- The test tree for the payment without the loop is preserved. -/
theorem translateTestTree_preserves_iff_tick : ∃ product zset testTrees testTree testCase label,
    synchronousProduct 4 TickInstance.spec tp = .ok product ∧
      execute LoopInstance.tools product 6 = .ok zset ∧ selectAllTestCases zset = .ok testTrees ∧
      testTree ∈ testTrees ∧
      translateTestTree ⟨id, IterationOrder.id_perm⟩ testTree product = .ok testCase ∧
      PreservesTree ⟨id, IterationOrder.id_perm⟩ testTree testCase label := by
  obtain ⟨product, zset, testTrees, composed, executed, selected, ⟨testTree, member, distinguishes⟩,
    _⟩ := exists_testTrees
  obtain ⟨_, _, _, _, run⟩ :=
    isProductRun_of_ok TickInstance.spec_wellFormed tp_wellFormed composed
  obtain ⟨testCase, returned, condition⟩ := translateTestTree_preserves_iff run.wellFormed executed
    selected member ⟨id, IterationOrder.id_perm⟩ ⟨id, IterationOrder.id_perm⟩ product
  obtain ⟨label, preserves⟩ := condition.mpr distinguishes
  exact ⟨product, zset, testTrees, testTree, testCase, label, composed, executed, selected, member,
    returned, preserves⟩

open TickInstance AcceptInstance in
/-- The path to the payment behind the loop visits a location twice, and the sequences of the
test case do not correspond to the root paths. -/
theorem translateTestTree_merges : ∃ product zset testTrees testTree testCase,
    TickInstance.spec.WellFormed ∧ tp.WellFormed ∧
      synchronousProduct 4 TickInstance.spec tp = .ok product ∧
      execute LoopInstance.tools product 6 = .ok zset ∧ selectAllTestCases zset = .ok testTrees ∧
      testTree ∈ testTrees ∧
      translateTestTree ⟨id, IterationOrder.id_perm⟩ testTree product = .ok testCase ∧
      ¬ ∃ label, PreservesTree ⟨id, IterationOrder.id_perm⟩ testTree testCase label := by
  obtain ⟨product, zset, testTrees, composed, executed, selected, _, testTree, member, merged⟩ :=
    exists_testTrees
  obtain ⟨_, _, _, _, run⟩ :=
    isProductRun_of_ok TickInstance.spec_wellFormed tp_wellFormed composed
  obtain ⟨testCase, returned, condition⟩ := preserves_iff run.wellFormed executed selected member
    ⟨id, IterationOrder.id_perm⟩ ⟨id, IterationOrder.id_perm⟩ product
  refine ⟨product, zset, testTrees, testTree, testCase, TickInstance.spec_wellFormed,
    tp_wellFormed, composed, executed, selected, member, returned, ?_⟩
  exact fun preserves => merged (condition.mp preserves).1

end Symbolrt
