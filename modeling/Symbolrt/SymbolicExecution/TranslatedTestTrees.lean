import Symbolrt.Base.Views
import Symbolrt.Lib.Folding
import Symbolrt.Lib.Pieces
import Symbolrt.SymbolicExecution.SelectedTestCases
import Symbolrt.SymbolicExecution.TestTreeTransformation

/-!
# Translated test trees

The loop of the translation creates a transition for every transition of the test tree, from
the label of its source to the label of its target.
-/

namespace Symbolrt

open SymbolicExecution TestTreeTransformation

namespace SymbolicExecutionTree

variable (testTree : SymbolicExecutionTree)

/-- The label of the location of a state. -/
def labelOf (reference : Nat) : String :=
  ((testTree.getState reference).map (fun state => state.location.label)).getD ""

def childrenAt (reference : Nat) : List SymbolicTransition :=
  ((testTree.getNode reference).map SymbolicNode.childrenTransitions).getD []

/-- The transitions below the listed states. -/
def edgesAt (references : List Nat) : List SymbolicTransition :=
  references.flatMap testTree.childrenAt

/-- The transition that is created for one of the tree. -/
def transitionOf (symbolicTransition : SymbolicTransition) : Transition where
  source := testTree.labelOf symbolicTransition.sourceZSES
  dataGuard := .written
    (((testTree.getState symbolicTransition.targetZSES).map SymbolicState.pathCondition).getD "")
  clockGuard := symbolicTransition.clockGuard.clone
  action := testCaseAction symbolicTransition.symbolicAction
  dataAssignments := none
  clockAssignments := symbolicTransition.clockAssignments
  deadline := symbolicTransition.deadline
  target := testTree.labelOf symbolicTransition.targetZSES

end SymbolicExecutionTree

/-- Nothing but declarations is different. -/
structure TIOSTS.SharesStores (model other : TIOSTS) : Prop where
  locations : other.locations = model.locations
  transitions : other.transitions = model.transitions
  initialLocation : other.initialLocation = model.initialLocation

theorem TIOSTS.SharesStores.isRegistered {model other : TIOSTS}
    (shares : model.SharesStores other) (label : String) :
    other.IsRegistered label ↔ model.IsRegistered label := by
  rw [TIOSTS.IsRegistered, TIOSTS.IsRegistered, shares.locations]

theorem TIOSTS.Stores.congr {created : List Transition} {model other : TIOSTS}
    (stores : model.Stores created) (shares : model.SharesStores other) :
    other.Stores created := by
  have sameLocation : ∀ label, other.getLocation label = model.getLocation label := by
    intro label
    rw [TIOSTS.getLocation, TIOSTS.getLocation, shares.locations]
  constructor
  · intro label location found
    rw [sameLocation] at found
    exact stores.labelled found
  · intro transition member
    rw [shares.isRegistered, shares.isRegistered]
    exact stores.registered transition member
  · intro label
    rw [TIOSTS.outOf, sameLocation]
    exact stores.outOf label
  · intro label
    rw [TIOSTS.inOf, sameLocation]
    exact stores.inOf label
  · intro key
    rw [shares.transitions]
    exact stores.lookup key

namespace TestTreeTransformation

section Loop

variable {zset testTree : SymbolicExecutionTree} {sp : TIOSTS} {acceptZSES : Nat}
  {beside : SymbolicNode → SymbolicTransition → List SymbolicTransition}

/-- A transition of the tree is translated with the label of its own source. -/
def translateEdge (testTree : SymbolicExecutionTree) (sp testCase : TIOSTS)
    (edge : SymbolicTransition) : Except Failure TIOSTS :=
  translateTransition testTree sp (testTree.labelOf edge.sourceZSES) testCase edge

/-- The states have no children. -/
def AreLeaves (testTree : SymbolicExecutionTree) (references : List Nat) : Prop :=
  ∀ reference ∈ references, ∃ node, testTree.getNode reference = some node ∧
    node.childrenTransitions = []

theorem AreLeaves.edgesAt_eq {references : List Nat} (areLeaves : AreLeaves testTree references) :
    testTree.edgesAt references = [] := by
  apply List.flatMap_eq_nil_iff.mpr
  intro reference member
  obtain ⟨node, found, leaf⟩ := areLeaves reference member
  rw [SymbolicExecutionTree.childrenAt, found]
  exact leaf

theorem areLeaves_of_forall₂ {copy : Nat} {inputs leaves : List SymbolicTransition}
    (all : List.Forall₂ (IsLeafFor zset testTree copy) inputs leaves) :
    AreLeaves testTree (leaves.map SymbolicTransition.targetZSES) := by
  intro reference member
  obtain ⟨leaf, among, rfl⟩ := List.mem_map.mp member
  obtain ⟨input, _, isLeaf⟩ := InStep.exists_left all among
  obtain ⟨state, location, _, _, found⟩ := isLeaf.target
  exact ⟨_, found, rfl⟩

theorem translateStates_leaves {leaves : List Nat} (areLeaves : AreLeaves testTree leaves)
    (fuel : Nat) (unvisited : List Nat) (testCase : TIOSTS) :
    translateStates testTree sp (leaves.length + fuel) (leaves ++ unvisited) testCase =
      translateStates testTree sp fuel unvisited testCase := by
  induction leaves with
  | nil => rw [List.length_nil, Nat.zero_add, List.nil_append]
  | cons leaf leaves induction =>
      obtain ⟨node, found, isLeaf⟩ := areLeaves leaf List.mem_cons_self
      have later := induction (fun other member => areLeaves other (List.mem_cons_of_mem _ member))
      rw [← later, List.length_cons, Nat.add_right_comm, List.cons_append, translateStates, found,
        deref_some, ok_bind, isLeaf]
      simp

theorem childrenAt_eq {reference : Nat} {node : SymbolicNode}
    (found : testTree.getNode reference = some node) :
    testTree.childrenAt reference = node.childrenTransitions := by
  rw [SymbolicExecutionTree.childrenAt, found]
  rfl

theorem labelOf_eq {reference : Nat} {node : SymbolicNode}
    (found : testTree.getNode reference = some node) :
    testTree.labelOf reference = node.state.location.label := by
  rw [SymbolicExecutionTree.labelOf, SymbolicExecutionTree.getState, found]
  rfl

theorem edgesAt_step {copy : Nat} {node : SymbolicNode} {leaves : List Nat}
    (copyFound : testTree.getNode copy = some node) (areLeaves : AreLeaves testTree leaves)
    (references : List Nat) : testTree.edgesAt (copy :: (leaves ++ references)) =
      node.childrenTransitions ++ testTree.edgesAt references := by
  have none := areLeaves.edgesAt_eq
  unfold SymbolicExecutionTree.edgesAt at none ⊢
  rw [List.flatMap_cons, List.flatMap_append, childrenAt_eq copyFound, none, List.nil_append]

theorem exists_copy {reference copy : Nat} {parent : Option SymbolicTransition}
    {path : List SymbolicTransition} {references : List Nat}
    (copies : CopiesPath zset testTree acceptZSES beside reference parent copy path references) :
    ∃ node, testTree.getNode copy = some node := by
  cases copies with
  | accept _ copyFound => exact ⟨_, copyFound⟩
  | step _ _ copyFound => exact ⟨_, copyFound⟩

/-- Edges lead from the state that they stand below. -/
theorem sources_copies {reference copy : Nat} {parent : Option SymbolicTransition}
    {path : List SymbolicTransition} {references : List Nat}
    (copies : CopiesPath zset testTree acceptZSES beside reference parent copy path references) :
    ∀ listed ∈ references, ∀ edge ∈ testTree.childrenAt listed, edge.sourceZSES = listed := by
  induction copies with
  | accept _ copyFound =>
      intro listed member edge below
      rw [List.mem_singleton.mp member, childrenAt_eq copyFound] at below
      cases below
  | step _ _ copyFound _ source areLeafEdges _ induction =>
      intro listed member edge below
      rcases List.mem_cons.mp member with rfl | later
      · rw [childrenAt_eq copyFound] at below
        rcases List.mem_cons.mp below with rfl | among
        · exact source
        · obtain ⟨input, _, isLeaf⟩ := InStep.exists_left areLeafEdges among
          exact isLeaf.sourceZSES
      · rcases List.mem_append.mp later with isLeaf | onPath
        · obtain ⟨node, found, none⟩ := areLeaves_of_forall₂ areLeafEdges listed isLeaf
          rw [childrenAt_eq found, none] at below
          cases below
        · exact induction listed onPath edge below

theorem targets_copies {reference copy : Nat} {parent : Option SymbolicTransition}
    {path : List SymbolicTransition} {references : List Nat}
    (copies : CopiesPath zset testTree acceptZSES beside reference parent copy path references) :
    (copy :: (testTree.edgesAt references).map SymbolicTransition.targetZSES).Perm
      references := by
  induction copies with
  | accept _ copyFound =>
      rw [SymbolicExecutionTree.edgesAt, List.flatMap_singleton, childrenAt_eq copyFound]
      exact List.Perm.refl _
  | step _ _ copyFound _ _ areLeafEdges _ induction =>
      rw [edgesAt_step copyFound (areLeaves_of_forall₂ areLeafEdges), List.map_append,
        List.map_cons, List.cons_append]
      apply List.Perm.cons
      exact List.perm_middle.symm.trans (induction.append_left _)

/-- The loop translates the transitions of the tree in the order of the listed states. -/
theorem translateStates_copies {reference copy : Nat} {parent : Option SymbolicTransition}
    {path : List SymbolicTransition} {references : List Nat}
    (copies : CopiesPath zset testTree acceptZSES beside reference parent copy path references)
    {leaves : List Nat} (areLeaves : AreLeaves testTree leaves) (testCase : TIOSTS) :
    translateStates testTree sp (leaves.length + references.length) (copy :: leaves) testCase =
      (testTree.edgesAt references).foldlM (translateEdge testTree sp) testCase := by
  induction copies generalizing leaves testCase with
  | @accept copy parent node _ copyFound =>
      have all : AreLeaves testTree (copy :: leaves) := by
        intro leaf member
        rcases List.mem_cons.mp member with rfl | later
        · exact ⟨_, copyFound, rfl⟩
        · exact areLeaves leaf later
      have whole := @translateStates_leaves testTree sp _ all 0 [] testCase
      have none := all.edgesAt_eq
      rw [List.append_nil] at whole
      unfold SymbolicExecutionTree.edgesAt at none ⊢
      rw [List.flatMap_cons] at none
      rw [List.flatMap_singleton, (List.append_eq_nil_iff.mp none).1]
      exact whole
  | @step reference copy parent node taken copied leafEdges path references _ _ copyFound _ source
      areLeafEdges copiesBelow induction =>
      have leafTargets := areLeaves_of_forall₂ areLeafEdges
      have children : ∀ edge ∈ copied :: leafEdges, ∀ state,
          translateTransition testTree sp node.state.location.label state edge =
            translateEdge testTree sp state edge := by
        intro edge member state
        have isSource : edge.sourceZSES = copy := by
          rcases List.mem_cons.mp member with rfl | among
          · exact source
          · obtain ⟨input, _, isLeaf⟩ := InStep.exists_left areLeafEdges among
            exact isLeaf.sourceZSES
        rw [translateEdge, isSource, labelOf_eq copyFound]
      have fuel : leaves.length +
          (copy :: (leafEdges.map SymbolicTransition.targetZSES ++ references)).length =
            (leaves.length + ((leafEdges.map SymbolicTransition.targetZSES).length +
              references.length)) + 1 := by
        rw [List.length_cons, List.length_append]
        omega
      rw [fuel, translateStates, copyFound, deref_some, ok_bind, Loops.foldlM_congr children,
        edgesAt_step copyFound leafTargets, List.foldlM_append]
      congr 1
      funext next
      rw [List.map_cons, translateStates_leaves areLeaves]
      exact induction leafTargets next

def treeGraph (testTree : SymbolicExecutionTree) : Folding.Graph Nat SymbolicTransition where
  edges := {edge | edge ∈ testTree.childrenAt edge.sourceZSES}
  source := SymbolicTransition.sourceZSES
  target := SymbolicTransition.targetZSES

theorem mem_edges_iff {reference : Nat} {node : SymbolicNode}
    (found : testTree.getNode reference = some node) {edge : SymbolicTransition}
    (source : edge.sourceZSES = reference) :
    edge ∈ (treeGraph testTree).edges ↔ edge ∈ node.childrenTransitions := by
  rw [← childrenAt_eq found, ← source]
  rfl

/-- Chains lead to all listed states. -/
theorem reached_copies {reference copy : Nat} {parent : Option SymbolicTransition}
    {path : List SymbolicTransition} {references : List Nat}
    (copies : CopiesPath zset testTree acceptZSES beside reference parent copy path references) :
    ∀ listed ∈ references, ∃ chain ∈ (treeGraph testTree).chains copy,
      (treeGraph testTree).endOf copy chain = listed := by
  induction copies with
  | accept =>
      intro listed member
      exact ⟨[], trivial, (List.mem_singleton.mp member).symm⟩
  | @step _ _ _ _ _ copied leafEdges _ _ _ _ copyFound _ source areLeafEdges _ induction =>
      intro listed member
      rcases List.mem_cons.mp member with rfl | later
      · exact ⟨[], trivial, rfl⟩
      · rcases List.mem_append.mp later with isLeaf | onPath
        · obtain ⟨leaf, among, rfl⟩ := List.mem_map.mp isLeaf
          obtain ⟨input, _, isLeafFor⟩ := InStep.exists_left areLeafEdges among
          refine ⟨[leaf], ⟨?_, isLeafFor.sourceZSES, trivial⟩, rfl⟩
          exact (mem_edges_iff copyFound isLeafFor.sourceZSES).mpr
            (List.mem_cons_of_mem copied among)
        · obtain ⟨chain, isChain, ends⟩ := induction listed onPath
          refine ⟨copied :: chain, ⟨?_, source, isChain⟩, ends⟩
          exact (mem_edges_iff copyFound source).mpr List.mem_cons_self

/-- There are finitely many chains. -/
theorem finite_copies {reference copy : Nat} {parent : Option SymbolicTransition}
    {path : List SymbolicTransition} {references : List Nat}
    (copies : CopiesPath zset testTree acceptZSES beside reference parent copy path references) :
    ((treeGraph testTree).chains copy).Finite := by
  induction copies with
  | @accept copy _ _ _ copyFound =>
      apply (Set.finite_singleton ([] : List SymbolicTransition)).subset
      intro chain isChain
      cases chain with
      | nil => rfl
      | cons edge chain =>
          obtain ⟨member, source, _⟩ := isChain
          cases (mem_edges_iff copyFound source).mp member
  | @step _ copy _ _ _ copied leafEdges _ _ _ _ copyFound _ source areLeafEdges _ induction =>
      have leaves : {chain | ∃ leaf ∈ leafEdges, chain = [leaf]}.Finite := by
        apply (List.finite_toSet (leafEdges.map (fun leaf => [leaf]))).subset
        rintro chain ⟨leaf, among, rfl⟩
        exact List.mem_map.mpr ⟨leaf, among, rfl⟩
      apply (((induction.image (List.cons copied)).union leaves).insert []).subset
      intro chain isChain
      cases chain with
      | nil => exact Set.mem_insert _ _
      | cons edge chain =>
          apply Set.mem_insert_of_mem
          obtain ⟨member, isSource, later⟩ := isChain
          rcases List.mem_cons.mp ((mem_edges_iff copyFound isSource).mp member) with rfl | among
          · exact Or.inl ⟨chain, later, rfl⟩
          · right
            refine ⟨edge, among, ?_⟩
            cases chain with
            | nil => rfl
            | cons next chain =>
                obtain ⟨node, found, none⟩ := areLeaves_of_forall₂ areLeafEdges _
                  (List.mem_map_of_mem among)
                have below := (mem_edges_iff found later.2.1).mp later.1
                rw [none] at below
                cases below

/-- An id that does not name anything is out of bounds. -/
def Splits (paramId : String) : Prop := Text.split Constants.symbolicValueSeparator paramId ≠ []

theorem declareParameter_ok {testCase : TIOSTS} {paramId : String} (splits : Splits paramId) :
    ∃ next, declareParameter sp testCase paramId = .ok next ∧ testCase.SharesStores next := by
  unfold declareParameter
  split
  · rename_i empty
    exact absurd empty splits
  · split
    · split
      · exact ⟨_, rfl, rfl, rfl, rfl⟩
      · exact ⟨_, rfl, rfl, rfl, rfl⟩
    · exact ⟨_, rfl, rfl, rfl, rfl⟩

theorem declareParameters_ok {paramIds : List String} (splits : ∀ id ∈ paramIds, Splits id)
    (testCase : TIOSTS) :
    ∃ next, paramIds.foldlM (declareParameter sp) testCase = .ok next ∧
      testCase.SharesStores next := by
  apply Loops.foldlM_returns (fun _ state => testCase.SharesStores state)
  · exact ⟨rfl, rfl, rfl⟩
  · intro done id rest state whole shares
    obtain ⟨next, declared, same⟩ := declareParameter_ok (splits id (by simp [whole]))
    exact ⟨next, declared, same.locations.trans shares.locations,
      same.transitions.trans shares.transitions,
      same.initialLocation.trans shares.initialLocation⟩

/-- What the model holds when some transitions of the tree have been translated. -/
structure Translated (testTree : SymbolicExecutionTree) (initial : String)
    (done : List SymbolicTransition) (testCase : TIOSTS) : Prop where
  stores : testCase.Stores (done.map testTree.transitionOf)
  initialLocation : testCase.initialLocation = some initial
  isRegistered : ∀ label, testCase.IsRegistered label ↔
    label = initial ∨ ∃ edge ∈ done, label = testTree.labelOf edge.targetZSES

theorem Translated.translateEdge {initial : String} {done : List SymbolicTransition}
    {testCase : TIOSTS} (translated : Translated testTree initial done testCase)
    {edge : SymbolicTransition}
    (sourceRegistered : testCase.IsRegistered (testTree.labelOf edge.sourceZSES))
    {target : SymbolicNode} (found : testTree.getNode edge.targetZSES = some target)
    (splits : ∀ id ∈ edge.symbolicAction.paramIds, Splits id) :
    ∃ next, translateEdge testTree sp testCase edge = .ok next ∧
      Translated testTree initial (done ++ [edge]) next := by
  have state : testTree.getState edge.targetZSES = some target.state := by
    rw [SymbolicExecutionTree.getState, found]
    rfl
  have condition : (testTree.transitionOf edge).dataGuard =
      .written target.state.pathCondition := by
    rw [SymbolicExecutionTree.transitionOf, state]
    rfl
  obtain ⟨declaring, declared, shares⟩ := @declareParameters_ok sp _ splits
    ((testCase.addLocation (Location.new target.state.location.label false)).addAction
      (testCaseAction edge.symbolicAction))
  have stores : declaring.Stores (done.map testTree.transitionOf) :=
    (translated.stores.addLocation target.state.location.label false).congr
      ⟨shares.locations, shares.transitions, shares.initialLocation⟩
  have registered : ∀ label, declaring.IsRegistered label ↔
      label = testTree.labelOf edge.targetZSES ∨ testCase.IsRegistered label := by
    intro label
    rw [shares.isRegistered, labelOf_eq found]
    exact TIOSTS.isRegistered_addLocation _ _ _
  have created : declaring.create (testTree.transitionOf edge) =
      .ok (declaring.extend (testTree.transitionOf edge)) :=
    TIOSTS.create_eq stores.labelled ((registered _).mpr (Or.inr sourceRegistered))
      ((registered _).mpr (Or.inl rfl))
  refine ⟨declaring.extend (testTree.transitionOf edge), ?_, ?_, ?_, ?_⟩
  · rw [TIOSTS.create, condition] at created
    rw [TestTreeTransformation.translateEdge, translateTransition, state, deref_some, ok_bind]
    refine bind_eq_ok.mpr ⟨declaring, declared, ?_⟩
    rw [← labelOf_eq found]
    exact created
  · rw [List.map_append]
    exact stores.create created
  · rw [TIOSTS.extend, TIOSTS.register_initialLocation]
    refine shares.initialLocation.trans ?_
    exact (TIOSTS.addLocation_initialLocation _ _).trans translated.initialLocation
  · intro label
    rw [TIOSTS.extend, TIOSTS.isRegistered_register]
    refine (registered label).trans ?_
    rw [translated.isRegistered]
    constructor
    · rintro (rfl | isInitial | ⟨other, earlier, rfl⟩)
      · exact Or.inr ⟨edge, List.mem_append_right _ (List.mem_singleton_self edge), rfl⟩
      · exact Or.inl isInitial
      · exact Or.inr ⟨other, List.mem_append_left _ earlier, rfl⟩
    · rintro (isInitial | ⟨other, member, rfl⟩)
      · exact Or.inr (Or.inl isInitial)
      · rcases List.mem_append.mp member with earlier | now
        · exact Or.inr (Or.inr ⟨other, earlier, rfl⟩)
        · rw [List.mem_singleton.mp now]
          exact Or.inl rfl

theorem Translated.isRegistered_of_append {initial : String}
    {done more : List SymbolicTransition} {testCase next : TIOSTS}
    (translated : Translated testTree initial done testCase)
    (later : Translated testTree initial (done ++ more) next) {label : String}
    (registered : testCase.IsRegistered label) : next.IsRegistered label := by
  apply (later.isRegistered label).mpr
  rcases (translated.isRegistered label).mp registered with isInitial | ⟨edge, member, isTarget⟩
  · exact Or.inl isInitial
  · exact Or.inr ⟨edge, List.mem_append_left more member, isTarget⟩

/-- The transitions below one state are translated when its own label is registered. -/
theorem Translated.children {initial : String} {done edges : List SymbolicTransition}
    {testCase : TIOSTS} (translated : Translated testTree initial done testCase) {copy : Nat}
    (registered : testCase.IsRegistered (testTree.labelOf copy))
    (sources : ∀ edge ∈ edges, edge.sourceZSES = copy)
    (targets : ∀ edge ∈ edges, ∃ node, testTree.getNode edge.targetZSES = some node)
    (splits : ∀ edge ∈ edges, ∀ id ∈ edge.symbolicAction.paramIds, Splits id) :
    ∃ next, edges.foldlM (TestTreeTransformation.translateEdge testTree sp) testCase = .ok next ∧
      Translated testTree initial (done ++ edges) next := by
  apply Loops.foldlM_returns (fun before state =>
    Translated testTree initial (done ++ before) state)
  · rw [List.append_nil]
    exact translated
  · intro before edge rest state whole holds
    have member : edge ∈ edges := by
      rw [whole]
      exact List.mem_append_right _ List.mem_cons_self
    obtain ⟨node, found⟩ := targets edge member
    rw [← List.append_assoc]
    apply holds.translateEdge _ found (splits edge member)
    rw [sources edge member]
    exact translated.isRegistered_of_append holds registered

/-- All transitions of the tree are translated. -/
theorem Translated.copies {reference copy : Nat} {parent : Option SymbolicTransition}
    {path : List SymbolicTransition} {references : List Nat}
    (copies : CopiesPath zset testTree acceptZSES beside reference parent copy path references)
    {initial : String} {done : List SymbolicTransition} {testCase : TIOSTS}
    (translated : Translated testTree initial done testCase)
    (registered : testCase.IsRegistered (testTree.labelOf copy))
    (splits : ∀ edge ∈ testTree.edgesAt references,
      ∀ id ∈ edge.symbolicAction.paramIds, Splits id) :
    ∃ final, (testTree.edgesAt references).foldlM (TestTreeTransformation.translateEdge testTree sp)
        testCase = .ok final ∧ Translated testTree initial (done ++ testTree.edgesAt references)
          final := by
  induction copies generalizing done testCase with
  | @accept copy _ _ _ copyFound =>
      have none : testTree.edgesAt [copy] = [] := by
        rw [SymbolicExecutionTree.edgesAt, List.flatMap_singleton, childrenAt_eq copyFound]
      rw [none, List.append_nil]
      exact ⟨testCase, rfl, translated⟩
  | @step _ copy _ node _ copied leafEdges _ below _ _ copyFound _ source areLeafEdges copiesBelow
      induction =>
      have whole := edgesAt_step copyFound (areLeaves_of_forall₂ areLeafEdges) below
      rw [whole] at splits ⊢
      obtain ⟨next, ran, here⟩ := @Translated.children testTree sp _ _ _ _ translated _ registered
        (by
          intro edge member
          rcases List.mem_cons.mp member with rfl | among
          · exact source
          · obtain ⟨_, _, isLeaf⟩ := InStep.exists_left areLeafEdges among
            exact isLeaf.sourceZSES)
        (by
          intro edge member
          rcases List.mem_cons.mp member with rfl | among
          · exact exists_copy copiesBelow
          · obtain ⟨_, _, isLeaf⟩ := InStep.exists_left areLeafEdges among
            obtain ⟨_, _, _, _, found⟩ := isLeaf.target
            exact ⟨_, found⟩)
        (fun edge member => splits edge (List.mem_append_left _ member))
      have lower : next.IsRegistered (testTree.labelOf copied.targetZSES) := by
        refine (here.isRegistered _).mpr (Or.inr ⟨copied, ?_, rfl⟩)
        exact List.mem_append_right _ List.mem_cons_self
      obtain ⟨final, rest, holds⟩ := induction here lower
        (fun edge member => splits edge (List.mem_append_right _ member))
      rw [List.append_assoc] at holds
      refine ⟨final, ?_, holds⟩
      rw [List.foldlM_append, ran]
      exact rest

theorem splits_of_updated {value paramId : String}
    (updated : updateSymbolicValue value = .ok paramId) : Splits paramId := by
  unfold updateSymbolicValue at updated
  split at updated
  · rename_i name counter parts
    obtain ⟨number, _, returned⟩ := bind_eq_ok.mp updated
    obtain rfl := Except.ok.inj returned
    have spelled := symbolicValue_toList name (printInt (nextCounter number))
    apply Text.split_ne_nil rfl
    · rw [spelled]
      exact List.append_ne_nil_of_right_ne_nil _ (List.cons_ne_nil _ _)
    · intro last
      rw [spelled, List.getLast?_append_of_ne_nil _ (List.cons_ne_nil _ _),
        List.getLast?_cons_of_ne_nil (printInt_ne_empty _)] at last
      exact separator_not_mem_printInt _ (List.mem_of_getLast? last)
  · cases updated

theorem splits_of_nextZSES {tools : SymbolicTools} {tiosts : TIOSTS}
    {current target : SymbolicState}
    {transition : Transition} {symbolicAction : SymbolicAction}
    (stepped : nextZSES tools tiosts current transition = .ok (symbolicAction, target)) :
    ∀ id ∈ symbolicAction.paramIds, Splits id := by
  obtain ⟨update, updated, stepped⟩ := bind_eq_ok.mp stepped
  obtain ⟨nextSymbolicValues, _, stepped⟩ := bind_eq_ok.mp stepped
  obtain ⟨nextZone, _, stepped⟩ := bind_eq_ok.mp stepped
  obtain ⟨location, _, returned⟩ := bind_eq_ok.mp stepped
  obtain rfl := (Prod.mk.inj (Except.ok.inj returned)).1
  apply Loops.foldlM_returned (fun _ state => ∀ id ∈ state.paramIds, Splits id) updated
  · exact fun id member => absurd member List.not_mem_nil
  · intro done parameter rest state next _ all stepped
    obtain ⟨value, _, stepped⟩ := bind_eq_ok.mp stepped
    obtain ⟨paramId, created, returned⟩ := bind_eq_ok.mp stepped
    obtain rfl := Except.ok.inj returned
    intro id member
    rcases List.mem_append.mp member with earlier | now
    · exact all id earlier
    · rw [List.mem_singleton.mp now]
      exact splits_of_updated created

/-- Every edge copies a transition of the full tree. -/
theorem originals_copies {reference copy : Nat} {parent : Option SymbolicTransition}
    {path : List SymbolicTransition} {references : List Nat}
    (copies : CopiesPath zset testTree acceptZSES (inputsBeside zset) reference parent copy path
      references) :
    ∀ edge ∈ testTree.edgesAt references, ∃ source node original,
      zset.getNode source = some node ∧ original ∈ node.childrenTransitions ∧
        edge.IsCopyOf original := by
  induction copies with
  | accept _ copyFound =>
      intro edge member
      rw [SymbolicExecutionTree.edgesAt, List.flatMap_singleton, childrenAt_eq copyFound] at member
      cases member
  | step found taken copyFound isCopyOf _ areLeafEdges _ induction =>
      intro edge member
      rw [edgesAt_step copyFound (areLeaves_of_forall₂ areLeafEdges)] at member
      rcases List.mem_append.mp member with here | below
      · rcases List.mem_cons.mp here with rfl | among
        · exact ⟨_, _, _, found, taken, isCopyOf⟩
        · obtain ⟨input, isInput, isLeaf⟩ := InStep.exists_left areLeafEdges among
          have isChild := List.mem_of_mem_filter (List.mem_of_mem_filter isInput)
          exact ⟨_, _, input, found, isChild, isLeaf.isCopyOf⟩
      · exact induction edge below

theorem splits_copies {tools : SymbolicTools} {tiosts : TIOSTS} {root : SymbolicState}
    {trace : Nat → Trace} (isTree : IsExecutionTree tools tiosts root zset trace)
    {reference copy : Nat} {parent : Option SymbolicTransition} {path : List SymbolicTransition}
    {references : List Nat}
    (copies : CopiesPath zset testTree acceptZSES (inputsBeside zset) reference parent copy path
      references) :
    ∀ edge ∈ testTree.edgesAt references, ∀ id ∈ edge.symbolicAction.paramIds, Splits id := by
  intro edge member
  obtain ⟨source, node, original, found, isChild, isCopyOf⟩ := originals_copies copies edge member
  obtain ⟨_, _, _, _, stepped⟩ := isTree.child_step found isChild
  rw [isCopyOf.symbolicAction]
  exact splits_of_nextZSES stepped

theorem sharesStores_foldl {Item : Type} {declare : TIOSTS → Item → TIOSTS}
    (keeps : ∀ (model : TIOSTS) (item : Item), model.SharesStores (declare model item))
    (items : List Item)
    (model : TIOSTS) : model.SharesStores (items.foldl declare model) := by
  induction items generalizing model with
  | nil => exact ⟨rfl, rfl, rfl⟩
  | cons item items induction =>
      have here := keeps model item
      have later := induction (declare model item)
      exact ⟨later.locations.trans here.locations, later.transitions.trans here.transitions,
        later.initialLocation.trans here.initialLocation⟩

theorem declareVariable_sharesStores (mapping : SymbolicMapping) (model : TIOSTS)
    (varName : String) : model.SharesStores (declareVariable sp mapping model varName) := by
  unfold declareVariable
  split
  · exact ⟨rfl, rfl, rfl⟩
  · exact ⟨rfl, rfl, rfl⟩

theorem Translated.initial {model : TIOSTS} (blank : model.IsBlank) (initial : String) :
    Translated testTree initial []
      ((model.addLocation (Location.new initial false)).setInitialLocation initial) where
  stores := (blank.stores.addLocation initial false).setInitialLocation initial
  initialLocation := rfl
  isRegistered := by
    intro label
    rw [TIOSTS.isRegistered_setInitialLocation, TIOSTS.isRegistered_addLocation]
    constructor
    · rintro (isInitial | registered)
      · exact Or.inl isInitial
      · exact absurd registered (blank.unregistered label)
    · rintro (isInitial | ⟨edge, none, _⟩)
      · exact Or.inl isInitial
      · cases none

/-- The initial condition is found when an edge leaves the initial location. -/
theorem Translated.setFirstCondition {initial : String} {done : List SymbolicTransition}
    {testCase : TIOSTS} (translated : Translated testTree initial done testCase)
    (leaves : ∃ edge ∈ done, testTree.labelOf edge.sourceZSES = initial) :
    ∃ next, setFirstCondition testCase = .ok next ∧ Translated testTree initial done next := by
  have registered := (translated.isRegistered initial).mpr (Or.inl rfl)
  obtain ⟨location, found⟩ := (testCase.isRegistered_iff initial).mp registered
  have outgoing := translated.stores.outOf initial
  rw [TIOSTS.outOf, found] at outgoing
  obtain ⟨edge, member, source⟩ := leaves
  have among : testTree.transitionOf edge ∈ location.outTransitions := by
    have isSource : initial = (testTree.transitionOf edge).source := source.symm
    have isOutgoing : location.outTransitions = (done.map testTree.transitionOf).filter
      (fun transition => initial = transition.source) := outgoing
    rw [isOutgoing]
    exact List.mem_filter.mpr ⟨List.mem_map_of_mem member, decide_eq_true isSource⟩
  obtain ⟨first, others, split⟩ := List.exists_cons_of_ne_nil (List.ne_nil_of_mem among)
  refine ⟨testCase.setInitialCondition (some first.dataGuard), ?_, ?_⟩
  · rw [TestTreeTransformation.setFirstCondition, translated.initialLocation, deref_some, ok_bind,
      found, deref_some, ok_bind, split]
    rfl
  · exact ⟨translated.stores.congr ⟨rfl, rfl, rfl⟩, translated.initialLocation,
      translated.isRegistered⟩

/-- The translation of a test tree with a transition at its root returns. -/
theorem translateTestTree_returns {references : List Nat} {root copy : Nat}
    {path : List SymbolicTransition} (sp : TIOSTS) (order : IterationOrder)
    (initial : testTree.initialZSES = some copy)
    (copies : CopiesPath zset testTree acceptZSES beside root none copy path references)
    (only : references.Perm (List.range testTree.next)) (nonempty : path ≠ [])
    (splits : ∀ edge ∈ testTree.edgesAt references,
      ∀ id ∈ edge.symbolicAction.paramIds, Splits id) :
    ∃ testCase, translateTestTree order testTree sp = .ok testCase ∧
      Translated testTree (testTree.labelOf copy) (testTree.edgesAt references) testCase := by
  obtain ⟨node, found⟩ := exists_copy copies
  have state : testTree.getState copy = some node.state := by
    rw [SymbolicExecutionTree.getState, found]
    rfl
  have label := labelOf_eq found
  obtain ⟨declared, isDeclared⟩ : ∃ declared : TIOSTS, declared =
      (order.arrange (keyList node.state.mapping)).foldl (declareVariable sp node.state.mapping)
        (sp.clocks.foldl (fun testCase clock => testCase.addClock clock)
          (TIOSTS.new testTree.name)) := ⟨_, rfl⟩
  have blank : declared.IsBlank := by
    have clocks := @sharesStores_foldl _ (fun testCase clock => testCase.addClock clock)
      (fun model clock => ⟨rfl, rfl, rfl⟩) sp.clocks (TIOSTS.new testTree.name)
    have values := sharesStores_foldl (@declareVariable_sharesStores sp node.state.mapping)
      (order.arrange (keyList node.state.mapping))
      (sp.clocks.foldl (fun testCase clock => testCase.addClock clock) (TIOSTS.new testTree.name))
    rw [← isDeclared] at values
    exact ⟨values.locations.trans clocks.locations, values.transitions.trans clocks.transitions,
      values.initialLocation.trans clocks.initialLocation⟩
  have start := @Translated.initial testTree declared blank (testTree.labelOf copy)
  obtain ⟨middle, ran, translated⟩ := @Translated.copies zset testTree sp acceptZSES beside
    root copy
    none path references copies _ _ _ start ((start.isRegistered _).mpr (Or.inl rfl)) splits
  rw [List.nil_append] at translated
  obtain ⟨testCase, ended, holds⟩ := translated.setFirstCondition (by
    cases copies with
    | accept => exact absurd rfl nonempty
    | step _ _ copyFound _ source areLeafEdges =>
        rw [edgesAt_step copyFound (areLeaves_of_forall₂ areLeafEdges)]
        refine ⟨_, List.mem_append_left _ List.mem_cons_self, ?_⟩
        rw [source])
  refine ⟨testCase, ?_, holds⟩
  have fuel : testTree.next = ([] : List Nat).length + references.length := by
    rw [only.length_eq, List.length_range, List.length_nil, Nat.zero_add]
  rw [translateTestTree, initial, deref_some, ok_bind, state, deref_some, ok_bind, ← isDeclared]
  refine bind_eq_ok.mpr ⟨middle, ?_, ended⟩
  rw [fuel, translateStates_copies copies (fun leaf none => absurd none List.not_mem_nil)]
  rw [← ran, label]
  rfl

end Loop

end TestTreeTransformation

end Symbolrt
