import Symbolrt.Facade.TestCaseRefinement

/-!
# The generated test suite

Once the tree of the product is there, generation fails exactly if the initial state is an
accept state.  Otherwise there is one test case for each accepted run, in the order of the
runs, and a walk through it passes the labels and the path conditions of the run.
-/

namespace Symbolrt

open SynchronousProduct SymbolicExecution TestCaseSelection TestTreeTransformation

/-- The transition copies a step of a run: it joins the locations of the two states, receives
the new symbols, is guarded by the path condition behind the step and keeps clock guard, clock
assignments and deadline of the transition that is chosen. -/
def CopiesStep (tools : SymbolicTools) (tiosts : TIOSTS) (current next : SymbolicState)
    (choice : Nat) (copied : Transition) : Prop :=
  ∃ transition symbolicAction, current.location.outTransitions[choice]? = some transition ∧
    nextZSES tools tiosts current transition = .ok (symbolicAction, next) ∧
    copied =
      { source := current.location.label
        dataGuard := .written next.pathCondition
        clockGuard := transition.clockGuard
        action := testCaseAction symbolicAction
        dataAssignments := none
        clockAssignments := transition.clockAssignments
        deadline := transition.deadline
        target := next.location.label }

/-- The walk copies the steps through the states, one after the other. -/
inductive CopiesSteps (tools : SymbolicTools) (tiosts : TIOSTS) :
    List Nat → List SymbolicState → List Transition → Prop where
  | last (state : SymbolicState) : CopiesSteps tools tiosts [] [state] []
  | step {current next : SymbolicState} {later : List SymbolicState} {choice : Nat}
      {choices : List Nat} {copied : Transition} {walk : List Transition} :
      CopiesStep tools tiosts current next choice copied →
      CopiesSteps tools tiosts choices (next :: later) walk →
      CopiesSteps tools tiosts (choice :: choices) (current :: next :: later) (copied :: walk)

/-- A walk through the test case from its initial location copies the steps of the run. -/
def TestsRun (tools : SymbolicTools) (tiosts : TIOSTS) (root : SymbolicState)
    (choices : List Nat) (testCase : TIOSTS) : Prop :=
  ∃ history, ∃ walk ∈ testCase.graph.chains root.location.label,
    ReachableRun tools tiosts root choices history ∧
      testCase.initialLocation = some root.location.label ∧
      CopiesSteps tools tiosts choices history.reverse walk

section Walks

variable {tools : SymbolicTools} {tiosts : TIOSTS} {root : SymbolicState}
  {zset testTree : SymbolicExecutionTree} {trace : Nat → Trace} {testCase : TIOSTS}
  {acceptZSES reference copy top : Nat}
  {beside : SymbolicNode → SymbolicTransition → List SymbolicTransition}
  {path : List SymbolicTransition} {references : List Nat}

theorem isChain_translated
    (lists : ListsStates zset testTree acceptZSES beside reference copy path references)
    {initial : String}
    (translated : Translated testTree initial (testTree.edgesAt references) testCase)
    {chain : List SymbolicTransition}
    (isChain : (treeGraph testTree).IsChain top chain) :
    testCase.graph.IsChain (testTree.labelOf top) (chain.map testTree.transitionOf) := by
  induction chain generalizing top with
  | nil => trivial
  | cons edge chain induction =>
      obtain ⟨member, source, later⟩ := isChain
      refine ⟨?_, congrArg testTree.labelOf source, induction later⟩
      change testTree.transitionOf edge ∈ testCase.outOf (testTree.transitionOf edge).source
      rw [translated.stores.outOf]
      apply List.mem_filter.mpr
      exact ⟨List.mem_map_of_mem (lists.mem_edges_iff.mp member), decide_eq_true rfl⟩

/-- A copied path is a chain of edges that copy the steps from the first state on. -/
theorem CopiesPath.copiesSteps (isTree : IsExecutionTree tools tiosts root zset trace)
    {parent : Option SymbolicTransition}
    (copies : CopiesPath zset testTree acceptZSES beside reference parent copy path references)
    {state : SymbolicState} (isState : zset.getState reference = some state) :
    ∃ chain later choices, (treeGraph testTree).IsChain copy chain ∧
      (trace acceptZSES).choices = (trace reference).choices ++ choices ∧
      (trace acceptZSES).history = (state :: later).reverse ++ (trace reference).history.tail ∧
      CopiesSteps tools tiosts choices (state :: later) (chain.map testTree.transitionOf) := by
  induction copies generalizing state with
  | accept found copyFound =>
      obtain ⟨above, history⟩ := isTree.head found
      obtain rfl := Option.some.inj
        (isState.symm.trans (congrArg (Option.map SymbolicNode.state) found))
      refine ⟨[], [], [], trivial, (List.append_nil _).symm, ?_, CopiesSteps.last _⟩
      rw [history]
      rfl
  | step found taken copyFound isCopyOf source leaves rest induction =>
      rename_i node _ copied _ _ _
      obtain rfl := Option.some.inj
        (isState.symm.trans (congrArg (Option.map SymbolicNode.state) found))
      obtain ⟨choice, target, transition, targetFound, chosen, listed, stepped, guard,
        assignments, deadline⟩ := isTree.child_origin found taken
      have targetState := congrArg (Option.map SymbolicNode.state) targetFound
      obtain ⟨chain, later, choices, isChain, whole, history, steps⟩ := induction targetState
      obtain ⟨above, here⟩ := isTree.head found
      obtain ⟨_, _, _, _, behind⟩ := isTree.child _ _ found _ taken
      have isEdge : copied ∈ (treeGraph testTree).edges :=
        (mem_edges_iff copyFound source).mpr List.mem_cons_self
      refine ⟨copied :: chain, target.state :: later, choice :: choices,
        ⟨isEdge, source, isChain⟩, ?_, ?_, CopiesSteps.step ?_ steps⟩
      · rw [whole, chosen, List.append_assoc, List.singleton_append]
      · have turned : (node.state :: target.state :: later).reverse ++ above =
            (target.state :: later).reverse ++ node.state :: above := by simp
        rw [history, behind, here, List.tail_cons, List.tail_cons, turned]
      · refine ⟨transition, _, listed, stepped, ?_⟩
        have copiedState : testTree.getState copied.targetZSES = some target.state :=
          rest.copy_state.trans targetState
        simp only [SymbolicExecutionTree.transitionOf, SymbolicExecutionTree.labelOf, source,
          copiedState, isCopyOf.symbolicAction, isCopyOf.clockGuard, guard, ClockGuard.clone_eq,
          isCopyOf.clockAssignments, assignments, isCopyOf.deadline, deadline]
        rw [SymbolicExecutionTree.getState, copyFound]
        rfl

/-- The translation of a test tree tests the run to its accept state. -/
theorem ListsStates.testsRun (isTree : IsExecutionTree tools tiosts root zset trace)
    (lists : ListsStates zset testTree acceptZSES beside 0 top path references)
    (translated : Translated testTree (testTree.labelOf top) (testTree.edgesAt references)
      testCase)
    (reachable : ReachableRun tools tiosts root (trace acceptZSES).choices
      (trace acceptZSES).history) :
    TestsRun tools tiosts root (trace acceptZSES).choices testCase := by
  obtain ⟨node, found, rfl, _⟩ := isTree.rootNode
  have isState : zset.getState 0 = some node.state :=
    congrArg (Option.map SymbolicNode.state) found
  obtain ⟨chain, later, choices, isChain, whole, history, steps⟩ :=
    CopiesPath.copiesSteps isTree lists.copies isState
  have label : testTree.labelOf top = node.state.location.label := by
    rw [SymbolicExecutionTree.labelOf, lists.copies.copy_state, isState]
    rfl
  rw [isTree.rootTrace, List.nil_append] at whole
  rw [isTree.rootTrace, List.tail_cons, List.append_nil] at history
  refine ⟨_, _, label ▸ isChain_translated lists translated isChain, reachable, ?_, ?_⟩
  · rw [translated.initialLocation, label]
  · rw [history, whole, List.reverse_reverse]
    exact steps

end Walks

section Root

variable {tools : SymbolicTools} {tiosts : TIOSTS} {root : SymbolicState}
  {zset : SymbolicExecutionTree} {trace : Nat → Trace}

theorem root_accepts_iff (isTree : IsExecutionTree tools tiosts root zset trace) :
    0 ∈ zset.getAcceptZSESs ↔ root.isAcceptZSES = true := by
  obtain ⟨node, found, rfl, _⟩ := isTree.rootNode
  rw [zset.mem_getAcceptZSESs]
  constructor
  · rintro ⟨other, otherFound, accepts⟩
    cases found.symm.trans otherFound
    exact accepts
  · exact fun accepts => ⟨node, found, accepts⟩

theorem selectAllTestCases_root (isTree : IsExecutionTree tools tiosts root zset trace)
    (accepts : 0 ∈ zset.getAcceptZSESs) :
    selectAllTestCases zset = .error .nullPointer := by
  have increasing := getAcceptZSESs_increasing zset
  unfold selectAllTestCases
  cases listed : zset.getAcceptZSESs with
  | nil =>
      rw [listed] at accepts
      cases accepts
  | cons first rest =>
      rw [listed] at accepts increasing
      have isRoot : first = 0 := by
        rcases List.mem_cons.mp accepts with isFirst | later
        · exact isFirst.symm
        · exact absurd ((List.pairwise_cons.mp increasing).1 0 later) (Nat.not_lt_zero _)
      rw [isRoot, List.zipIdx_cons, List.mapM_cons, selectTestCase_root isTree]
      rfl

end Root

/-- After the execution of a product whose initial state is no accept state, one test case is
returned for each accepted run. -/
theorem exists_suite {tools : SymbolicTools} {depth rounds : Nat} {spec tp sp : TIOSTS}
    {zset : SymbolicExecutionTree} {location : Location} (specWellFormed : spec.WellFormed)
    (tpWellFormed : tp.WellFormed) (composed : synchronousProduct depth spec tp = .ok sp)
    (executed : execute tools sp rounds = .ok zset)
    (isInitial : initialLocationOf sp = .ok location)
    (rejects : (initialState tools sp location).isAcceptZSES = false) (order : IterationOrder) :
    ∃ runs testCases, (do
        let testTrees ← selectAllTestCases zset
        testTrees.mapM (fun testTree => translateTestTree order testTree sp)) = .ok testCases ∧
      runs.Pairwise (List.Shortlex (· < ·)) ∧
      (∀ choices, choices ∈ runs ↔
        IsAcceptedRun tools sp (initialState tools sp location) choices) ∧
      List.Forall₂ (TestsRun tools sp (initialState tools sp location)) runs testCases := by
  obtain ⟨_, _, _, _, run⟩ := isProductRun_of_ok specWellFormed tpWellFormed composed
  obtain ⟨other, trace, otherInitial, isTree⟩ := execute_returned executed
  cases isInitial.symm.trans otherInitial
  have registers := initialLocationOf_registers run.wellFormed isInitial
  have rootRejected : 0 ∉ zset.getAcceptZSESs := by
    rw [root_accepts_iff isTree, rejects]
    exact Bool.false_ne_true
  obtain ⟨last, levelled⟩ := execute_levelled executed
  obtain ⟨runs, testTrees, selected, inOrder, accepted, all⟩ := exists_selected isTree
    run.wellFormed registers
    (createsInconclusive_product specWellFormed tpWellFormed composed executed) levelled
    rootRejected
  have each : ∀ choices testTree,
      (FollowsRun tools sp (initialState tools sp location) choices testTree ∧
        ∃ acceptZSES ∈ zset.getAcceptZSESs, acceptZSES ≠ 0 ∧
          IsTestTree zset (inputsBeside zset) acceptZSES testTree ∧
            (trace acceptZSES).choices = choices) →
      ∃ testCase, translateTestTree order testTree sp = .ok testCase ∧
        TestsRun tools sp (initialState tools sp location) choices testCase := by
    rintro choices testTree ⟨_, acceptZSES, accepts, notRoot, isTestTree, rfl⟩
    obtain ⟨node, found, _⟩ := (zset.mem_getAcceptZSESs acceptZSES).mp accepts
    have reachable := ((run_iff run.wellFormed registers).mp (isTree.run _ node found)).1
    obtain ⟨testCase, copy, path, references, returned, lists, translated⟩ :=
      SYMBOLRT.exists_translated isTree isTestTree notRoot order sp
    exact ⟨testCase, returned, lists.testsRun isTree translated reachable⟩
  obtain ⟨testCases, translated, tested⟩ := Loops.mapM_forall₂_trans all each
  refine ⟨runs, testCases, ?_, inOrder, accepted, tested⟩
  rw [selected, ok_bind]
  exact translated

/-- Once the product has been executed, generation throws if the initial state is an accept
state, and otherwise returns one test case for each accepted run, in the shortlex order of the
runs. -/
theorem SYMBOLRT.generateTestCases_acceptedRuns {tools : SymbolicTools} {order : IterationOrder}
    {depth rounds : Nat} {spec tp tpComplete sp : TIOSTS} {zset : SymbolicExecutionTree}
    (specWellFormed : spec.WellFormed) (tpWellFormed : tp.WellFormed)
    (completed : Completion.complete order tp = .ok tpComplete)
    (composed : synchronousProduct depth spec tpComplete = .ok sp)
    (executed : execute tools sp rounds = .ok zset) :
    ∃ location, initialLocationOf sp = .ok location ∧
      ((initialState tools sp location).isAcceptZSES = true →
        generateTestCases tools order depth rounds spec tp = .error .nullPointer) ∧
      ((initialState tools sp location).isAcceptZSES = false →
        ∃ runs testCases, generateTestCases tools order depth rounds spec tp = .ok testCases ∧
          runs.Pairwise (List.Shortlex (· < ·)) ∧
          (∀ choices, choices ∈ runs ↔
            IsAcceptedRun tools sp (initialState tools sp location) choices) ∧
          List.Forall₂ (TestsRun tools sp (initialState tools sp location)) runs testCases) := by
  have completeWellFormed := complete_wellFormed tpWellFormed completed
  obtain ⟨location, trace, isInitial, isTree⟩ := execute_returned executed
  rw [generateTestCases_eq completed composed executed]
  refine ⟨location, isInitial, ?_, ?_⟩
  · intro accepts
    rw [selectAllTestCases_root isTree ((root_accepts_iff isTree).mpr accepts)]
    rfl
  · exact fun rejects => exists_suite specWellFormed completeWellFormed composed executed isInitial
      rejects order

open GenerationInstance in
/-- Two runs are accepted. -/
theorem generateTestCases_acceptedRuns_tick : ∃ sp location runs testCases,
    initialLocationOf sp = .ok location ∧ generated = .ok testCases ∧ testCases.length = 2 ∧
      runs.Pairwise (List.Shortlex (· < ·)) ∧
      (∀ choices, choices ∈ runs ↔ IsAcceptedRun LoopInstance.tools sp
        (initialState LoopInstance.tools sp location) choices) ∧
      List.Forall₂ (TestsRun LoopInstance.tools sp
        (initialState LoopInstance.tools sp location)) runs testCases := by
  obtain ⟨testCases, returned, length⟩ := exists_testCases
  obtain ⟨tpComplete, sp, zset, _, completed, composed, executed, _⟩ :=
    SYMBOLRT.generateTestCases_eq_ok.mp returned
  obtain ⟨location, isInitial, throws, returns⟩ := SYMBOLRT.generateTestCases_acceptedRuns
    TickInstance.spec_wellFormed AcceptInstance.tp_wellFormed completed composed executed
  cases accepts : (initialState LoopInstance.tools sp location).isAcceptZSES with
  | true => cases (throws accepts).symm.trans returned
  | false =>
      obtain ⟨runs, others, again, inOrder, accepted, tested⟩ := returns accepts
      cases returned.symm.trans again
      exact ⟨sp, location, runs, testCases, isInitial, returned, length, inOrder, accepted, tested⟩

end Symbolrt
