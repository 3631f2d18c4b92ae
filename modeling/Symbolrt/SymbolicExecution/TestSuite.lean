import Symbolrt.SymbolicExecution.ExecutionOrder
import Symbolrt.SymbolicExecution.SelectedTestCases

/-!
# The test suite of a product

The selected test trees are those of the accepted runs: one for each reachable run within
the upper bound that ends in an accept state, in the shortlex order of the runs.
-/

namespace Symbolrt

open SynchronousProduct SymbolicExecution TestCaseSelection

/-- The states from the given one down along the first child transitions. -/
inductive MainPath (testTree : SymbolicExecutionTree) : Nat → List SymbolicState → Prop where
  | last {reference : Nat} {node : SymbolicNode} :
      testTree.getNode reference = some node → node.childrenTransitions = [] →
      MainPath testTree reference [node.state]
  | step {reference : Nat} {node : SymbolicNode} {first : SymbolicTransition}
      {others : List SymbolicTransition} {states : List SymbolicState} :
      testTree.getNode reference = some node → node.childrenTransitions = first :: others →
      MainPath testTree first.targetZSES states →
      MainPath testTree reference (node.state :: states)

/-- The run is reachable, stays within the upper bound and ends in an accept state. -/
def IsAcceptedRun (tools : SymbolicTools) (tiosts : TIOSTS) (root : SymbolicState)
    (choices : List Nat) : Prop :=
  ∃ current above, ReachableRun tools tiosts root choices (current :: above) ∧
    AtMostTwice (current :: above) ∧ current.isAcceptZSES = true

/-- The main path of the test tree passes the states of the run. -/
def FollowsRun (tools : SymbolicTools) (tiosts : TIOSTS) (root : SymbolicState)
    (choices : List Nat) (testTree : SymbolicExecutionTree) : Prop :=
  ∃ history start, ReachableRun tools tiosts root choices history ∧
    testTree.initialZSES = some start ∧ MainPath testTree start history.reverse

theorem getAcceptZSESs_increasing (tree : SymbolicExecutionTree) :
    tree.getAcceptZSESs.Pairwise (· < ·) := by
  unfold SymbolicExecutionTree.getAcceptZSESs
  have numbered : (tree.symbolicStates.zipIdx.map Prod.snd).Pairwise (· < ·) := by
    rw [List.zipIdx_map_snd]
    exact List.pairwise_lt_range'
  exact numbered.sublist (List.filter_sublist.map Prod.snd)

section Suite

variable {tools : SymbolicTools} {tiosts : TIOSTS} {root : SymbolicState}
  {zset testTree : SymbolicExecutionTree} {trace : Nat → Trace}

/-- The copied path passes the states from the copy on that the history of the accept state
has and that of the top has not. -/
theorem CopiesPath.mainPath (isTree : IsExecutionTree tools tiosts root zset trace)
    {acceptZSES reference copy : Nat}
    {beside : SymbolicNode → SymbolicTransition → List SymbolicTransition}
    {parent : Option SymbolicTransition} {path : List SymbolicTransition} {references : List Nat}
    (copies : CopiesPath zset testTree acceptZSES beside reference parent copy path references) :
    ∃ states, MainPath testTree copy states ∧
      (trace acceptZSES).history = states.reverse ++ (trace reference).history.tail := by
  induction copies with
  | accept found copyFound =>
      obtain ⟨above, history⟩ := isTree.head found
      refine ⟨_, MainPath.last copyFound rfl, ?_⟩
      rw [history]
      rfl
  | step found member copyFound _ _ _ _ induction =>
      obtain ⟨states, mainPath, history⟩ := induction
      obtain ⟨_, target, _, _, below⟩ := isTree.child _ _ found _ member
      obtain ⟨above, here⟩ := isTree.head found
      refine ⟨_, MainPath.step copyFound rfl mainPath, ?_⟩
      rw [history, below, here, List.tail_cons, List.tail_cons, List.reverse_cons,
        List.append_assoc]
      rfl

theorem IsTestTree.followsRun (isTree : IsExecutionTree tools tiosts root zset trace)
    (wellFormed : tiosts.WellFormed) (rootRegisters : tiosts.Registers root.location)
    {beside : SymbolicNode → SymbolicTransition → List SymbolicTransition} {acceptZSES : Nat}
    (accepts : acceptZSES < zset.next) (isTestTree : IsTestTree zset beside acceptZSES testTree) :
    FollowsRun tools tiosts root (trace acceptZSES).choices testTree := by
  obtain ⟨start, copy, path, references, isStart, isTop, copies, _⟩ := isTestTree
  cases isStart.symm.trans isTree.initial
  obtain ⟨states, mainPath, history⟩ := copies.mainPath isTree
  rw [isTree.rootTrace, List.tail_cons, List.append_nil] at history
  obtain ⟨node, found⟩ := SymbolicExecutionTree.exists_getNode accepts
  refine ⟨(trace acceptZSES).history, copy,
    ((run_iff wellFormed rootRegisters).mp (isTree.run _ node found)).1, isTop, ?_⟩
  rw [history, List.reverse_reverse]
  exact mainPath

/-- The accept states are those that the accepted runs lead to. -/
theorem mem_acceptedRuns_iff (isTree : IsExecutionTree tools tiosts root zset trace)
    (wellFormed : tiosts.WellFormed) (rootRegisters : tiosts.Registers root.location)
    (choices : List Nat) :
    choices ∈ zset.getAcceptZSESs.map (fun reference => (trace reference).choices) ↔
      IsAcceptedRun tools tiosts root choices := by
  rw [List.mem_map]
  constructor
  · rintro ⟨reference, accepts, rfl⟩
    obtain ⟨node, found, isAccept⟩ := (zset.mem_getAcceptZSESs reference).mp accepts
    obtain ⟨reachable, twice⟩ :=
      (run_iff wellFormed rootRegisters).mp (isTree.run reference node found)
    obtain ⟨above, history⟩ := isTree.head found
    rw [history] at reachable twice
    exact ⟨node.state, above, reachable, twice, isAccept⟩
  · rintro ⟨current, above, reachable, twice, isAccept⟩
    obtain ⟨reference, inside, traceEq⟩ :=
      isTree.choices_iff.mp ((run_iff wellFormed rootRegisters).mpr ⟨reachable, twice⟩)
    obtain ⟨node, found⟩ := SymbolicExecutionTree.exists_getNode inside
    obtain ⟨_, history⟩ := isTree.head found
    rw [traceEq] at history
    obtain ⟨rfl, _⟩ := List.cons.inj history
    refine ⟨reference, (zset.mem_getAcceptZSESs reference).mpr ⟨node, found, isAccept⟩, ?_⟩
    rw [traceEq]

/-- The selected test trees are those of the accepted runs. -/
theorem exists_selected (isTree : IsExecutionTree tools tiosts root zset trace)
    (wellFormed : tiosts.WellFormed) (rootRegisters : tiosts.Registers root.location)
    (creates : CreatesInconclusive zset) {last : Nat} (levelled : Levelled zset last)
    (rootRejected : 0 ∉ zset.getAcceptZSESs) :
    ∃ runs testTrees, selectAllTestCases zset = .ok testTrees ∧
      runs.Pairwise (List.Shortlex (· < ·)) ∧
      (∀ choices, choices ∈ runs ↔ IsAcceptedRun tools tiosts root choices) ∧
      List.Forall₂ (fun choices testTree => FollowsRun tools tiosts root choices testTree ∧
        ∃ acceptZSES ∈ zset.getAcceptZSESs, acceptZSES ≠ 0 ∧
          IsTestTree zset (inputsBeside zset) acceptZSES testTree ∧
            (trace acceptZSES).choices = choices) runs testTrees := by
  obtain ⟨testTrees, selected, all⟩ :=
    selectAllTestCases_returns isTree wellFormed rootRegisters creates rootRejected
  have inside : ∀ reference ∈ zset.getAcceptZSESs, reference < zset.next := by
    intro reference accepts
    obtain ⟨_, found, _⟩ := (zset.mem_getAcceptZSESs reference).mp accepts
    exact SymbolicExecutionTree.lt_next_of_getNode found
  refine ⟨zset.getAcceptZSESs.map (fun reference => (trace reference).choices), testTrees,
    selected, ?_, mem_acceptedRuns_iff isTree wellFormed rootRegisters, ?_⟩
  · rw [List.pairwise_map]
    refine (getAcceptZSESs_increasing zset).imp_of_mem ?_
    intro reference other _ otherAccepts before
    exact (isTree.numbering levelled).shortlex before (inside other otherAccepts)
  · rw [List.forall₂_map_left_iff]
    refine List.forall₂_iff_get.mpr ⟨all.length_eq, ?_⟩
    intro position first second
    have isTestTree := all.get first second
    have accepts := List.getElem_mem first
    exact ⟨isTestTree.followsRun isTree wellFormed rootRegisters (inside _ accepts), _, accepts,
      fun isRoot => rootRejected (isRoot ▸ accepts), isTestTree, rfl⟩

end Suite

/-- One test tree is selected for each accepted run of the product, in the shortlex order of
the runs, and its main path passes the states of the run. -/
theorem selectAllTestCases_acceptedRuns (tools : SymbolicTools) {spec tp product : TIOSTS}
    {depth rounds : Nat} {zset : SymbolicExecutionTree} (specWellFormed : spec.WellFormed)
    (tpWellFormed : tp.WellFormed) (returned : synchronousProduct depth spec tp = .ok product)
    (executed : execute tools product rounds = .ok zset)
    (rootRejected : ∀ root ∈ zset.initialZSES, root ∉ zset.getAcceptZSESs) :
    ∃ location runs testTrees, initialLocationOf product = .ok location ∧
      selectAllTestCases zset = .ok testTrees ∧ runs.Pairwise (List.Shortlex (· < ·)) ∧
      (∀ choices, choices ∈ runs ↔
        IsAcceptedRun tools product (initialState tools product location) choices) ∧
      List.Forall₂ (FollowsRun tools product (initialState tools product location)) runs
        testTrees := by
  obtain ⟨_, _, _, _, run⟩ := isProductRun_of_ok specWellFormed tpWellFormed returned
  obtain ⟨location, trace, isInitial, isTree⟩ := execute_returned executed
  obtain ⟨last, levelled⟩ := execute_levelled executed
  obtain ⟨runs, testTrees, selected, inOrder, accepted, all⟩ := exists_selected isTree
    run.wellFormed (initialLocationOf_registers run.wellFormed isInitial)
    (createsInconclusive_product specWellFormed tpWellFormed returned executed) levelled
    (rootRejected 0 isTree.initial)
  exact ⟨location, runs, testTrees, isInitial, selected, inOrder, accepted,
    all.imp (fun _ _ both => both.1)⟩

open SelectionInstance AcceptInstance in
/-- The payment is the only accepted run. -/
theorem selectAllTestCases_acceptedRuns_cancel : ∃ product zset location runs testTrees,
    synchronousProduct 4 (SelectionInstance.spec "Start") tp = .ok product ∧
      execute LoopInstance.tools product 5 = .ok zset ∧ zset.getAcceptZSESs = [2] ∧
      initialLocationOf product = .ok location ∧ selectAllTestCases zset = .ok testTrees ∧
      runs.Pairwise (List.Shortlex (· < ·)) ∧
      (∀ choices, choices ∈ runs ↔ IsAcceptedRun LoopInstance.tools product
        (initialState LoopInstance.tools product location) choices) ∧
      List.Forall₂ (FollowsRun LoopInstance.tools product
        (initialState LoopInstance.tools product location)) runs testTrees := by
  have ran : (SelectionInstance.run (SelectionInstance.spec "Start")).toOption.map
      (SelectionInstance.checked [2] (fun zset => decide (zset.initialZSES = some 0))) =
        some true := by decide +kernel
  obtain ⟨product, zset, composed, executed, accepts, initial⟩ := exists_run ran
  have rejected : ∀ root ∈ zset.initialZSES, root ∉ zset.getAcceptZSESs := by
    intro root isRoot
    rw [of_decide_eq_true initial] at isRoot
    rw [accepts, ← Option.some.inj isRoot]
    decide
  obtain ⟨location, runs, testTrees, exact⟩ := selectAllTestCases_acceptedRuns LoopInstance.tools
    (SelectionInstance.spec_wellFormed "Start" (by decide)) tp_wellFormed composed executed rejected
  exact ⟨product, zset, location, runs, testTrees, composed, executed, accepts, exact⟩

end Symbolrt
