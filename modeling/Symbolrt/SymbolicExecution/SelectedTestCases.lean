import Symbolrt.SymbolicExecution.TestTrees

/-!
# The selected test cases

On the tree of a product whose root is no accept state, the selection returns a test tree
for every accept state.  Beside an output or internal transition of the path, all input
transitions are added, those with the same action name and target included.
-/

namespace Symbolrt

open SynchronousProduct SymbolicExecution TestCaseSelection

/-- The selection returns, and the test tree in the place of the accept state is one for it. -/
def SelectsTestTree (zset : SymbolicExecutionTree)
    (beside : SymbolicNode → SymbolicTransition → List SymbolicTransition) (acceptZSES : Nat) :
    Prop :=
  ∃ (testTrees : List SymbolicExecutionTree) (position : Nat) (testTree : SymbolicExecutionTree),
    selectAllTestCases zset = .ok testTrees ∧
    zset.getAcceptZSESs[position]? = some acceptZSES ∧
    testTrees[position]? = some testTree ∧ IsTestTree zset beside acceptZSES testTree

section Selected

variable {tools : SymbolicTools} {spec tp product : TIOSTS} {depth rounds : Nat}
  {zset : SymbolicExecutionTree}

/-- The labels of a product are joined, so inconclusive locations can be made of them. -/
theorem createsInconclusive_product (specWellFormed : spec.WellFormed)
    (tpWellFormed : tp.WellFormed) (returned : synchronousProduct depth spec tp = .ok product)
    (executed : execute tools product rounds = .ok zset) : CreatesInconclusive zset := by
  obtain ⟨_, _, _, _, run⟩ := isProductRun_of_ok specWellFormed tpWellFormed returned
  intro reference state found
  obtain ⟨pair, isPair⟩ := exists_isPairOf specWellFormed tpWellFormed returned
    (execute_registers run.wellFormed executed found)
  apply createInconclusiveLocation_ok
  rw [← isPair.label_eq, LocationPair.label, pairLabel_toList]
  exact List.mem_append_right _ List.mem_cons_self

theorem selectAllTestCases_returns {tiosts : TIOSTS} {root : SymbolicState} {trace : Nat → Trace}
    (isTree : IsExecutionTree tools tiosts root zset trace) (wellFormed : tiosts.WellFormed)
    (rootRegisters : tiosts.Registers root.location) (creates : CreatesInconclusive zset)
    (rootRejected : 0 ∉ zset.getAcceptZSESs) :
    ∃ testTrees, selectAllTestCases zset = .ok testTrees ∧
      List.Forall₂ (IsTestTree zset (inputsBeside zset)) zset.getAcceptZSESs testTrees := by
  obtain ⟨testTrees, selected, all⟩ := @Loops.mapM_forall₂ _ _ _ _
    (fun entry testTree => IsTestTree zset (inputsBeside zset) entry.1 testTree)
    (zset.getAcceptZSESs.zipIdx 1) (fun entry among => by
      have member : entry.1 ∈ zset.getAcceptZSESs :=
        List.fst_mem_of_mem_zipIdx among
      obtain ⟨node, found, _⟩ := (zset.mem_getAcceptZSESs entry.1).mp member
      have notRoot : entry.1 ≠ 0 := fun isRoot => rootRejected (isRoot ▸ member)
      exact selectTestCase_returns isTree wellFormed rootRegisters creates found notRoot
        ("TestTree_TC" ++ Nat.repr entry.2))
  refine ⟨testTrees, selected, ?_⟩
  have numbered := List.forall₂_map_left_iff.mpr all
  rwa [List.zipIdx_map_fst] at numbered

/-- What has been selected is a test tree for an accept state other than the root. -/
theorem isTestTree_of_selected {tiosts : TIOSTS} {root : SymbolicState} {trace : Nat → Trace}
    (isTree : IsExecutionTree tools tiosts root zset trace) (wellFormed : tiosts.WellFormed)
    (rootRegisters : tiosts.Registers root.location) {testTrees : List SymbolicExecutionTree}
    (selected : selectAllTestCases zset = .ok testTrees) {testTree : SymbolicExecutionTree}
    (member : testTree ∈ testTrees) :
    ∃ acceptZSES, acceptZSES ≠ 0 ∧ IsTestTree zset (inputsBeside zset) acceptZSES testTree := by
  obtain ⟨entry, among, returned⟩ := Loops.mapM_mem selected member
  obtain ⟨node, found, _⟩ := (zset.mem_getAcceptZSESs entry.1).mp (List.fst_mem_of_mem_zipIdx among)
  exact ⟨entry.1, isTestTree_of_ok isTree wellFormed rootRegisters found returned⟩

/-- Exactly one test tree is selected for each accept state: the copy of the path to it, and
for every state of the path and every input transition of it that the path does not take an
inconclusive leaf. -/
theorem selectAllTestCases_builds (tools : SymbolicTools) (specWellFormed : spec.WellFormed)
    (tpWellFormed : tp.WellFormed) (returned : synchronousProduct depth spec tp = .ok product)
    (executed : execute tools product rounds = .ok zset)
    (rootRejected : ∀ root ∈ zset.initialZSES, root ∉ zset.getAcceptZSESs) :
    ∃ testTrees, selectAllTestCases zset = .ok testTrees ∧
      List.Forall₂ (IsTestTree zset (inputsBeside zset)) zset.getAcceptZSESs testTrees := by
  obtain ⟨_, _, _, _, run⟩ := isProductRun_of_ok specWellFormed tpWellFormed returned
  obtain ⟨location, trace, isInitial, isTree⟩ := execute_returned executed
  exact selectAllTestCases_returns isTree run.wellFormed
    (initialLocationOf_registers run.wellFormed isInitial)
    (createsInconclusive_product specWellFormed tpWellFormed returned executed)
    (rootRejected 0 isTree.initial)

end Selected

section Counting

variable {zset testTree : SymbolicExecutionTree} {acceptZSES : Nat}
  {beside other : SymbolicNode → SymbolicTransition → List SymbolicTransition}

theorem CopiesPath.path_eq_nil {reference copy : Nat} {parent : Option SymbolicTransition}
    {path : List SymbolicTransition} {references : List Nat} {node : SymbolicNode}
    (copies : CopiesPath zset testTree acceptZSES beside reference parent copy path references)
    (copyFound : testTree.getNode copy = some node) (leaf : node.childrenTransitions = []) :
    path = [] ∧ reference = acceptZSES := by
  cases copies with
  | accept => exact ⟨rfl, rfl⟩
  | step _ _ found =>
      cases copyFound.symm.trans found
      cases leaf

/-- The last step of the path has as many leaves beside it in one reading of a test tree as
in another. -/
theorem CopiesPath.last_leaves {reference copy otherReference : Nat}
    {parent otherParent : Option SymbolicTransition} {path otherPath : List SymbolicTransition}
    {references otherReferences : List Nat}
    (copies : CopiesPath zset testTree acceptZSES beside reference parent copy path references)
    (others : CopiesPath zset testTree acceptZSES other otherReference otherParent copy otherPath
      otherReferences) (below : path ≠ []) :
    ∃ source node taken otherSource otherNode otherTaken,
      (zset.getNode source = some node ∧ taken ∈ node.childrenTransitions ∧
        taken.targetZSES = acceptZSES) ∧
      (zset.getNode otherSource = some otherNode ∧ otherTaken ∈ otherNode.childrenTransitions ∧
        otherTaken.targetZSES = acceptZSES) ∧
      (beside node taken).length = (other otherNode otherTaken).length := by
  induction copies generalizing otherReference otherParent otherPath otherReferences with
  | accept => exact absurd rfl below
  | @step _ _ _ _ _ _ _ rest _ found member copyFound _ _ areLeaves copiesBelow induction =>
      cases others with
      | accept _ otherFound =>
          have same := Option.some.inj (copyFound.symm.trans otherFound)
          cases congrArg SymbolicNode.childrenTransitions same
      | step otherFound otherMember otherCopy _ _ otherLeaves othersBelow =>
          have same := Option.some.inj (copyFound.symm.trans otherCopy)
          obtain ⟨rfl, rfl⟩ := List.cons.inj (congrArg SymbolicNode.childrenTransitions same)
          by_cases last : rest = []
          · cases copiesBelow with
            | accept _ lastCopy =>
                obtain ⟨_, isLast⟩ := othersBelow.path_eq_nil lastCopy rfl
                exact ⟨_, _, _, _, _, _, ⟨found, member, rfl⟩, ⟨otherFound, otherMember, isLast⟩,
                  areLeaves.length_eq.trans otherLeaves.length_eq.symm⟩
            | step => cases last
          · exact induction othersBelow last

/-- Both readings have the same number of leaves beside the last step of the path. -/
theorem IsTestTree.last_leaves {tools : SymbolicTools} {tiosts : TIOSTS} {root : SymbolicState}
    {trace : Nat → Trace} (isTree : IsExecutionTree tools tiosts root zset trace)
    (isTestTree : IsTestTree zset beside acceptZSES testTree)
    (isOther : IsTestTree zset other acceptZSES testTree) (notRoot : acceptZSES ≠ 0) :
    ∃ source node taken, zset.getNode source = some node ∧ taken ∈ node.childrenTransitions ∧
      taken.targetZSES = acceptZSES ∧ (beside node taken).length = (other node taken).length := by
  obtain ⟨start, copy, path, _, isStart, isTop, copies, _⟩ := isTestTree
  obtain ⟨_, _, _, _, _, otherTop, others, _⟩ := isOther
  cases isTop.symm.trans otherTop
  cases isStart.symm.trans isTree.initial
  have below : path ≠ [] := by
    rintro rfl
    cases copies
    exact notRoot rfl
  obtain ⟨source, node, taken, otherSource, otherNode, otherTaken, ⟨found, member, target⟩,
    ⟨otherFound, otherMember, otherTarget⟩, same⟩ := copies.last_leaves others below
  obtain ⟨sourceEq, reached, reachedFound, parent, _⟩ := isTree.child source node found taken member
  obtain ⟨otherSourceEq, otherReached, otherReachedFound, otherParent, _⟩ :=
    isTree.child otherSource otherNode otherFound otherTaken otherMember
  rw [target] at reachedFound
  rw [otherTarget] at otherReachedFound
  cases reachedFound.symm.trans otherReachedFound
  cases parent.symm.trans otherParent
  cases sourceEq.symm.trans otherSourceEq
  cases found.symm.trans otherFound
  exact ⟨source, node, taken, found, member, target, same⟩

end Counting

namespace SelectionInstance

open AcceptInstance (enter pay tp tp_wellFormed)

def cancel : Action := ⟨"cancel", .output, []⟩

/-- The payment can be cancelled. -/
def transitions (start : String) : List Transition :=
  [.bare start enter "Ready", .bare "Ready" pay "Paid", .bare "Ready" cancel "Idle"]

def spec (start : String) : TIOSTS :=
  .assemble (.declare "S" [enter, pay, cancel] [] [] []) [start, "Ready", "Paid", "Idle"] start
    (transitions start)

/-- The payment as an input. -/
def ask : Action := ⟨"pay", .input, []⟩

def anytime : ClockGuard := ⟨[⟨1, "x", .geq, "0", isName_x, isNumeral_zero⟩]⟩

/-- The payment is an input and an output. -/
def twinTransitions : List Transition :=
  [.bare "Start" enter "Ready", .bare "Ready" ask "Paid",
    { Transition.bare "Ready" pay "Paid" with clockGuard := anytime }]

def twinSpec : TIOSTS :=
  .assemble (.declare "S" [enter, ask, pay] [] [] ["x"]) ["Start", "Ready", "Paid"] "Start"
    twinTransitions

theorem twinSpec_wellFormed : twinSpec.WellFormed :=
  TIOSTS.assemble_wellFormed (TIOSTS.declare_isBlank _ _ _ _ _) (by decide)

theorem spec_wellFormed (start : String)
    (uses : TIOSTS.Uses (.declare "S" [enter, pay, cancel] [] [] [])
      [start, "Ready", "Paid", "Idle"]
      start (transitions start)) : (spec start).WellFormed :=
  TIOSTS.assemble_wellFormed (TIOSTS.declare_isBlank _ _ _ _ _) uses

/-- The product and its tree. -/
def run (spec : TIOSTS) : Except Failure (TIOSTS × SymbolicExecutionTree) := do
  let product ← synchronousProduct 4 spec tp
  let zset ← execute LoopInstance.tools product 5
  return (product, zset)

/-- The accept states, and what else is checked. -/
def checked (accepts : List Nat) (also : SymbolicExecutionTree → Bool)
    (ran : TIOSTS × SymbolicExecutionTree) : Bool :=
  decide (ran.2.getAcceptZSESs = accepts) && also ran.2

theorem exists_run {spec : TIOSTS} {accepts : List Nat} {also : SymbolicExecutionTree → Bool}
    (ran : (run spec).toOption.map (checked accepts also) = some true) :
    ∃ product zset, synchronousProduct 4 spec tp = .ok product ∧
      execute LoopInstance.tools product 5 = .ok zset ∧ zset.getAcceptZSESs = accepts ∧
      also zset = true := by
  obtain ⟨⟨product, zset⟩, returned, holds⟩ := exists_checked ran
  obtain ⟨_, composed, returned⟩ := bind_eq_ok.mp returned
  obtain ⟨_, executed, returned⟩ := bind_eq_ok.mp returned
  cases returned
  obtain ⟨accepted, others⟩ := (Bool.and_eq_true _ _).mp holds
  exact ⟨product, zset, composed, executed, of_decide_eq_true accepted, others⟩

/-- A leaf too many stands beside the step to the accept state. -/
def hasTwin (acceptZSES : Nat) (zset : SymbolicExecutionTree) : Bool :=
  zset.symbolicStates.all (fun node => node.childrenTransitions.all (fun taken =>
    taken.targetZSES != acceptZSES ||
      (inputsBeside zset node taken).length != (inputsOtherThan zset node taken).length))

theorem hasTwin_ne {acceptZSES : Nat} {zset : SymbolicExecutionTree}
    (twin : hasTwin acceptZSES zset = true) {source : Nat} {node : SymbolicNode}
    {taken : SymbolicTransition} (found : zset.getNode source = some node)
    (member : taken ∈ node.childrenTransitions) (target : taken.targetZSES = acceptZSES) :
    (inputsBeside zset node taken).length ≠ (inputsOtherThan zset node taken).length := by
  have listed : node ∈ zset.symbolicStates := List.mem_of_getElem? found
  have each := List.all_eq_true.mp (List.all_eq_true.mp twin node listed) taken member
  rcases (Bool.or_eq_true _ _).mp each with other | different
  · exact absurd target (bne_iff_ne.mp other)
  · exact bne_iff_ne.mp different

end SelectionInstance

open SelectionInstance AcceptInstance in
theorem selectAllTestCases_builds_cancel : ∃ product zset testTrees,
    synchronousProduct 4 (SelectionInstance.spec "Start") tp = .ok product ∧
      execute LoopInstance.tools product 5 = .ok zset ∧ zset.getAcceptZSESs = [2] ∧
      selectAllTestCases zset = .ok testTrees ∧
      List.Forall₂ (IsTestTree zset (inputsBeside zset)) [2] testTrees := by
  have ran : (SelectionInstance.run (SelectionInstance.spec "Start")).toOption.map
      (SelectionInstance.checked [2] (fun zset => decide (zset.initialZSES = some 0))) =
        some true := by decide +kernel
  obtain ⟨product, zset, composed, executed, accepts, initial⟩ := exists_run ran
  have rejected : ∀ root ∈ zset.initialZSES, root ∉ zset.getAcceptZSESs := by
    intro root isRoot
    rw [of_decide_eq_true initial] at isRoot
    rw [accepts, ← Option.some.inj isRoot]
    decide
  obtain ⟨testTrees, selected, all⟩ := selectAllTestCases_builds LoopInstance.tools
    (SelectionInstance.spec_wellFormed "Start" (by decide)) tp_wellFormed composed executed rejected
  rw [accepts] at all
  exact ⟨product, zset, testTrees, composed, executed, accepts, selected, all⟩

open SelectionInstance AcceptInstance in
/-- Beside the output to the accept state there is a leaf for the equal input, and with an
accept state at the root there is no test tree at all. -/
theorem selectAllTestCases_differs :
    (∃ product zset acceptZSES, twinSpec.WellFormed ∧ tp.WellFormed ∧
      synchronousProduct 4 twinSpec tp = .ok product ∧
      execute LoopInstance.tools product 5 = .ok zset ∧ acceptZSES ∈ zset.getAcceptZSESs ∧
      (∀ root ∈ zset.initialZSES, root ∉ zset.getAcceptZSESs) ∧
      ¬ SelectsTestTree zset (inputsOtherThan zset) acceptZSES) ∧
    (∃ product zset acceptZSES, (SelectionInstance.spec "AcceptStart").WellFormed ∧
      tp.WellFormed ∧
      synchronousProduct 4 (SelectionInstance.spec "AcceptStart") tp = .ok product ∧
      execute LoopInstance.tools product 5 = .ok zset ∧ acceptZSES ∈ zset.getAcceptZSESs ∧
      (∀ root ∈ zset.initialZSES, acceptZSES ≠ root) ∧
      ¬ SelectsTestTree zset (inputsOtherThan zset) acceptZSES) := by
  constructor
  · have ran : (SelectionInstance.run twinSpec).toOption.map
        (SelectionInstance.checked [2, 3] (hasTwin 2)) = some true := by decide +kernel
    obtain ⟨product, zset, composed, executed, accepts, twin⟩ := exists_run ran
    obtain ⟨_, _, _, _, run⟩ := isProductRun_of_ok twinSpec_wellFormed tp_wellFormed composed
    obtain ⟨location, trace, isInitial, isTree⟩ := execute_returned executed
    have rejected : 0 ∉ zset.getAcceptZSESs := by
      rw [accepts]
      decide
    refine ⟨product, zset, 2, twinSpec_wellFormed, tp_wellFormed, composed, executed, ?_, ?_, ?_⟩
    · rw [accepts]
      decide
    · intro root isRoot
      rw [← Option.some.inj (isTree.initial.symm.trans isRoot)]
      exact rejected
    · rintro ⟨testTrees, position, testTree, selected, isAccept, isAt, isTestTree⟩
      obtain ⟨others, otherSelected, all⟩ := selectAllTestCases_returns isTree run.wellFormed
        (initialLocationOf_registers run.wellFormed isInitial)
        (createsInconclusive_product twinSpec_wellFormed tp_wellFormed composed executed) rejected
      cases selected.symm.trans otherSelected
      have own : IsTestTree zset (inputsBeside zset) 2 testTree :=
        InStep.related_at all isAccept isAt
      obtain ⟨source, node, taken, found, member, target, same⟩ :=
        own.last_leaves isTree isTestTree (by decide)
      exact hasTwin_ne twin found member target same
  · have ran : (SelectionInstance.run (SelectionInstance.spec "AcceptStart")).toOption.map
        (SelectionInstance.checked [0, 2] (fun zset => decide (zset.initialZSES = some 0) &&
          (selectAllTestCases zset).toOption.isNone)) = some true := by decide +kernel
    obtain ⟨product, zset, composed, executed, accepts, others⟩ := exists_run ran
    obtain ⟨initial, failed⟩ := (Bool.and_eq_true _ _).mp others
    refine ⟨product, zset, 2, SelectionInstance.spec_wellFormed "AcceptStart" (by decide),
      tp_wellFormed, composed, executed, ?_, ?_, ?_⟩
    · rw [accepts]
      decide
    · intro root isRoot
      rw [← Option.some.inj ((of_decide_eq_true initial).symm.trans isRoot)]
      decide
    · rintro ⟨testTrees, _, _, selected, _⟩
      rw [selected] at failed
      cases failed

end Symbolrt
