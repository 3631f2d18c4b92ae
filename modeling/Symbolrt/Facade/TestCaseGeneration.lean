import Symbolrt.Algorithms.CompletedTransitions
import Symbolrt.SymbolicExecution.TestCasePaths
import Symbolrt.SymbolicExecution.TestSuite

/-!
# Generation of test cases

The facade runs the steps one behind the other: completion of the test purpose, synchronous
product, symbolic execution, selection and translation.  Three steps declare an exception,
which is printed; what the step should have returned is null then.
-/

namespace Symbolrt

open SynchronousProduct SymbolicExecution TestCaseSelection TestTreeTransformation

namespace SYMBOLRT

/-- A caught exception is printed and leaves null. -/
def printing {α : Type} (isCaught : Failure → Bool) :
    Except Failure α → Except Failure (Option α)
  | .ok value => .ok (some value)
  | .error failure => if isCaught failure then .ok none else .error failure

def isClockGuardException : Failure → Bool
  | .clockGuard _ => true
  | _ => false

def isIncompatibleSynchronousProductException : Failure → Bool
  | .incompatibleSynchronousProduct _ => true
  | _ => false

def isSymbolicValueNameException : Failure → Bool
  | .symbolicValueName _ => true
  | _ => false

/-- The test cases of a specification and a test purpose, with the recursion and the loop of
the second and the third step cut off. -/
def generateTestCases (tools : SymbolicTools) (order : IterationOrder) (depth rounds : Nat)
    (specification testPurpose : TIOSTS) : Except Failure (List TIOSTS) := do
  let tpComplete ← printing isClockGuardException (Completion.complete order testPurpose)
  -- every step dereferences the result of the one before it at once
  let tpComplete ← deref tpComplete
  let sp ← printing isIncompatibleSynchronousProductException
    (synchronousProduct depth specification tpComplete)
  let sp ← deref sp
  let zset ← printing isSymbolicValueNameException (execute tools sp rounds)
  let zset ← deref zset
  let testTrees ← selectAllTestCases zset
  testTrees.mapM (fun testTree => translateTestTree order testTree sp)

theorem printing_deref {α : Type} (isCaught : Failure → Bool) (step : Except Failure α)
    {value : α} : (∃ result, printing isCaught step = .ok result ∧ deref result = .ok value) ↔
      step = .ok value := by
  cases step with
  | ok other =>
      constructor
      · rintro ⟨result, printed, found⟩
        cases printed
        cases found
        rfl
      · rintro ⟨⟩
        exact ⟨some _, rfl, rfl⟩
  | error failure =>
      constructor
      · rintro ⟨result, printed, found⟩
        rw [printing] at printed
        split at printed
        · cases printed
          cases found
        · cases printed
      · intro returned
        cases returned

theorem complete_wellFormed {order : IterationOrder} {tp tpComplete : TIOSTS}
    (wellFormed : tp.WellFormed)
    (completed : Completion.complete order tp = .ok tpComplete) : tpComplete.WellFormed := by
  obtain ⟨_, _, grown⟩ := Completion.complete_grown wellFormed completed
  exact grown.wellFormed

section Steps

variable {tools : SymbolicTools} {order : IterationOrder} {depth rounds : Nat}
  {spec tp tpComplete sp : TIOSTS} {zset : SymbolicExecutionTree}

theorem generateTestCases_eq (completed : Completion.complete order tp = .ok tpComplete)
    (composed : synchronousProduct depth spec tpComplete = .ok sp)
    (executed : execute tools sp rounds = .ok zset) :
    generateTestCases tools order depth rounds spec tp = (do
      let testTrees ← selectAllTestCases zset
      testTrees.mapM (fun testTree => translateTestTree order testTree sp)) := by
  rw [generateTestCases, completed]
  simp only [printing, ok_bind, deref_some, composed, executed]

/-- Test cases are the result of all the steps. -/
theorem generateTestCases_eq_ok {testCases : List TIOSTS} :
    generateTestCases tools order depth rounds spec tp = .ok testCases ↔
      ∃ tpComplete sp zset testTrees, Completion.complete order tp = .ok tpComplete ∧
        synchronousProduct depth spec tpComplete = .ok sp ∧
        execute tools sp rounds = .ok zset ∧ selectAllTestCases zset = .ok testTrees ∧
        testTrees.mapM (fun testTree => translateTestTree order testTree sp) =
          .ok testCases := by
  constructor
  · intro generated
    simp only [generateTestCases, bind_eq_ok] at generated
    obtain ⟨printedTp, completed, tpComplete, isTp, printedSp, composed, sp, isSp, printedZset,
      executed, zset, isZset, testTrees, selected, translated⟩ := generated
    exact ⟨tpComplete, sp, zset, testTrees,
      (printing_deref _ _).mp ⟨printedTp, completed, isTp⟩,
      (printing_deref _ _).mp ⟨printedSp, composed, isSp⟩,
      (printing_deref _ _).mp ⟨printedZset, executed, isZset⟩, selected, translated⟩
  · rintro ⟨tpComplete, sp, zset, testTrees, completed, composed, executed, selected, translated⟩
    rw [generateTestCases_eq completed composed executed, selected, ok_bind]
    exact translated

end Steps

/-- Every test tree is translated; it lists the states below the root of the full tree. -/
theorem exists_translated {tools : SymbolicTools} {tiosts : TIOSTS} {root : SymbolicState}
    {zset testTree : SymbolicExecutionTree} {trace : Nat → Trace} {acceptZSES : Nat}
    (isTree : IsExecutionTree tools tiosts root zset trace)
    (isTestTree : IsTestTree zset (inputsBeside zset) acceptZSES testTree)
    (notRoot : acceptZSES ≠ 0) (order : IterationOrder) (sp : TIOSTS) :
    ∃ testCase copy path references, translateTestTree order testTree sp = .ok testCase ∧
      ListsStates zset testTree acceptZSES (inputsBeside zset) 0 copy path references ∧
      Translated testTree (testTree.labelOf copy) (testTree.edgesAt references) testCase := by
  obtain ⟨reference, copy, path, references, isRoot, initial, copies, only⟩ := isTestTree
  cases isTree.initial.symm.trans isRoot
  have below : path ≠ [] := by
    rintro rfl
    cases copies
    exact notRoot rfl
  obtain ⟨testCase, returned, translated⟩ := translateTestTree_returns sp order initial copies only
    below (splits_copies isTree copies)
  exact ⟨testCase, copy, path, references, returned, ⟨initial, copies, only⟩, translated⟩

end SYMBOLRT

namespace GenerationInstance

open SYMBOLRT

def order : IterationOrder := ⟨id, IterationOrder.id_perm⟩

def generated : Except Failure (List TIOSTS) :=
  generateTestCases LoopInstance.tools order 4 7 TickInstance.spec AcceptInstance.tp

theorem exists_testCases : ∃ testCases, generated = .ok testCases ∧ testCases.length = 2 := by
  have ran : generated.toOption.map (fun testCases => decide (testCases.length = 2)) =
    some true := by decide +kernel
  obtain ⟨testCases, returned, length⟩ := exists_checked ran
  exact ⟨testCases, returned, of_decide_eq_true length⟩

end GenerationInstance

end Symbolrt
