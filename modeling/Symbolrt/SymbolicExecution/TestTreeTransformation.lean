import Mathlib.Data.List.Sort
import Mathlib.Data.String.Basic
import Symbolrt.Base.GuardCopies
import Symbolrt.SymbolicExecution.Tree

/-!
# Transformation of test trees

A test tree is translated into a model.  Its states become locations with their labels and
its transitions are created between these, guarded by the path conditions of their targets.
-/

namespace Symbolrt

namespace TIOSTS

def getVariable (model : TIOSTS) (name : String) : Option TypedData :=
  model.modelVariables.find? (fun modelVariable => modelVariable.name == name)

def getActionParameter (model : TIOSTS) (name : String) : Option TypedData :=
  model.actionParameters.find? (fun actionParameter => actionParameter.name == name)

end TIOSTS

namespace TestTreeTransformation

theorem insertionSort_eq {keys others : List String} (same : keys.Perm others) :
    keys.insertionSort (· ≤ ·) = others.insertionSort (· ≤ ·) := by
  apply List.Perm.eq_of_sortedLE List.sortedLE_insertionSort List.sortedLE_insertionSort
  exact (List.perm_insertionSort _ _).trans (same.trans (List.perm_insertionSort _ _).symm)

/-- The keys of a mapping in a list, before the hash map puts them in its order. -/
def keyList (mapping : SymbolicMapping) : List String :=
  Quot.lift (fun keys : List String => keys.insertionSort (· ≤ ·))
    (fun _ _ same => insertionSort_eq same) mapping.keys.val

/-- The initial symbolic values of variables become the variables. -/
def declareVariable (sp : TIOSTS) (mapping : SymbolicMapping) (testCase : TIOSTS)
    (varName : String) : TIOSTS :=
  match sp.getVariable varName, mapping.lookup varName with
  | some modelVariable, some value => testCase.addVariable ⟨value, modelVariable.type⟩
  | _, _ => testCase

/-- An id becomes an action parameter with the type of the parameter that it names. -/
def declareParameter (sp testCase : TIOSTS) (paramId : String) : Except Failure TIOSTS :=
  match Text.split Constants.symbolicValueSeparator paramId with
  | [] => .error .indexOutOfBounds
  | name :: _ =>
      match sp.getActionParameter name with
      | some actionParameter =>
          if (testCase.getActionParameter paramId).isNone then
            .ok (testCase.addActionParameter ⟨paramId, actionParameter.type⟩)
          else .ok testCase
      | none => .ok testCase

/-- The action of a test case carries the ids as parameters. -/
def testCaseAction (symbolicAction : SymbolicAction) : Action :=
  ⟨symbolicAction.action.name, symbolicAction.action.type, symbolicAction.paramIds⟩

def translateTransition (testTree : SymbolicExecutionTree) (sp : TIOSTS)
    (currentLocationLabel : String) (testCase : TIOSTS)
    (symbolicTransition : SymbolicTransition) : Except Failure TIOSTS := do
  let targetZSES ← deref (testTree.getState symbolicTransition.targetZSES)
  let targetLocation := Location.new targetZSES.location.label false
  let action := testCaseAction symbolicTransition.symbolicAction
  let testCase ← action.parameters.foldlM (declareParameter sp)
    ((testCase.addLocation targetLocation).addAction action)
  testCase.createTransition currentLocationLabel (.written targetZSES.pathCondition)
    symbolicTransition.clockGuard.clone action none symbolicTransition.clockAssignments
    symbolicTransition.deadline targetLocation.label

/-- The loop over the unvisited states; the fuel bounds the number of states. -/
def translateStates (testTree : SymbolicExecutionTree) (sp : TIOSTS) :
    Nat → List Nat → TIOSTS → Except Failure TIOSTS
  | _, [], testCase => .ok testCase
  | 0, _ :: _, _ => .error .depthExceeded
  | fuel + 1, currentZSES :: unvisited, testCase => do
      let current ← deref (testTree.getNode currentZSES)
      let testCase ← current.childrenTransitions.foldlM
        (translateTransition testTree sp current.state.location.label) testCase
      translateStates testTree sp fuel
        (unvisited ++ current.childrenTransitions.map SymbolicTransition.targetZSES) testCase

/-- The initial condition is the guard of the first transition. -/
def setFirstCondition (testCase : TIOSTS) : Except Failure TIOSTS := do
  let label ← deref testCase.initialLocation
  let initialLocation ← deref (testCase.getLocation label)
  match initialLocation.outTransitions with
  | [] => .error .indexOutOfBounds
  | first :: _ => return testCase.setInitialCondition (some first.dataGuard)

def translateTestTree (order : IterationOrder) (testTree : SymbolicExecutionTree)
    (sp : TIOSTS) : Except Failure TIOSTS := do
  let testCase := sp.clocks.foldl (fun testCase clock => testCase.addClock clock)
    (TIOSTS.new testTree.name)
  let initialReference ← deref testTree.initialZSES
  let initialZSES ← deref (testTree.getState initialReference)
  let testCase := (order.arrange (keyList initialZSES.mapping)).foldl
    (declareVariable sp initialZSES.mapping) testCase
  let initialLocation := Location.new initialZSES.location.label false
  let testCase := (testCase.addLocation initialLocation).setInitialLocation initialLocation.label
  let testCase ← translateStates testTree sp testTree.next [initialReference] testCase
  setFirstCondition testCase

end TestTreeTransformation

end Symbolrt
