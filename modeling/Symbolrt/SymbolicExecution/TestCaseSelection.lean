import Symbolrt.Base.GuardCopies
import Symbolrt.SymbolicExecution.Tree

/-!
# Selection of test cases

A test tree is built for each accept state.  The path to the state is copied from the
state upwards, and on the way down the input transitions that the copied path does not
take are added with inconclusive targets.
-/

namespace Symbolrt

/-- The comparison of the states that two references lead to. -/
def SymbolicExecutionTree.equalStates (tree other : SymbolicExecutionTree)
    (reference otherReference : Nat) : Bool :=
  match tree.getState reference, other.getState otherReference with
  | some state, some otherState => state.equals otherState
  | _, _ => false

/-- The two transitions may belong to different trees. -/
def SymbolicTransition.equals (tree otherTree : SymbolicExecutionTree)
    (transition other : SymbolicTransition) : Bool :=
  tree.equalStates otherTree transition.sourceZSES other.sourceZSES &&
    transition.symbolicAction.equals other.symbolicAction &&
    tree.equalStates otherTree transition.targetZSES other.targetZSES

namespace TestCaseSelection

/-- The copy of the parent is added and linked with the copy below it. -/
def addParent (transition : SymbolicTransition) (parentZSES : SymbolicState)
    (currentTTZSES : Nat) (testTree : SymbolicExecutionTree) : SymbolicExecutionTree :=
  let parentTTZSES := testTree.next
  let newTTTransition : SymbolicTransition :=
    ⟨parentTTZSES, transition.symbolicAction, transition.clockGuard.clone,
      transition.clockAssignments, transition.deadline, currentTTZSES⟩
  ((testTree.addSymbolicState (SymbolicNode.new parentZSES)).updateNode currentTTZSES
    (SymbolicNode.setParentTransition newTTTransition)).updateNode parentTTZSES
      (SymbolicNode.addChildTransition newTTTransition)

/-- The loop up to the root; the fuel bounds the number of states on the path. -/
def climb (zset : SymbolicExecutionTree) :
    Nat → Nat → Option Nat → Nat → SymbolicExecutionTree → Except Failure SymbolicExecutionTree
  | 0, _, _, _, _ => .error .depthExceeded
  | fuel + 1, zses, parentTTZSES, currentTTZSES, testTree => do
      let node ← deref (zset.getNode zses)
      match node.parentTransition with
      | none => return testTree.setInitialZSES parentTTZSES
      | some transition => do
          let parentZSES ← deref (zset.getState transition.sourceZSES)
          climb zset fuel transition.sourceZSES (some testTree.next) testTree.next
            (addParent transition parentZSES currentTTZSES testTree)

def backwardTraversal (zset : SymbolicExecutionTree) (acceptZSES : Nat)
    (testTree : SymbolicExecutionTree) : Except Failure SymbolicExecutionTree := do
  let state ← deref (zset.getState acceptZSES)
  -- without a parent transition the initial state stays null
  climb zset (zset.next + 1) acceptZSES none testTree.next
    (testTree.addSymbolicState (SymbolicNode.new state))

/-- The label up to the character before the last occurrence of the word. -/
def cutLabel (label word : String) : Except Failure String :=
  match Text.lastIndexOf label word with
  | some (position + 1) => .ok (Text.takePrefix label position)
  | _ => .error .indexOutOfBounds

/-- The label without a special label at its end. -/
def shortenLabel (oldLabel : String) : Except Failure String :=
  if Text.endsWith oldLabel Constants.locationLabelReject then
    cutLabel oldLabel Constants.locationLabelReject
  else if Text.endsWith oldLabel Constants.locationLabelAccept then
    cutLabel oldLabel Constants.locationLabelAccept
  else
    .ok oldLabel

def createInconclusiveLocation (location : Location) : Except Failure Location := do
  let newLabel ← shortenLabel location.label
  return Location.new (newLabel ++ "_" ++ Constants.verdictInconclusive) false

/-- The input transitions of the full tree that are equal to none of the test tree. -/
def getRemainingInputTransitions (testTree zset : SymbolicExecutionTree)
    (ttTransitions zsetTransitions : List SymbolicTransition) : List SymbolicTransition :=
  zsetTransitions.filter (fun transition =>
    !ttTransitions.any (fun other => transition.equals zset testTree other))

/-- The body of the inner loop: an input transition to an inconclusive copy of its target. -/
def addInconclusive (zset : SymbolicExecutionTree) (ttState : Nat)
    (testTree : SymbolicExecutionTree) (transition : SymbolicTransition) :
    Except Failure SymbolicExecutionTree := do
  let targetZSES ← deref (zset.getState transition.targetZSES)
  let location ← createInconclusiveLocation targetZSES.location
  let newTargetZSES := testTree.next
  let newSymbolicTransition : SymbolicTransition :=
    ⟨ttState, transition.symbolicAction, transition.clockGuard.clone,
      transition.clockAssignments, transition.deadline, newTargetZSES⟩
  return ((testTree.addSymbolicState (SymbolicNode.new { targetZSES with location := location })
    ).updateNode ttState (SymbolicNode.addChildTransition newSymbolicTransition)).updateNode
      newTargetZSES (SymbolicNode.setParentTransition newSymbolicTransition)

/-- The first child of the state whose fields are equal to those of the given one. -/
def getNextZSES (testTree zset : SymbolicExecutionTree) (nextTTState : Nat)
    (previousZSETState : SymbolicNode) : Option Nat :=
  (previousZSETState.childrenTransitions.map SymbolicTransition.targetZSES).find?
    (testTree.equalStates zset nextTTState)

/-- The loop down the copied path; the fuel bounds the number of states on it. -/
def descend (zset : SymbolicExecutionTree) :
    Nat → Option Nat → Option Nat → SymbolicExecutionTree → Except Failure SymbolicExecutionTree
  | 0, _, _, _ => .error .depthExceeded
  | fuel + 1, ttState, zsetState, testTree => do
      let reference ← deref ttState
      let ttNode ← deref (testTree.getNode reference)
      match ttNode.childrenTransitions with
      | [] => return testTree
      | first :: _ => do
          let zsetReference ← deref zsetState
          let zsetNode ← deref (zset.getNode zsetReference)
          let testTree ← (getRemainingInputTransitions testTree zset
            ttNode.getOutgoingInputTransitions zsetNode.getOutgoingInputTransitions).foldlM
              (addInconclusive zset reference) testTree
          -- the transition of the path stays the first one
          descend zset fuel (some first.targetZSES)
            (getNextZSES testTree zset first.targetZSES zsetNode) testTree

def forwardTraversal (zset testTree : SymbolicExecutionTree) :
    Except Failure SymbolicExecutionTree :=
  descend zset (testTree.next + 1) testTree.initialZSES zset.initialZSES testTree

def selectTestCase (zset : SymbolicExecutionTree) (name : String) (acceptZSES : Nat) :
    Except Failure SymbolicExecutionTree := do
  let testTree ← backwardTraversal zset acceptZSES (SymbolicExecutionTree.new name)
  forwardTraversal zset testTree

/-- A test tree for each accept state, numbered from one. -/
def selectAllTestCases (zset : SymbolicExecutionTree) :
    Except Failure (List SymbolicExecutionTree) :=
  (zset.getAcceptZSESs.zipIdx 1).mapM (fun entry =>
    selectTestCase zset ("TestTree_TC" ++ Nat.repr entry.2) entry.1)

end TestCaseSelection

end Symbolrt
