import Symbolrt.Compositions.Composition

/-!
# The parallel composition

A recursion over pairs of locations creates the transitions of the composition.  The pairs
it has visited are kept in a list of the singleton instance, which is never emptied and
which outlives exceptions.
-/

namespace Symbolrt

namespace ParallelComposition

/-- What the methods of the instance do to its list of visited pairs. -/
abbrev Visits := ExceptT Failure (StateM (List String))

def incompatibleMessage : String :=
  "The set of variables, locations and clocks from both TIOSTSs must be disjoint"

abbrev createAssignments := SynchronousProduct.createAssignments

abbrev createDataGuard := SynchronousProduct.createDataGuard

abbrev createClockGuard := SynchronousProduct.createClockGuard

/-- The names of the first list that the second lacks. -/
def minusSet (set1 set2 : List String) : List String :=
  set1.filter (fun name => name ∉ set2)

/-- The clocks are not compared, although the message speaks of them. -/
def isCompatible (order : IterationOrder) (tiosts1 tiosts2 : TIOSTS) : Bool :=
  !isIntersection (tiosts1.getLocationNames order) (tiosts2.getLocationNames order) &&
    !isIntersection tiosts1.getVariableNames tiosts2.getVariableNames

/-- One action sends what the other receives. -/
def canSynchronize (action1 action2 : Action) : Bool :=
  (action1.type = .input ∧ action2.type = .output ∧ action1.name = action2.name) ∨
    (action2.type = .input ∧ action1.type = .output ∧ action1.name = action2.name)

/-- The more urgent of the two deadlines. -/
def deadlineOperator (deadline1 deadline2 : Deadline) : Deadline :=
  if deadline1 = .eager ∨ deadline2 = .eager then .eager
  else if deadline1 = .delayable ∨ deadline2 = .delayable then .delayable
  else .lazy

/-- Adds to the first list what the second one has and the first has not. -/
def union {α : Type} (equals : α → α → Bool) (list1 list2 : List α) : List α :=
  list2.foldl (fun union element =>
    if union.any (fun other => equals element other) then union else union ++ [element]) list1

/-- The output actions of the first model, to which those of the second are added. -/
def outputActions (tiosts1 tiosts2 : TIOSTS) : List Action :=
  union Action.equals tiosts1.outputActions tiosts2.outputActions

/-- The declarations of the result. -/
def declare (tiosts1 tiosts2 : TIOSTS) (initTransitionT1 initTransitionT2 : Transition) :
    TIOSTS :=
  let result := TIOSTS.new (tiosts1.name ++ "x" ++ tiosts2.name)
  let result := (tiosts1.internalActions.filter
    (fun internal => internal.name ≠ initTransitionT1.action.name)).foldl
      (fun result action => result.addAction action) result
  let result := (tiosts2.internalActions.filter
    (fun internal => internal.name ≠ initTransitionT2.action.name)).foldl
      (fun result action => result.addAction action) result
  let result := (outputActions tiosts1 tiosts2).foldl
    (fun result action => result.addAction action) result
  -- the outputs of the second model are now in the list of the first
  let outputActionLabelsT1 := (outputActions tiosts1 tiosts2).map Action.name
  let outputActionLabelsT2 := tiosts2.outputActions.map Action.name
  let result := (tiosts1.inputActions.filter
    (fun input => input.name ∉ outputActionLabelsT2)).foldl
      (fun result action => result.addAction action) result
  let result := (tiosts2.inputActions.filter
    (fun input => input.name ∉ outputActionLabelsT1)).foldl
      (fun result action => result.addAction action) result
  { result with
    modelVariables := tiosts1.modelVariables ++ tiosts2.modelVariables
    actionParameters :=
      union TypedData.equals tiosts1.actionParameters tiosts2.actionParameters
    -- the clocks of the second model are left out
    clocks := tiosts1.clocks }

/-- The names of both actions joined, as an internal action. -/
def initialAction (initTransitionT1 initTransitionT2 : Transition) : Action :=
  ⟨initTransitionT1.action.name ++ "_" ++ initTransitionT2.action.name, .internal, []⟩

/-- The initialising transition of the composition. -/
def initialTransition (initTransitionT1 initTransitionT2 : Transition) : Transition where
  source := composedLabel initTransitionT1.source initTransitionT2.source
  dataGuard := createDataGuard initTransitionT1.dataGuard initTransitionT2.dataGuard
  clockGuard := createClockGuard initTransitionT1.clockGuard initTransitionT2.clockGuard
  action := initialAction initTransitionT1 initTransitionT2
  -- both arguments are the assignments of the first transition
  dataAssignments :=
    createAssignments initTransitionT1.dataAssignments initTransitionT1.dataAssignments
  clockAssignments :=
    createAssignments initTransitionT1.clockAssignments initTransitionT1.clockAssignments
  deadline := .lazy
  target := composedLabel initTransitionT1.target initTransitionT2.target

/-- A condition as string concatenation shows it. -/
def shown (condition : Option DataGuard) : String :=
  (condition.map DataGuard.text).getD "null"

/-- The two conditions with nothing between them and the conjunction. -/
def initialCondition (tiosts1 tiosts2 : TIOSTS) : DataGuard :=
  .written (shown tiosts1.initialCondition ++ Constants.guardConjunction ++
    shown tiosts2.initialCondition)

/-- The first transition that leaves the initial location. -/
def initTransition (tiosts : TIOSTS) : Except Failure Transition := do
  let initialLocation ← deref tiosts.initialLocation
  tiosts.firstOut initialLocation

/-- The declarations and the initialising transition, before the loop. -/
def initializeResult (tiosts1 tiosts2 : TIOSTS) : Except Failure TIOSTS := do
  let initTransitionT1 ← initTransition tiosts1
  let initTransitionT2 ← initTransition tiosts2
  let result := declare tiosts1 tiosts2 initTransitionT1 initTransitionT2
  let transition := initialTransition initTransitionT1 initTransitionT2
  let result := result.addLocation (Location.new transition.source false)
  let result := result.addLocation (Location.new transition.target false)
  let result := result.addAction transition.action
  let result ← result.create transition
  let result := result.setInitialCondition (some (initialCondition tiosts1 tiosts2))
  return result.setInitialLocation transition.source

/-- The two composed locations of a new transition. -/
def addEnds (pc : TIOSTS) (source target : String) : TIOSTS :=
  (pc.addLocation (Location.new source false)).addLocation (Location.new target false)

/-- The first component moves alone. -/
def createFirst (loc1 loc2 : String) (t1 : Transition) (pc : TIOSTS) : Except Failure TIOSTS := do
  let source := composedLabel loc1 loc2
  let target := composedLabel t1.target loc2
  let pc := addEnds pc source target
  let newAction ← pc.recoverAction t1.action
  pc.create { t1 with source := source, action := newAction, target := target }

/-- The second component moves alone. -/
def createSecond (loc1 loc2 : String) (t2 : Transition) (pc : TIOSTS) :
    Except Failure TIOSTS := do
  let source := composedLabel loc1 loc2
  let target := composedLabel loc1 t2.target
  let pc := addEnds pc source target
  let newAction ← pc.recoverAction t2.action
  pc.create { t2 with source := source, action := newAction, target := target }

/-- The output action of two that synchronize. -/
def outputAction (action1 action2 : Action) : Action :=
  if action2.type = .output then action2 else action1

/-- The transition that both models make together. -/
def syncTransition (loc1 loc2 : String) (t1 t2 : Transition) (newAction : Action) :
    Transition where
  source := composedLabel loc1 loc2
  dataGuard := createDataGuard t1.dataGuard t2.dataGuard
  clockGuard := createClockGuard t1.clockGuard t2.clockGuard
  action := newAction
  dataAssignments := createAssignments t1.dataAssignments t2.dataAssignments
  clockAssignments := createAssignments t1.clockAssignments t2.clockAssignments
  deadline := deadlineOperator t1.deadline t2.deadline
  target := composedLabel t1.target t2.target

/-- Both components move. -/
def createBoth (loc1 loc2 : String) (t1 t2 : Transition) (pc : TIOSTS) :
    Except Failure TIOSTS := do
  let pc := addEnds pc (composedLabel loc1 loc2) (composedLabel t1.target t2.target)
  let parameters := t2.action.parameters
  let newAction ← pc.recoverAction (outputAction t1.action t2.action)
  let pc := pc.changeParameters newAction parameters
  pc.create (syncTransition loc1 loc2 t1 t2 { newAction with parameters := parameters })

/-- The text that the list of visited locations stores for a pair. -/
def visitedKey (loc1 loc2 : String) : String := loc1 ++ ", " ++ loc2

/-- Enters the pair when it was not visited before. -/
def isVisited (loc1 loc2 : String) : Visits Bool := do
  let visitedLocations ← get
  if visitedKey loc1 loc2 ∈ visitedLocations then
    return true
  else
    set (visitedLocations ++ [visitedKey loc1 loc2])
    return false

section Recursion

variable (tiosts1 tiosts2 : TIOSTS) (actionsT1 actionsT2 : List String)

/-- The body of the two nested loops. -/
def composeTransitions (recursion : String → String → TIOSTS → Visits TIOSTS)
    (loc1 loc2 : String) (t1 t2 : Transition) (pc : TIOSTS) : Visits TIOSTS := do
  let pc ← (if t1.action.name ∈ actionsT1 then do
      let pc ← createFirst loc1 loc2 t1 pc
      recursion t1.target loc2 pc
    else pure pc : Visits TIOSTS)
  let pc ← (if t2.action.name ∈ actionsT2 then do
      let pc ← createSecond loc1 loc2 t2 pc
      recursion loc1 t2.target pc
    else pure pc : Visits TIOSTS)
  if canSynchronize t1.action t2.action then do
    let pc ← createBoth loc1 loc2 t1 t2 pc
    recursion t1.target t2.target pc
  else pure pc

/-- The recursion, cut off at the given depth. -/
def parComposition : Nat → String → String → TIOSTS → Visits TIOSTS
  | 0, _, _, _ => throw .depthExceeded
  | depth + 1, loc1, loc2, pc => do
      if ← isVisited loc1 loc2 then
        return pc
      else
        (tiosts1.outOf loc1).foldlM (fun pc t1 =>
          (tiosts2.outOf loc2).foldlM (fun pc t2 =>
            composeTransitions actionsT1 actionsT2 (parComposition depth) loc1 loc2 t1 t2 pc)
            pc) pc

end Recursion

/-- The alphabets are those of the operands, the loop walks their clones. -/
def parallelComposition (order : IterationOrder) (depth : Nat) (model1 model2 : TIOSTS) :
    Visits TIOSTS := do
  let tiosts1 ← model1.clone order
  let tiosts2 ← model2.clone order
  if !isCompatible order tiosts1 tiosts2 then
    throw (.incompatibleCompositionalOperation incompatibleMessage)
  else
    let result ← initializeResult tiosts1 tiosts2
    let actionst1Minust2 := minusSet model1.getActionNames model2.getActionNames
    let actionst2Minust1 := minusSet model2.getActionNames model1.getActionNames
    let initTransitionT1 ← initTransition tiosts1
    let initTransitionT2 ← initTransition tiosts2
    parComposition tiosts1 tiosts2 actionst1Minust2 actionst2Minust1 depth
      initTransitionT1.target initTransitionT2.target result

end ParallelComposition

end Symbolrt
