import Symbolrt.Algorithms.SynchronousProduct
import Symbolrt.SymbolicExecution.Tree

/-!
# Symbolic execution

The tree is built by a worklist: every state taken from the list gets a child for
each outgoing transition of its location whose path condition is satisfiable,
whose zone is not empty and whose target does not stand on the path twice already.

The solver and the zone tool are parameters: functions from the texts they are
given to the texts they answer.
-/

namespace Symbolrt

/-- The answers of the two external programs. -/
structure SymbolicTools where
  executeCVC3 : String → String
  createInitialDBM : String → String
  nextZone : String → String → String → String
  isDBMEmpty : String → String

namespace SymbolicExecution

open SynchronousProduct (initialLocationOf)

/-- The declared data by name. A later one replaces an earlier one of the same name. -/
def initializeVarParamMapping (modelVariables actionParameters : List TypedData) :
    Finmap (fun _ : String => TypedData) :=
  (modelVariables ++ actionParameters).foldl (fun result data => result.insert data.name data) ∅

/-- A name with the counter of its symbolic values. -/
def symbolicValue (name counter : String) : String :=
  name ++ Constants.symbolicValueSeparator ++ counter

/-- All names get their initial symbolic value, in whatever order. -/
def initializeSymbolicValues (modelVariables actionParameters : List TypedData) :
    SymbolicMapping :=
  (modelVariables ++ actionParameters).foldl (fun result data =>
    result.insert data.name (symbolicValue data.name Constants.symbolicValueInitial)) ∅

def expressionDelimiters : String := " +-*/<=>()"

/-- A token without a symbolic value stands for itself. -/
def symbolicValueOf (symbolicValues : SymbolicMapping) (token : String) : String :=
  (symbolicValues.lookup token).getD token

/-- The text with every token replaced by its symbolic value. Delimiters are tokens
too. -/
def updateExpression (condition : String) (symbolicValues : SymbolicMapping) : String :=
  (Text.tokensWithDelimiters expressionDelimiters condition).foldl
    (fun result token => result ++ symbolicValueOf symbolicValues token) ""

/-- The range of signed 32-bit integers. -/
def IsInt (value : Int) : Prop := -2147483648 ≤ value ∧ value ≤ 2147483647

instance (value : Int) : Decidable (IsInt value) := inferInstanceAs (Decidable (_ ∧ _))

/-- A numeral without sign. -/
def readDigits (digits : List Char) : Except Failure Nat :=
  if digits.isEmpty || !digits.all Char.isDigit then .error .numberFormat
  else .ok (Nat.ofDigitChars 10 digits 0)

/-- A number outside the range of `int` is no number. -/
def checkInt (value : Int) : Except Failure Int :=
  if IsInt value then .ok value else .error .numberFormat

/-- Reads a signed 32-bit integer. -/
def parseInt (text : String) : Except Failure Int :=
  match text.toList with
  | '-' :: digits => do
      let value ← readDigits digits
      checkInt (-value)
  | '+' :: digits => do
      let value ← readDigits digits
      checkInt value
  | digits => do
      let value ← readDigits digits
      checkInt value

def printInt : Int → String
  | .ofNat value => Nat.repr value
  | .negSucc value => "-" ++ Nat.repr (value + 1)

/-- Counting up wraps around. -/
def nextCounter (counter : Int) : Int := (counter + 1).bmod 4294967296

def symbolicValueMessage : String :=
  "The character \"" ++ Constants.symbolicValueSeparator ++
    "\" cannot be used in variables and action parameter names."

/-- The next symbolic value of the same name. A value with further separators is
refused. -/
def updateSymbolicValue (value : String) : Except Failure String :=
  match Text.split Constants.symbolicValueSeparator value with
  | [name, counter] => do
      let counter ← parseInt counter
      return symbolicValue name (printInt (nextCounter counter))
  | _ => .error (.symbolicValueName symbolicValueMessage)

/-- The symbolic values of one action while its parameters are updated. -/
structure ParameterUpdate where
  paramIds : List String
  paramMapping : SymbolicMapping
  nextSymbolicValues : SymbolicMapping

/-- Gives the parameter its next symbolic value and lists it. -/
def updateParameter (update : ParameterUpdate) (actionParameter : String) :
    Except Failure ParameterUpdate := do
  let current ← deref (update.nextSymbolicValues.lookup actionParameter)
  let newParamId ← updateSymbolicValue current
  return ⟨update.paramIds ++ [newParamId],
    update.paramMapping.insert actionParameter newParamId,
    update.nextSymbolicValues.insert actionParameter newParamId⟩

/-- The guard is added to the condition, where `TRUE` is left out on either side. -/
def createNextPathCondition (previousPathCondition dataGuard : String) : String :=
  if previousPathCondition = Constants.guardTrue then
    dataGuard
  else if dataGuard = Constants.guardTrue then
    previousPathCondition
  else
    previousPathCondition ++ " " ++ Constants.guardConjunction ++ " " ++ dataGuard

/-- The separator of assignments without the blanks around it. -/
def assignmentBar : String := Text.trim Constants.assignmentSeparator

/-- The value is read in the mapping as the earlier assignments left it. -/
def updateSymbolicValueWithAssignment (symbolicValues : SymbolicMapping)
    (assignment : String) : Except Failure SymbolicMapping :=
  match Text.split Constants.assignmentSymbol assignment with
  | target :: value :: _ =>
      .ok (symbolicValues.insert (Text.trim target)
        (updateExpression (Text.trim value) symbolicValues))
  | _ => .error .indexOutOfBounds

/-- The assignments one after the other, on one mapping. -/
def updateSymbolicValueWithAssignments (dataAssignments : Option String)
    (symbolicValues : SymbolicMapping) : Except Failure SymbolicMapping :=
  match dataAssignments with
  | none => .ok symbolicValues
  | some dataAssignments =>
      (Text.split assignmentBar dataAssignments).foldlM updateSymbolicValueWithAssignment
        symbolicValues

/-- What stands in front of the assignment symbol, whatever stands behind it. -/
def clockToReset (assignment : String) : Except Failure String :=
  match Text.split Constants.assignmentSymbol assignment with
  | clockName :: _ => .ok (Text.trim clockName)
  | [] => .error .indexOutOfBounds

/-- The clocks that the assignments of a transition mention as targets. -/
def getClocksToReset (clockAssignments : Option String) : Except Failure (List String) :=
  match clockAssignments with
  | none => .ok []
  | some clockAssignments => (Text.split assignmentBar clockAssignments).mapM clockToReset

/-- The text of the clocks to reset, each by its id. -/
def clockIdsToReset (tiosts : TIOSTS) (clockNames : List String) : String :=
  if clockNames.isEmpty then ""
  else
    let clocksToReset := clockNames.foldl
      (fun result clockName => result ++ Nat.repr (tiosts.getClockId clockName) ++ " ") ""
    Text.takePrefix clocksToReset (clocksToReset.toList.length - 1)

/-- The zone after the guard is added and the clocks are reset, as the tool computes
it. -/
def createNextZone (tools : SymbolicTools) (tiosts : TIOSTS) (currentZone : String)
    (clockGuard : ClockGuard) (clockAssignments : Option String) : Except Failure String := do
  let clockNames ← getClocksToReset clockAssignments
  return tools.nextZone currentZone clockGuard.toDBMFormat (clockIdsToReset tiosts clockNames)

/-- Any answer of the tool but `0` counts as empty. -/
def isZoneEmpty (tools : SymbolicTools) (zone : String) : Bool :=
  Text.trim (tools.isDBMEmpty zone) != "0"

/-- The declaration of a token that looks like a symbolic value. -/
def declareToken (mapping : Finmap (fun _ : String => TypedData)) (text token : String) :
    Except Failure String :=
  if Text.contains token "_" then
    match Text.split "_" token with
    | [] => .error .indexOutOfBounds
    | name :: _ => do
        let data ← deref (mapping.lookup name)
        match data.type with
        | .boolean => return text ++ token ++ " : BOOLEAN;\n"
        | .integer => return text ++ token ++ " : INT;\n"
  else
    .ok text

/-- The input file of the solver. -/
def cvc3Input (mapping : Finmap (fun _ : String => TypedData)) (pathCondition : String) :
    Except Failure String := do
  let text ← (Text.tokens expressionDelimiters pathCondition).foldlM (declareToken mapping) ""
  return text ++ "\nASSERT(" ++ pathCondition ++ ");" ++ "\nCHECKSAT;"

/-- The prover is asked and its answer compared with the one for satisfiable. -/
def isPathConditionSatisfied (tools : SymbolicTools)
    (mapping : Finmap (fun _ : String => TypedData)) (pathCondition : String) :
    Except Failure Bool := do
  let input ← cvc3Input mapping pathCondition
  return Constants.cvc3ResponseSatisfiable == tools.executeCVC3 input

/-- The zone is looked at after the path condition, as the source does. -/
def isReachable (tools : SymbolicTools) (mapping : Finmap (fun _ : String => TypedData))
    (zses : SymbolicState) : Except Failure Bool := do
  let satisfied ← isPathConditionSatisfied tools mapping zses.pathCondition
  return satisfied && !isZoneEmpty tools zses.zone

/-- The states from the given one up to the root; the fuel bounds their number. -/
def statesAbove (zset : SymbolicExecutionTree) : Nat → Nat →
    Except Failure (List SymbolicState)
  | 0, _ => .error .depthExceeded
  | fuel + 1, reference => do
      let node ← deref (zset.getNode reference)
      match node.parentTransition with
      | none => return [node.state]
      | some symbolicTransition => do
          let above ← statesAbove zset fuel symbolicTransition.sourceZSES
          return node.state :: above

/-- The location already stands twice among the states. -/
def occursTwice (targetLocation : Location) (states : List SymbolicState) : Bool :=
  2 ≤ states.countP (fun state => state.location.equals targetLocation)

/-- The target location already stands twice on the way up from the state. -/
def upperBoundReached (zset : SymbolicExecutionTree) (targetLocation : Location)
    (currentZSES : Nat) : Except Failure Bool := do
  let states ← statesAbove zset (zset.next + 1) currentZSES
  return occursTwice targetLocation states

section Loop

variable (tools : SymbolicTools) (tiosts : TIOSTS)

/-- The symbolic action and the next state of a transition. -/
def nextZSES (current : SymbolicState) (transition : Transition) :
    Except Failure (SymbolicAction × SymbolicState) := do
  let update ← transition.action.parameters.foldlM updateParameter ⟨[], ∅, current.mapping⟩
  let dataGuard :=
    if transition.dataGuard.text = Constants.guardTrue then transition.dataGuard.text
    else updateExpression transition.dataGuard.text update.nextSymbolicValues
  let nextPathCondition := createNextPathCondition current.pathCondition dataGuard
  let nextSymbolicValues ←
    updateSymbolicValueWithAssignments transition.dataAssignments update.nextSymbolicValues
  let nextZone ← createNextZone tools tiosts current.zone transition.clockGuard
    transition.clockAssignments
  let target ← deref (tiosts.getLocation transition.target)
  return (⟨transition.action, update.paramIds, update.paramMapping⟩,
    ⟨target, nextPathCondition, nextSymbolicValues, nextZone⟩)

/-- The data of the model, by name. -/
def varParamMapping : Finmap (fun _ : String => TypedData) :=
  initializeVarParamMapping tiosts.modelVariables tiosts.actionParameters

/-- The body of the inner loop; the first component is the list of unvisited states. -/
def visitTransition (currentZSES : Nat) (progress : List Nat × SymbolicExecutionTree)
    (transition : Transition) : Except Failure (List Nat × SymbolicExecutionTree) := do
  let (unvisited, zset) := progress
  let current ← deref (zset.getState currentZSES)
  let (symbolicAction, nextState) ← nextZSES tools tiosts current transition
  let reachable ← isReachable tools (varParamMapping tiosts) nextState
  let bounded ← upperBoundReached zset nextState.location currentZSES
  if reachable && !bounded then
    let symbolicTransition : SymbolicTransition :=
      ⟨currentZSES, symbolicAction, transition.clockGuard, transition.clockAssignments,
        transition.deadline, zset.next⟩
    let node := (SymbolicNode.new nextState).setParentTransition symbolicTransition
    return (unvisited ++ [zset.next], (zset.addSymbolicState node).updateNode currentZSES
      (SymbolicNode.addChildTransition symbolicTransition))
  else
    return (unvisited, zset)

/-- The outer loop, cut off after the given number of rounds. -/
def visitAll : Nat → List Nat → SymbolicExecutionTree → Except Failure SymbolicExecutionTree
  | _, [], zset => .ok zset
  | 0, _ :: _, _ => .error .depthExceeded
  | rounds + 1, currentZSES :: unvisited, zset => do
      let current ← deref (zset.getState currentZSES)
      let (unvisited, zset) ← current.location.outTransitions.foldlM
        (visitTransition tools tiosts currentZSES) (unvisited, zset)
      visitAll rounds unvisited zset

/-- The initial symbolic state at a location. -/
def initialState (location : Location) : SymbolicState where
  location := location
  pathCondition := Constants.guardTrue
  mapping := initializeSymbolicValues tiosts.modelVariables tiosts.actionParameters
  zone := tools.createInitialDBM (Nat.repr (tiosts.clocks.length + 1))

/-- The symbolic execution, with the loop cut off after the given number of rounds. -/
def execute (rounds : Nat) : Except Failure SymbolicExecutionTree := do
  -- a missing initial location is dereferenced as soon as the loop starts
  let location ← initialLocationOf tiosts
  visitAll tools tiosts rounds [0]
    (SymbolicExecutionTree.ofInitial ("ZSET_" ++ tiosts.name) (initialState tools tiosts location))

end Loop

end SymbolicExecution

end Symbolrt
