import Symbolrt.Base.WellFormed

/-!
# The synchronous product

The product of a specification and a test purpose as the tool computes it: the
empty product is set up from the declarations of the two models, a recursion
over pairs of locations adds locations and transitions to it, and the inputs and
outputs of the result are exchanged.

The recursion has no set of visited pairs.  It goes on whenever it has created a
transition, and it creates one unless `getTransition` finds an equal one in the
product built so far.
-/

namespace Symbolrt

namespace Action

/-- Exchanges inputs and outputs. -/
def mirror (action : Action) : Action :=
  match action.type with
  | .input => action.setType .output
  | .output => action.setType .input
  | .internal => action

@[simp] theorem mirror_name (action : Action) : action.mirror.name = action.name := by
  unfold mirror
  split <;> rfl

@[simp] theorem mirror_parameters (action : Action) :
    action.mirror.parameters = action.parameters := by
  unfold mirror
  split <;> rfl

end Action

/-- What one side sends the other receives. -/
def ActionType.mirror : ActionType → ActionType
  | .input => .output
  | .output => .input
  | .internal => .internal

theorem Action.mirror_type (action : Action) :
    action.mirror.type = action.type.mirror := by
  obtain ⟨name, type, parameters⟩ := action
  cases type <;> rfl

namespace Transition

/-- The transition seen from the other side. -/
def mirror (transition : Transition) : Transition :=
  { transition with action := transition.action.mirror }

end Transition

namespace Location

def mirror (location : Location) : Location :=
  { location with
    outTransitions := location.outTransitions.map Transition.mirror
    inTransitions := location.inTransitions.map Transition.mirror }

end Location

namespace SynchronousProduct

/-- The label of a pair of locations. -/
def pairLabel (specLabel tpLabel : String) : String :=
  specLabel ++ "_" ++ tpLabel

/-- Those of the specification come first. -/
def createAssignments (specAssignments tpAssignments : Option String) : Option String :=
  match specAssignments, tpAssignments with
  | specAssignments, none => specAssignments
  | none, some tpAssignments => some tpAssignments
  | some specAssignments, some tpAssignments =>
      some (specAssignments ++ Constants.assignmentSeparator ++ tpAssignments)

/-- A guard that is `TRUE` is left out. Otherwise the texts stand side by side, without
parentheses. -/
def createDataGuard (specGuard tpGuard : DataGuard) : DataGuard :=
  if tpGuard = .constantTrue then
    specGuard
  else if specGuard = .constantTrue then
    tpGuard
  else
    .written (specGuard.text ++ " " ++ Constants.guardConjunction ++ " " ++ tpGuard.text)

/-- The comparisons of both guards. -/
def createClockGuard (specGuard tpGuard : ClockGuard) : ClockGuard :=
  ⟨specGuard.clockGuard ++ tpGuard.clockGuard⟩

/-- The transitions the test purpose offers for an action of the specification. -/
def getTransitionsByAction (location : Location) (action : Action) : List Transition :=
  location.outTransitions.filter (fun transition => transition.action.equals action)

section Initialize

def variablesMessage : String :=
  "The variables of specification must be different from variables of test purpose."

def parametersMessage : String :=
  "The parameters of test purpose must be the same as specification or variables of specification."

def clocksMessage : String :=
  "The clocks of specification must be different from clocks of test purpose."

/-- Adds the variables of the test purpose, none of which may be there already. -/
def addTpVariable (sp : TIOSTS) (tpVariable : TypedData) : Except Failure TIOSTS :=
  if sp.modelVariables.any (tpVariable.equals ·) then
    .error (.incompatibleSynchronousProduct variablesMessage)
  else
    .ok (sp.addVariable tpVariable)

/-- A parameter of the test purpose has to be a parameter or a variable of the product so
far. -/
def checkTpParameter (sp : TIOSTS) (tpParameter : TypedData) : Except Failure Unit :=
  if !sp.actionParameters.any (tpParameter.equals ·) &&
      !sp.modelVariables.any (tpParameter.equals ·) then
    .error (.incompatibleSynchronousProduct parametersMessage)
  else
    .ok ()

/-- Adds the clocks of the test purpose, none of which may be there already. -/
def addTpClock (sp : TIOSTS) (tpClock : String) : Except Failure TIOSTS :=
  if tpClock ∈ sp.clocks then
    .error (.incompatibleSynchronousProduct clocksMessage)
  else
    .ok (sp.addClock tpClock)

/-- The declarations of the product. The parameters of the test purpose are checked after its
variables are added. -/
def initializeSyncProduct (spec tp : TIOSTS) : Except Failure TIOSTS := do
  let sp := TIOSTS.new (spec.name ++ "_X_" ++ tp.name)
  let sp := spec.modelVariables.foldl (fun sp specVariable => sp.addVariable specVariable) sp
  let sp ← tp.modelVariables.foldlM addTpVariable sp
  let sp := spec.actionParameters.foldl (fun sp parameter => sp.addActionParameter parameter) sp
  tp.actionParameters.forM (checkTpParameter sp)
  let sp := spec.clocks.foldl (fun sp clock => sp.addClock clock) sp
  let sp ← tp.clocks.foldlM addTpClock sp
  let sp := spec.inputActions.foldl (fun sp action => sp.addAction action) sp
  let sp := spec.outputActions.foldl (fun sp action => sp.addAction action) sp
  return spec.internalActions.foldl (fun sp action => sp.addAction action) sp

end Initialize

section Recursion

variable (spec tp : TIOSTS) (recurse : Location → Location → TIOSTS → Except Failure TIOSTS)

/-- The branch of `syncProduct` for a specification transition whose action does
not leave the location of the test purpose. -/
def syncAlone (source : String) (spAction : Action) (specTransition : Transition)
    (tpLoc : Location) (sp : TIOSTS) : Except Failure TIOSTS :=
  let target := pairLabel specTransition.target tpLoc.label
  let sp := sp.addLocation (Location.new target false)
  match sp.getTransition source specTransition.dataGuard specTransition.clockGuard spAction
      target with
  | some _ => .ok sp
  | none => do
      let sp ← sp.createTransitionFromText source specTransition.dataGuard
        specTransition.clockGuard.toString spAction specTransition.dataAssignments
        specTransition.clockAssignments specTransition.deadline target
      let nextLoc ← deref (spec.getLocation specTransition.target)
      recurse nextLoc tpLoc sp

/-- The branch for a pair of transitions with one action. -/
def syncTogether (source : String) (spAction : Action) (specTransition : Transition)
    (sp : TIOSTS) (tpTransition : Transition) : Except Failure TIOSTS :=
  let target := pairLabel specTransition.target tpTransition.target
  let sp := sp.addLocation (Location.new target false)
  let dataGuard := createDataGuard specTransition.dataGuard tpTransition.dataGuard
  let clockGuard := createClockGuard specTransition.clockGuard tpTransition.clockGuard
  match sp.getTransition source dataGuard clockGuard spAction target with
  | some _ => .ok sp
  | none => do
      let dataAssignments := createAssignments specTransition.dataAssignments
        tpTransition.dataAssignments
      let clockAssignments := createAssignments specTransition.clockAssignments
        tpTransition.clockAssignments
      let sp ← sp.createTransition source dataGuard clockGuard spAction dataAssignments
        clockAssignments specTransition.deadline target
      let nextLoc ← deref (spec.getLocation specTransition.target)
      let nextTpLoc ← deref (tp.getLocation tpTransition.target)
      recurse nextLoc nextTpLoc sp

/-- A transition of the specification with each transition of the test purpose on the same
action, and alone if there is none. -/
def syncTransition (specLoc tpLoc : Location) (sp : TIOSTS) (specTransition : Transition) :
    Except Failure TIOSTS := do
  let tpTransitions := getTransitionsByAction tpLoc specTransition.action
  -- an undeclared action is null here; a well-formed specification has none
  let spAction ← deref (sp.getAction specTransition.action.type specTransition.action.name)
  let source := pairLabel specLoc.label tpLoc.label
  let sp := sp.addLocation (Location.new source false)
  if tpTransitions.length = 0 then
    syncAlone spec recurse source spAction specTransition tpLoc sp
  else
    tpTransitions.foldlM (syncTogether spec tp recurse source spAction specTransition) sp

end Recursion

/-- The recursion over pairs of locations, cut off at the given depth. -/
def syncProduct (spec tp : TIOSTS) :
    Nat → Location → Location → TIOSTS → Except Failure TIOSTS
  | 0, _, _, _ => .error .depthExceeded
  | depth + 1, specLoc, tpLoc, sp =>
      if tpLoc.isSpecialLocation then
        .ok sp
      else
        specLoc.outTransitions.foldlM
          (syncTransition spec tp (syncProduct spec tp depth) specLoc tpLoc) sp

/-- Exchanges inputs and outputs, in the lists and in every transition, which
share their actions with the lists. -/
def mirror (model : TIOSTS) : TIOSTS :=
  { model with
    toAlphabet := model.toAlphabet.mirror
    locations := ⟨model.locations.entries.map (Sigma.map id (fun _ => Location.mirror)),
      List.NodupKeys.map₂ _ _ model.locations.nodupKeys⟩
    transitions :=
      ⟨model.transitions.entries.map (Sigma.map id (fun _ => Transition.mirror)),
        List.NodupKeys.map₂ _ _ model.transitions.nodupKeys⟩ }

/-- What `synchronousProduct` does once the recursion has returned. -/
def finish (spec tp : Location) (sp : TIOSTS) : Except Failure TIOSTS := do
  let label := pairLabel spec.label tp.label
  let initialLocation ← deref (sp.getLocation label)
  let sp := sp.setInitialLocation initialLocation.label
  match initialLocation.outTransitions with
  | [] => .error .indexOutOfBounds
  | first :: _ => .ok (mirror (sp.setInitialCondition (some first.dataGuard)))

/-- The initial location of a model, if it is set and stored. -/
def initialLocationOf (model : TIOSTS) : Except Failure Location := do
  let label ← deref model.initialLocation
  deref (model.getLocation label)

/-- The product, with the recursion cut off at the given depth. -/
def synchronousProduct (depth : Nat) (spec tp : TIOSTS) : Except Failure TIOSTS := do
  let sp ← initializeSyncProduct spec tp
  let specInitial ← initialLocationOf spec
  let tpInitial ← initialLocationOf tp
  let sp ← syncProduct spec tp depth specInitial tpInitial sp
  finish specInitial tpInitial sp

end SynchronousProduct

end Symbolrt
