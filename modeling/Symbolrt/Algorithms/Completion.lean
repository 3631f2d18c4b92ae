import Symbolrt.Base.Clone
import Symbolrt.Lib.Formula

/-!
# Completion of test purposes

A copy of the model gets a rejecting location, a self-loop for every missing input
or output action and, for every guarded transition, one with the negated guard.
-/

namespace Symbolrt

namespace Completion

def onlyOneConstraintMessage : String :=
  "Clock guards of test purposes can have only one constraint."

def equalityMessage : String :=
  "= is not allowed in clock guards of test purposes because its negation is not " ++
    "supported in representation of zones."

/-- For a relation that none of the four texts stands for. -/
def notSupportedMessage (clockGuard : ClockGuard) : String :=
  "The clock guard \"" ++ clockGuard.toString ++ "\" is not supported in test purposes."

/-- The actions that do not leave the location. -/
def getRemainingActions (location : Location) (allActions : List Action) : List Action :=
  let usedActions := location.getOutActions
  allActions.filter (fun action => !usedActions.any (fun used => action.equals used))

/-- The opposite comparison. Equality has none, and neither has an unknown relation. -/
def negateClockGuard (clockGuard : ClockGuard) : Except Failure ClockGuard :=
  match clockGuard.clockGuard with
  | [simple] =>
      match simple.relation with
      | .equal => .error (.clockGuard equalityMessage)
      | .leq => .ok ⟨[{ simple with relation := .gt }]⟩
      | .geq => .ok ⟨[{ simple with relation := .lt }]⟩
      | .lt => .ok ⟨[{ simple with relation := .geq }]⟩
      | .gt => .ok ⟨[{ simple with relation := .leq }]⟩
      | .unsupported _ => .error (.clockGuard (notSupportedMessage clockGuard))
  | _ => .error (.clockGuard onlyOneConstraintMessage)

/-- A loop without guards, with the deadline the action has by default. -/
def addSelfLoop (label : String) (model : TIOSTS) (action : Action) : Except Failure TIOSTS :=
  model.createTransitionFromText label .constantTrue Constants.guardTrue action none none
    (Transition.defaultDeadline action) label

/-- The guards of the transition added for a guarded one. -/
def negatedGuards (transition : Transition) : Except Failure (DataGuard × ClockGuard) :=
  if transition.clockGuard.toString = Constants.guardTrue then
    .ok (.written (Constants.guardNegation ++ " (" ++ transition.dataGuard.text ++ ")"),
      ClockGuard.empty)
  else do
    let clockGuard ← negateClockGuard transition.clockGuard
    return (.constantTrue, clockGuard)

/-- Completes a guarded transition for the values its guard refuses. -/
def addNegation (label : String) (model : TIOSTS) (transition : Transition) :
    Except Failure TIOSTS :=
  if transition.getAllGuard = Constants.guardTrue then
    .ok model
  else do
    let (dataGuard, clockGuard) ← negatedGuards transition
    -- a rejecting transition is completed by a self-loop, any other by rejection
    let target := if transition.target = Constants.locationLabelReject then label
      else Constants.locationLabelReject
    model.createTransitionFromText label dataGuard clockGuard.toString transition.action none
      none transition.deadline target

/-- Loops for the actions a location lacks, then the negations of the guards it has. The
transitions are looked up again in between. -/
def completeLocation (model : TIOSTS) (label : String) : Except Failure TIOSTS := do
  let location ← deref (model.getLocation label)
  if !location.isSpecialLocation && !location.isInitialLocation then
    let model ← (getRemainingActions location model.getInputOutputActions).foldlM
      (addSelfLoop label) model
    let location ← deref (model.getLocation label)
    location.outTransitions.foldlM (addNegation label) model
  else
    return model

/-- The completion of a clone, under a new name and with the rejecting location. -/
def complete (order : IterationOrder) (tiosts : TIOSTS) : Except Failure TIOSTS := do
  let tiostsComplete ← tiosts.clone order
  let tiostsComplete := tiostsComplete.setName (tiosts.name ++ "_complete")
  let tiostsComplete :=
    tiostsComplete.addLocation (Location.new Constants.locationLabelReject false)
  (order.arrange tiostsComplete.locations.keys).foldlM completeLocation tiostsComplete

end Completion

end Symbolrt
