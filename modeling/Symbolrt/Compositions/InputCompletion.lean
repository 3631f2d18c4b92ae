import Symbolrt.Algorithms.Completion

/-!
# Input completion

A copy of the model gets a location that accepts every input and output.  Every input
that does not leave a location leads there, and so does, for every guarded input
transition, one whose two guards are both negated.
-/

namespace Symbolrt

namespace InputCompletion

/-- The inputs that do not leave the location. -/
abbrev getAbsentInputActions := Completion.getRemainingActions

abbrev negateClockGuard := Completion.negateClockGuard

/-- A transition without guards to the location where everything is accepted. -/
def addUnguarded (label : String) (model : TIOSTS) (action : Action) : Except Failure TIOSTS :=
  model.createTransitionFromText label .constantTrue Constants.guardTrue action none none
    .lazy Constants.locationLabelDontCare

/-- The data guard in parentheses behind `NOT`, and the opposite clock guard unless that
is `FALSE`. -/
def negatedGuards (transition : Transition) : Except Failure (DataGuard × ClockGuard) := do
  let dataGuard :=
    .written (Constants.guardNegation ++ " (" ++ transition.dataGuard.text ++ ")")
  if transition.clockGuard.toString = Constants.guardFalse then
    return (dataGuard, ClockGuard.empty)
  else
    let clockGuard ← negateClockGuard transition.clockGuard
    return (dataGuard, clockGuard)

/-- Completes a guarded input for the values its guard refuses. -/
def addNegation (label : String) (model : TIOSTS) (transition : Transition) :
    Except Failure TIOSTS :=
  if transition.getAllGuard ≠ Constants.guardTrue ∧ transition.action.type = .input then do
    let (dataGuard, clockGuard) ← negatedGuards transition
    model.createTransitionFromText label dataGuard clockGuard.toString transition.action none
      none .lazy Constants.locationLabelDontCare
  else
    .ok model

/-- The initial location is left as it is. -/
def completeLocation (model : TIOSTS) (label : String) : Except Failure TIOSTS := do
  let location ← deref (model.getLocation label)
  if !location.isInitialLocation then
    let model ← (getAbsentInputActions location model.inputActions).foldlM
      (addUnguarded label) model
    -- the transitions are those of the location after the absent inputs have been added
    let location ← deref (model.getLocation label)
    location.outTransitions.foldlM (addNegation label) model
  else
    return model

/-- A location of the name that the model has already is used. -/
def withDontCareLocation (tiostsComplete : TIOSTS) : TIOSTS :=
  match tiostsComplete.getLocation Constants.locationLabelDontCare with
  | some _ => tiostsComplete
  | none => tiostsComplete.addLocation (Location.new Constants.locationLabelDontCare false)

/-- The completion of a clone. The new location loops on the declared inputs and
outputs. -/
def complete (order : IterationOrder) (tiosts : TIOSTS) : Except Failure TIOSTS := do
  let tiostsComplete ← tiosts.clone order
  let tiostsComplete := tiostsComplete.setName (tiosts.name ++ "_inputComplete")
  let tiostsComplete := withDontCareLocation tiostsComplete
  let tiostsComplete ← tiostsComplete.getInputOutputActions.foldlM
    (addUnguarded Constants.locationLabelDontCare) tiostsComplete
  (order.arrange tiostsComplete.locations.keys).foldlM completeLocation tiostsComplete

end InputCompletion

end Symbolrt
