import Symbolrt.Base.Creation
import Symbolrt.Compiler.TransitionRule

/-!
# Building the transitions of a model

The step from parsed declarations to the transitions of a model.  A created
transition holds the two guards made from its declaration, and the transitions of
all declarations are created in their order.
-/

namespace Symbolrt

/-- The guard of an absent expression is the constant itself. -/
def createGuard (expr : Option AbstractExpression) : DataGuard :=
  match expr with
  | none => .constantTrue
  | some expr => .written expr.toString

/-- The texts of the assignments with bars between them. No assignments give no text at
all. -/
def transformAssignment (assignments : Option (List AbstractExpression)) : Option String :=
  match assignments with
  | none => none
  | some [] => none
  | some assignments =>
      let str := assignments.foldl (fun str e => str ++ (" | " ++ e.toString)) ""
      some (Text.trim (String.ofList (str.toList.drop 2)))

/-- One round of `setTransitions`.  The source goes on with a null action where the
action is not declared; such a transition is not modelled. -/
def setTransition (model : TIOSTS) (trans : AbstractTransition) : Except Failure TIOSTS := do
  let clockAssignments := transformAssignment trans.getClockAssignments
  let dataAssignments := transformAssignment trans.getDataAssignments
  let sourceLocation := trans.source
  let targetLocation ← deref trans.destination
  let clockGuard := createGuard trans.clockGuard
  let dataGuard := createGuard trans.dataGuard
  let location ← deref (model.getLocation sourceLocation)
  let model :=
    if location.isInitialLocation then model.setInitialCondition (some dataGuard) else model
  let action ← deref (match trans.action with
    | some absAction => model.getAction absAction.type absAction.identifier
    | none => model.getAction .internal "tau")
  let deadline := trans.deadline.getD (Transition.defaultDeadline action)
  model.createTransitionFromText sourceLocation dataGuard clockGuard.text action
    dataAssignments clockAssignments deadline targetLocation

def setTransitions (transitions : List AbstractTransition) (model : TIOSTS) :
    Except Failure TIOSTS :=
  transitions.foldlM setTransition model

/-- The guards a declaration compiles to. -/
structure CompiledGuards where
  clockGuard : ClockGuard
  dataGuard : DataGuard
  deriving DecidableEq

/-- The guards of a declaration in a model with the given clocks; `none` stands for
a clock guard outside the documented form. -/
def compileGuards (clocks : List String) (trans : AbstractTransition) :
    Option CompiledGuards :=
  (ClockGuard.ofString (createGuard trans.clockGuard).text clocks).map
    (fun clockGuard => ⟨clockGuard, createGuard trans.dataGuard⟩)

/-- The type and the name of the action; a transition without sync clause makes the step
`tau`. -/
def AbstractTransition.usedAction (trans : AbstractTransition) : ActionType × String :=
  match trans.action with
  | some act => (act.type, act.identifier)
  | none => (.internal, "tau")

/-- The transition that a declaration is compiled to. -/
structure CompilesTo (model : TIOSTS) (trans : AbstractTransition) (transition : Transition) :
    Prop where
  source : transition.source = trans.source
  target : trans.destination = some transition.target
  dataGuard : transition.dataGuard = createGuard trans.dataGuard
  clockGuard : ClockGuard.ofString (createGuard trans.clockGuard).text model.clocks =
    some transition.clockGuard
  action : model.getAction trans.usedAction.1 trans.usedAction.2 = some transition.action
  dataAssignments : transition.dataAssignments = transformAssignment trans.getDataAssignments
  clockAssignments : transition.clockAssignments = transformAssignment trans.getClockAssignments
  deadline : transition.deadline =
    trans.deadline.getD (Transition.defaultDeadline transition.action)

section Setting

variable {model next other : TIOSTS} {trans : AbstractTransition} {transition : Transition}

theorem CompilesTo.congr (compiles : CompilesTo model trans transition)
    (clocks : other.clocks = model.clocks) (alphabet : other.toAlphabet = model.toAlphabet) :
    CompilesTo other trans transition :=
  { compiles with
    clockGuard := clocks ▸ compiles.clockGuard
    action := by
      rw [TIOSTS.getAction, TIOSTS.actionsOf_eq_of_alphabet alphabet]
      exact compiles.action }

theorem CompilesTo.guards (compiles : CompilesTo model trans transition) :
    compileGuards model.clocks trans = some ⟨transition.clockGuard, transition.dataGuard⟩ := by
  rw [compileGuards, compiles.clockGuard, compiles.dataGuard]
  rfl

/-- A declaration is compiled by creating its transition, behind the initial condition. -/
theorem setTransition_inversion (returned : setTransition model trans = .ok next) :
    ∃ location transition, model.getLocation (Transition.source transition) = some location ∧
      CompilesTo model trans transition ∧
      (if location.isInitialLocation then model.setInitialCondition (some transition.dataGuard)
        else model).create transition = .ok next := by
  obtain ⟨targetLocation, targetRead, returned⟩ := Symbolrt.bind_eq_ok.mp returned
  obtain ⟨location, located, returned⟩ := Symbolrt.bind_eq_ok.mp returned
  obtain ⟨action, acted, returned⟩ := Symbolrt.bind_eq_ok.mp returned
  obtain ⟨clockGuard, clockRead, returned⟩ := Symbolrt.bind_eq_ok.mp returned
  let conditioned : TIOSTS := if location.isInitialLocation then
    model.setInitialCondition (some (createGuard trans.dataGuard)) else model
  have kept : conditioned.clocks = model.clocks ∧ conditioned.toAlphabet = model.toAlphabet := by
    dsimp only [conditioned]
    split
    · exact ⟨rfl, rfl⟩
    · exact ⟨rfl, rfl⟩
  have used : conditioned.getAction trans.usedAction.1 trans.usedAction.2 = some action := by
    have found := deref_eq_ok.mp acted
    rw [AbstractTransition.usedAction]
    cases acts : trans.action with
    | none =>
        rw [acts] at found
        exact found
    | some act =>
        rw [acts] at found
        exact found
  have compiles : CompilesTo conditioned trans ⟨trans.source, createGuard trans.dataGuard,
      clockGuard, action, transformAssignment trans.getDataAssignments,
      transformAssignment trans.getClockAssignments,
      trans.deadline.getD (Transition.defaultDeadline action), targetLocation⟩ :=
    ⟨rfl, deref_eq_ok.mp targetRead, rfl, deref_eq_ok.mp clockRead, used, rfl, rfl, rfl⟩
  exact ⟨location, _, deref_eq_ok.mp located, compiles.congr kept.1.symm kept.2.symm, returned⟩

/-- What is registered for a declaration has the guards the declaration compiles
to, whatever the model. -/
theorem setTransition_registers (returned : setTransition model trans = .ok next) :
    ∃ condition transition, next = (model.setInitialCondition condition).register transition ∧
      compileGuards model.clocks trans = some ⟨transition.clockGuard, transition.dataGuard⟩ := by
  obtain ⟨location, transition, _, compiles, created⟩ := setTransition_inversion returned
  obtain ⟨source, _, created⟩ := Symbolrt.bind_eq_ok.mp created
  obtain ⟨target, _, created⟩ := Symbolrt.bind_eq_ok.mp created
  cases created
  let registered : Transition :=
    { transition with source := source.label, target := target.label }
  cases location.isInitialLocation with
  | true => exact ⟨_, registered, rfl, compiles.guards⟩
  | false => exact ⟨_, registered, rfl, compiles.guards⟩

/-- Setting the condition of an initial source beforehand makes no difference. -/
theorem extend_conditioned {transition : Transition} {location : Location}
    (located : model.getLocation transition.source = some location) :
    (if location.isInitialLocation then model.setInitialCondition (some transition.dataGuard)
      else model).extend transition = model.extend transition := by
  cases flag : location.isInitialLocation with
  | false => rfl
  | true =>
      have initial : model.isInitial transition.source = true := by
        rw [TIOSTS.isInitial, located]
        exact flag
      have conditioned : (model.setInitialCondition (some transition.dataGuard)).isInitial
          transition.source = true := initial
      rw [if_pos rfl, TIOSTS.extend, TIOSTS.extend, if_pos initial, if_pos conditioned]
      rfl

theorem ok_of_create {transition : Transition} (labelled : model.Labelled)
    (created : model.create transition = .ok next) :
    (model.IsRegistered transition.source ∧ model.IsRegistered transition.target) ∧
      next = model.extend transition := by
  by_cases registered : model.IsRegistered transition.source ∧
      model.IsRegistered transition.target
  · rw [TIOSTS.create_eq labelled registered.1 registered.2] at created
    cases created
    exact ⟨registered, rfl⟩
  · rw [TIOSTS.create_error registered] at created
    cases created

theorem setTransition_compiles (labelled : model.Labelled)
    (returned : setTransition model trans = .ok next) :
    ∃ transition, CompilesTo model trans transition ∧
      (model.IsRegistered transition.source ∧ model.IsRegistered transition.target) ∧
      next = model.extend transition := by
  obtain ⟨location, transition, located, compiles, created⟩ := setTransition_inversion returned
  have kept : ∀ condition, (model.setInitialCondition condition).Labelled := fun _ => labelled
  refine ⟨transition, compiles, ?_⟩
  rw [← extend_conditioned located]
  split at created
  · rename_i flag
    rw [if_pos flag]
    exact ok_of_create (kept _) created
  · rename_i flag
    rw [if_neg flag]
    exact ok_of_create labelled created

/-- The declarations are compiled in their order, each to one transition. -/
theorem setTransitions_compiles {transitions : List AbstractTransition}
    (labelled : model.Labelled) (returned : setTransitions transitions model = .ok next) :
    ∃ created, List.Forall₂ (CompilesTo model) transitions created ∧
      TIOSTS.Grows model created next := by
  suffices general : ∀ (rest : List AbstractTransition) (done : List Transition)
      (current : TIOSTS), TIOSTS.Grows model done current →
      rest.foldlM setTransition current = .ok next →
      ∃ created, List.Forall₂ (CompilesTo model) rest created ∧
        TIOSTS.Grows model (done ++ created) next from
    general transitions [] model (TIOSTS.Grows.refl labelled) returned
  intro rest
  induction rest with
  | nil =>
      intro done current grows returned
      cases returned
      refine ⟨[], .nil, ?_⟩
      rw [List.append_nil]
      exact grows
  | cons trans rest induction =>
      intro done current grows returned
      rw [List.foldlM_cons] at returned
      obtain ⟨middle, stepped, later⟩ := Symbolrt.bind_eq_ok.mp returned
      obtain ⟨transition, compiles, registered, rfl⟩ :=
        setTransition_compiles grows.labelled stepped
      have clocks : model.clocks = current.clocks := by rw [grows.stores]
      have alphabet : model.toAlphabet = current.toAlphabet := by rw [grows.stores]
      have extended := grows.extend ((grows.isRegistered _).mp registered.1)
        ((grows.isRegistered _).mp registered.2)
      obtain ⟨created, compiled, grown⟩ := induction _ _ extended later
      refine ⟨transition :: created, .cons (compiles.congr clocks alphabet) compiled, ?_⟩
      rw [List.append_assoc] at grown
      exact grown

end Setting

end Symbolrt
