import Symbolrt.Compositions.Composition

/-!
# The sequential composition

The last transition of the first model that carries the action of the second model's
entry transition is merged with the entry transition, and the other transitions of the
two models are copied with the ends of the merged ones renamed.
-/

namespace Symbolrt

namespace SequentialComposition

abbrev createAssignments := SynchronousProduct.createAssignments

abbrev createDataGuard := SynchronousProduct.createDataGuard

abbrev createClockGuard := SynchronousProduct.createClockGuard

/-- The search for the transition of the action.  The flag that should reject a second
one is reset in every round, so the last one is taken. -/
def getCompositionTransition (transitions : List Transition) (compositeAction : String) :
    Option Transition :=
  recoverTransition transitions compositeAction

/-- The declarations of the result. -/
def declare (tiosts1 tiosts2 : TIOSTS) (t02 : Transition) : TIOSTS :=
  let result := TIOSTS.new (tiosts1.name ++ ";" ++ tiosts2.name)
  let result := tiosts1.internalActions.foldl (fun result action => result.addAction action)
    result
  let result := (tiosts1.outputActions ++ tiosts2.outputActions).foldl
    (fun result action => result.addAction action) result
  let result := (tiosts1.inputActions ++ tiosts2.inputActions.filter
    (fun action => !action.equals t02.action)).foldl
      (fun result action => result.addAction action) result
  { result with
    modelVariables := tiosts1.modelVariables ++ tiosts2.modelVariables
    -- each parameter is compared with a list, which it never equals
    actionParameters := tiosts1.actionParameters ++ tiosts2.actionParameters
    clocks := tiosts1.clocks ++ tiosts2.clocks }

/-- The declarations, the locations away from the junction, and the condition of the first
model. -/
def initializeResult (order : IterationOrder) (tiosts1 tiosts2 : TIOSTS) (tc1 t02 : Transition) :
    Except Failure TIOSTS := do
  let result := declare tiosts1 tiosts2 t02
  let start2 ← tiosts2.firstIn t02.source
  let result := (tiosts1.getLocations order).foldl
    (TIOSTS.addFirstLocation [tc1.target, tc1.source]) result
  let result := (tiosts2.getLocations order).foldl
    (TIOSTS.addSecondLocation [t02.source, t02.target, start2.source]) result
  return result.setInitialCondition tiosts1.initialCondition

/-- The transition merged from the two that synchronise. -/
def syncTransition (tc1 t02 : Transition) (initialCondition : DataGuard) (action : Action) :
    Transition where
  source := composedLabel tc1.source t02.source
  dataGuard := createDataGuard (createDataGuard tc1.dataGuard t02.dataGuard) initialCondition
  clockGuard := createClockGuard tc1.clockGuard t02.clockGuard
  action := { action with parameters := t02.action.parameters }
  dataAssignments := createAssignments tc1.dataAssignments t02.dataAssignments
  clockAssignments := createAssignments tc1.clockAssignments t02.clockAssignments
  deadline := .lazy
  target := composedLabel tc1.target t02.target

/-- A transition of the first model, of which only one end is renamed. -/
def rewireFirst (l0c1 source : String) (transition : Transition) : Transition :=
  if transition.target = l0c1 then { transition with target := source }
  else if transition.source = l0c1 then { transition with source := source }
  else transition

/-- A transition of the second model, of which only one end is renamed. -/
def rewireSecond (l02Linha target : String) (transition : Transition) : Transition :=
  if transition.source = l02Linha then { transition with source := target }
  else if transition.target = l02Linha then { transition with target := target }
  else transition

/-- Works on clones. The transition of the first model is found by the action of the
second transition of the second model. -/
def sequentialComposition (order : IterationOrder) (model1 model2 : TIOSTS) :
    Except Failure TIOSTS := do
  let tiosts1 ← model1.clone order
  let tiosts2 ← model2.clone order
  let start2 ← deref tiosts2.initialLocation
  let init2 ← tiosts2.firstOut start2
  let t02 ← tiosts2.firstOut init2.target
  let tc1 ← deref (getCompositionTransition (tiosts1.getTransitions order) t02.action.name)
  let result ← initializeResult order tiosts1 tiosts2 tc1 t02
  let source := composedLabel tc1.source t02.source
  let target := composedLabel tc1.target t02.target
  let result := result.addLocation (Location.new source false)
  let result := result.addLocation (Location.new target false)
  -- the initial transition of a copy sets its initial condition, so it is not null
  let initialCondition ← deref tiosts2.initialCondition
  let parameters := t02.action.parameters
  let action ← result.recoverAction tc1.action
  let result := result.changeParameters action parameters
  let result ← result.create (syncTransition tc1 t02 initialCondition action)
  -- the transitions of the first model share their action objects with the result
  let result ← ((tiosts1.getTransitions order).filter
    (fun transition => !transition.equals tc1)).foldlM (fun result transition =>
      result.create (rewireFirst tc1.source source
        (transition.changeParameters action parameters))) result
  ((tiosts2.getTransitions order).filter (fun transition =>
    !transition.equals init2 && !transition.equals t02)).foldlM (fun result transition =>
      result.create (rewireSecond t02.target target transition)) result

/-- The models and transitions a composition is made from. -/
structure Junction where
  tiosts1 : TIOSTS
  tiosts2 : TIOSTS
  init2 : Transition
  t02 : Transition
  tc1 : Transition
  start2 : Transition
  initialCondition : DataGuard
  action : Action

namespace Junction

variable (junction : Junction)

/-- The composed location in front of the junction. -/
def source : String := composedLabel junction.tc1.source junction.t02.source

/-- The composed location behind the junction. -/
def target : String := composedLabel junction.tc1.target junction.t02.target

/-- The result before its locations are added. -/
def declared : TIOSTS := declare junction.tiosts1 junction.tiosts2 junction.t02

/-- The result before the two composed locations are added. -/
def initialized (order : IterationOrder) : TIOSTS :=
  let result := (junction.tiosts1.getLocations order).foldl
    (TIOSTS.addFirstLocation [junction.tc1.target, junction.tc1.source]) junction.declared
  ((junction.tiosts2.getLocations order).foldl (TIOSTS.addSecondLocation
    [junction.t02.source, junction.t02.target, junction.start2.source]) result).setInitialCondition
      junction.tiosts1.initialCondition

/-- The result with all its locations. -/
def located (order : IterationOrder) : TIOSTS :=
  ((junction.initialized order).addLocation (Location.new junction.source false)).addLocation
    (Location.new junction.target false)

/-- The result before its transitions are created. -/
def base (order : IterationOrder) : TIOSTS :=
  (junction.located order).changeParameters junction.action junction.t02.action.parameters

/-- The transition that takes the place of the two. -/
def merged : Transition :=
  syncTransition junction.tc1 junction.t02 junction.initialCondition junction.action

/-- The other transitions of the first model. -/
def others1 (order : IterationOrder) : List Transition :=
  (junction.tiosts1.getTransitions order).filter
    (fun transition => !transition.equals junction.tc1)

/-- The other transitions of the second model. -/
def others2 (order : IterationOrder) : List Transition :=
  (junction.tiosts2.getTransitions order).filter (fun transition =>
    !transition.equals junction.init2 && !transition.equals junction.t02)

/-- A transition of the first model as the composition keeps it. -/
def rewired1 (transition : Transition) : Transition :=
  rewireFirst junction.tc1.source junction.source
    (transition.changeParameters junction.action junction.t02.action.parameters)

/-- A transition of the second model as the composition keeps it. -/
def rewired2 (transition : Transition) : Transition :=
  rewireSecond junction.t02.target junction.target transition

/-- The transitions in the order in which they are created. -/
def created (order : IterationOrder) : List Transition :=
  junction.merged :: (junction.others1 order).map junction.rewired1 ++
    (junction.others2 order).map junction.rewired2

theorem rewired1_action (junction : Junction) (transition : Transition) :
    (junction.rewired1 transition).action = Action.changeParameters junction.action
      junction.t02.action.parameters transition.action := by
  rw [Junction.rewired1, rewireFirst]
  split
  · rfl
  · split <;> rfl

theorem rewired2_action (junction : Junction) (transition : Transition) :
    (junction.rewired2 transition).action = transition.action := by
  rw [Junction.rewired2, rewireSecond]
  split
  · rfl
  · split <;> rfl

end Junction

/-- The parts are those that the composition of the two models finds. -/
structure IsJunction (order : IterationOrder) (model1 model2 : TIOSTS)
    (junction : Junction) : Prop where
  copy1 : model1.clone order = .ok junction.tiosts1
  copy2 : model2.clone order = .ok junction.tiosts2
  init2 : ∃ start2, junction.tiosts2.initialLocation = some start2 ∧
    junction.tiosts2.firstOut start2 = .ok junction.init2
  t02 : junction.tiosts2.firstOut junction.init2.target = .ok junction.t02
  tc1 : getCompositionTransition (junction.tiosts1.getTransitions order)
    junction.t02.action.name = some junction.tc1
  start2 : junction.tiosts2.firstIn junction.t02.source = .ok junction.start2
  initialCondition : junction.tiosts2.initialCondition = some junction.initialCondition
  action : (junction.located order).recoverAction junction.tc1.action = .ok junction.action

/-- The search for the parts of a composition. -/
def findJunction (order : IterationOrder) (model1 model2 : TIOSTS) :
    Except Failure Junction := do
  let tiosts1 ← model1.clone order
  let tiosts2 ← model2.clone order
  let start2 ← deref tiosts2.initialLocation
  let init2 ← tiosts2.firstOut start2
  let t02 ← tiosts2.firstOut init2.target
  let tc1 ← deref (getCompositionTransition (tiosts1.getTransitions order) t02.action.name)
  let start2 ← tiosts2.firstIn t02.source
  let initialCondition ← deref tiosts2.initialCondition
  let junction : Junction :=
    ⟨tiosts1, tiosts2, init2, t02, tc1, start2, initialCondition, tc1.action⟩
  let action ← (junction.located order).recoverAction tc1.action
  return { junction with action := action }

theorem isJunction_of_findJunction {order : IterationOrder} {model1 model2 : TIOSTS}
    {junction : Junction} (found : findJunction order model1 model2 = .ok junction) :
    IsJunction order model1 model2 junction := by
  rw [findJunction] at found
  obtain ⟨tiosts1, copy1, found⟩ := bind_eq_ok.mp found
  obtain ⟨tiosts2, copy2, found⟩ := bind_eq_ok.mp found
  obtain ⟨start2, initial, found⟩ := bind_eq_ok.mp found
  obtain ⟨init2, first, found⟩ := bind_eq_ok.mp found
  obtain ⟨t02, second, found⟩ := bind_eq_ok.mp found
  obtain ⟨tc1, merged, found⟩ := bind_eq_ok.mp found
  obtain ⟨start, firstIn, found⟩ := bind_eq_ok.mp found
  obtain ⟨initialCondition, condition, found⟩ := bind_eq_ok.mp found
  obtain ⟨action, recovered, found⟩ := bind_eq_ok.mp found
  obtain rfl := Except.ok.inj found
  exact ⟨copy1, copy2, ⟨start2, deref_eq_ok.mp initial, first⟩, second, deref_eq_ok.mp merged,
    firstIn, deref_eq_ok.mp condition, recovered⟩

section Runs

variable {order : IterationOrder} {model1 model2 : TIOSTS}

theorem foldlM_create_map (change : Transition → Transition) (transitions : List Transition)
    (result : TIOSTS) :
    transitions.foldlM (fun result transition => result.create (change transition)) result =
      (transitions.map change).foldlM TIOSTS.create result := by
  induction transitions generalizing result with
  | nil => rfl
  | cons transition rest induction =>
      rw [List.foldlM_cons, List.map_cons, List.foldlM_cons]
      cases result.create (change transition) with
      | error failure => rfl
      | ok next => exact induction next

/-- The composition creates the transitions of its parts. -/
theorem sequentialComposition_eq {junction : Junction}
    (isJunction : IsJunction order model1 model2 junction) :
    sequentialComposition order model1 model2 =
      (junction.created order).foldlM TIOSTS.create (junction.base order) := by
  obtain ⟨start2, initial, first⟩ := isJunction.init2
  have initialized : initializeResult order junction.tiosts1 junction.tiosts2 junction.tc1
      junction.t02 = .ok (junction.initialized order) := by
    rw [initializeResult, isJunction.start2, ok_bind]
    rfl
  have recovered : (((junction.initialized order).addLocation (Location.new
      (composedLabel junction.tc1.source junction.t02.source) false)).addLocation
        (Location.new (composedLabel junction.tc1.target junction.t02.target)
          false)).recoverAction junction.tc1.action = .ok junction.action := isJunction.action
  rw [sequentialComposition, isJunction.copy1, ok_bind, isJunction.copy2, ok_bind, initial,
    deref_some, ok_bind, first, ok_bind, isJunction.t02, ok_bind, isJunction.tc1, deref_some,
    ok_bind, initialized, ok_bind, isJunction.initialCondition, deref_some, ok_bind]
  simp only [recovered, ok_bind, foldlM_create_map]
  rw [Junction.created, List.cons_append, List.foldlM_cons]
  change ((junction.base order).create junction.merged >>= _) = _
  cases (junction.base order).create junction.merged with
  | error failure => rfl
  | ok result =>
      rw [ok_bind, ok_bind, List.foldlM_append]
      rfl

/-- A composition that returns has found its parts. -/
theorem exists_junction {result : TIOSTS}
    (returned : sequentialComposition order model1 model2 = .ok result) :
    ∃ junction, IsJunction order model1 model2 junction := by
  rw [sequentialComposition] at returned
  obtain ⟨tiosts1, copy1, returned⟩ := bind_eq_ok.mp returned
  obtain ⟨tiosts2, copy2, returned⟩ := bind_eq_ok.mp returned
  obtain ⟨start2, initial, returned⟩ := bind_eq_ok.mp returned
  obtain ⟨init2, first, returned⟩ := bind_eq_ok.mp returned
  obtain ⟨t02, second, returned⟩ := bind_eq_ok.mp returned
  obtain ⟨tc1, found, returned⟩ := bind_eq_ok.mp returned
  obtain ⟨initialized, wasInitialized, returned⟩ := bind_eq_ok.mp returned
  obtain ⟨initialCondition, condition, returned⟩ := bind_eq_ok.mp returned
  obtain ⟨action, recovered, _⟩ := bind_eq_ok.mp returned
  rw [initializeResult] at wasInitialized
  obtain ⟨start, firstIn, ended⟩ := bind_eq_ok.mp wasInitialized
  obtain rfl := Except.ok.inj ended
  exact ⟨⟨tiosts1, tiosts2, init2, t02, tc1, start, initialCondition, action⟩,
    ⟨copy1, copy2, ⟨start2, deref_eq_ok.mp initial, first⟩, second, deref_eq_ok.mp found,
      firstIn, deref_eq_ok.mp condition, recovered⟩⟩

end Runs

end SequentialComposition

end Symbolrt
