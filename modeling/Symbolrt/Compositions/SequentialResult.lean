import Symbolrt.Compositions.SequentialComposition

/-!
# The result of a sequential composition

What the result declares, which locations it has, and that a composition which returns
holds exactly the transitions it was to create.
-/

namespace Symbolrt

namespace SequentialComposition

namespace Junction

variable (junction : Junction)

theorem declared_isBlank : junction.declared.IsBlank := by
  unfold declared declare
  simp only [TIOSTS.foldl_addAction]
  exact ⟨rfl, rfl, rfl⟩

/-- The actions of the result: inputs and outputs of both models, but only the internal
actions of the first. -/
def declaredActions : ActionType → List Action
  | .input => junction.tiosts1.inputActions ++ junction.tiosts2.inputActions.filter
      (fun action => !action.equals junction.t02.action)
  | .output => junction.tiosts1.outputActions ++ junction.tiosts2.outputActions
  | .internal => junction.tiosts1.internalActions

theorem declared_actionsOf (type : ActionType) :
    junction.declared.actionsOf type = junction.declaredActions type := by
  have inputs : ∀ action ∈ junction.declaredActions .input, action.type = .input := by
    intro action member
    rcases List.mem_append.mp member with one | two
    · exact junction.tiosts1.inputActions_type action one
    · exact junction.tiosts2.inputActions_type action (List.mem_filter.mp two).1
  have outputs : ∀ action ∈ junction.declaredActions .output, action.type = .output := by
    intro action member
    rcases List.mem_append.mp member with one | two
    · exact junction.tiosts1.outputActions_type action one
    · exact junction.tiosts2.outputActions_type action two
  have internals := junction.tiosts1.internalActions_type
  have folded : junction.declared.actionsOf type =
      junction.tiosts1.internalActions.filter (fun action => action.type = type) ++
        (junction.declaredActions .output).filter (fun action => action.type = type) ++
          (junction.declaredActions .input).filter (fun action => action.type = type) := by
    unfold declared declare
    simp only [TIOSTS.foldl_addAction, Alphabet.actionsOf_foldl]
    cases type <;> rfl
  rw [folded]
  cases type with
  | input =>
      rw [filter_type_other internals (by decide), filter_type_other outputs (by decide),
        filter_type_self inputs]
      rfl
  | output =>
      rw [filter_type_other internals (by decide), filter_type_self outputs,
        filter_type_other inputs (by decide)]
      simp
  | internal =>
      rw [filter_type_self internals, filter_type_other outputs (by decide),
        filter_type_other inputs (by decide)]
      simp [declaredActions]

variable (order : IterationOrder)

/-- The labels of the result. -/
def labels : List String :=
  keptLabels [junction.tc1.target, junction.tc1.source] (junction.tiosts1.getLocations order) ++
    keptLabels [junction.t02.source, junction.t02.target, junction.start2.source]
      (junction.tiosts2.getLocations order) ++ [junction.source] ++ [junction.target]

theorem located_adds :
    AddsLocations (junction.declared.setInitialCondition junction.tiosts1.initialCondition)
      (junction.labels order) (junction.located order) := by
  have blank := junction.declared_isBlank
  obtain ⟨first, _⟩ := (AddsLocations.refl blank.wellFormed.label_eq).foldl_addFirstLocation
    [junction.tc1.target, junction.tc1.source] (junction.tiosts1.getLocations order)
  obtain ⟨second, _⟩ := first.foldl_addSecondLocation
    [junction.t02.source, junction.t02.target, junction.start2.source]
    (junction.tiosts2.getLocations order)
  have conditioned := second.setInitialCondition junction.tiosts1.initialCondition
  rw [List.nil_append] at conditioned
  exact (conditioned.addLocation junction.source).addLocation junction.target

theorem base_labelled : (junction.base order).Labelled :=
  labelled_changeParameters (junction.located_adds order).labelled

theorem base_isRegistered (label : String) :
    (junction.base order).IsRegistered label ↔ label ∈ junction.labels order := by
  rw [base, isRegistered_changeParameters, (junction.located_adds order).isRegistered]
  have unregistered := junction.declared_isBlank.unregistered label
  constructor
  · rintro (impossible | member)
    · exact absurd impossible unregistered
    · exact member
  · exact Or.inr

theorem base_outOf (label : String) : (junction.base order).outOf label = [] := by
  rw [base, outOf_changeParameters, (junction.located_adds order).outOf]
  have none : junction.declared.outOf label = [] := by
    simp [TIOSTS.outOf, TIOSTS.getLocation, junction.declared_isBlank.locations]
  rw [TIOSTS.outOf_setInitialCondition, none]
  rfl

theorem base_clocks :
    (junction.base order).clocks = junction.tiosts1.clocks ++ junction.tiosts2.clocks := by
  have stores := (junction.located_adds order).stores
  have same : (junction.base order).clocks = (junction.located order).clocks := rfl
  rw [same, stores]
  rfl

theorem located_actionsOf (type : ActionType) :
    (junction.located order).actionsOf type = junction.declaredActions type := by
  have stores := (junction.located_adds order).stores
  rw [stores]
  exact junction.declared_actionsOf type

theorem base_actionNames (type : ActionType) :
    ((junction.base order).actionsOf type).map Action.name =
      (junction.declaredActions type).map Action.name := by
  rw [← junction.located_actionsOf order type]
  exact Alphabet.changeParameters_names _ _ _ _

end Junction

section Returned

variable {order : IterationOrder} {model1 model2 result : TIOSTS} {junction : Junction}

/-- The result holds the created transitions, all of which join locations it has. -/
theorem returned_iff (isJunction : IsJunction order model1 model2 junction) :
    (∃ result, sequentialComposition order model1 model2 = .ok result) ↔
      ∀ transition ∈ junction.created order, transition.source ∈ junction.labels order ∧
        transition.target ∈ junction.labels order := by
  rw [sequentialComposition_eq isJunction]
  constructor
  · rintro ⟨result, returned⟩
    intro transition member
    have ends := (TIOSTS.createAll_returned (junction.base_labelled order) returned).1
      transition member
    rw [junction.base_isRegistered, junction.base_isRegistered] at ends
    exact ends
  · intro registered
    have ends : ∀ transition ∈ junction.created order,
        (junction.base order).IsRegistered transition.source ∧
          (junction.base order).IsRegistered transition.target := by
      intro transition member
      rw [junction.base_isRegistered, junction.base_isRegistered]
      exact registered transition member
    obtain ⟨result, returned, _⟩ :=
      TIOSTS.createAll_ok (junction.base_labelled order) ends
    exact ⟨result, returned⟩

theorem returned_grows (isJunction : IsJunction order model1 model2 junction)
    (returned : sequentialComposition order model1 model2 = .ok result) :
    TIOSTS.Grows (junction.base order) (junction.created order) result := by
  rw [sequentialComposition_eq isJunction] at returned
  exact (TIOSTS.createAll_returned (junction.base_labelled order) returned).2

theorem returned_outOf (isJunction : IsJunction order model1 model2 junction)
    (returned : sequentialComposition order model1 model2 = .ok result) (label : String) :
    result.outOf label =
      (junction.created order).filter (fun transition => label = transition.source) := by
  rw [(returned_grows isJunction returned).outOf, junction.base_outOf, List.nil_append]

/-- The action of the merged transition is declared under the name and type of the first
model's. -/
theorem IsJunction.action_eq (isJunction : IsJunction order model1 model2 junction) :
    junction.action.name = junction.tc1.action.name ∧
      junction.action.type = junction.tc1.action.type :=
  (TIOSTS.recoverAction_eq_ok isJunction.action).2

theorem exists_transition_iff (isJunction : IsJunction order model1 model2 junction)
    (returned : sequentialComposition order model1 model2 = .ok result)
    (transition : Transition) :
    (∃ label, transition ∈ result.outOf label) ↔ transition ∈ junction.created order := by
  constructor
  · rintro ⟨label, member⟩
    rw [returned_outOf isJunction returned] at member
    exact (List.mem_filter.mp member).1
  · intro member
    refine ⟨transition.source, ?_⟩
    rw [returned_outOf isJunction returned]
    exact List.mem_filter.mpr ⟨member, by simp⟩

end Returned

end SequentialComposition

end Symbolrt
