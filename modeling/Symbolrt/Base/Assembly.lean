import Symbolrt.Base.WellFormed

/-!
# Assembling a model

A model is put together from its declarations, the labels of its locations and
its transitions, in this order.  The result is well formed as soon as the
transitions use the labels and the declared actions.
-/

namespace Symbolrt

namespace TIOSTS

/-- A model without locations that declares the given actions, variables,
parameters and clocks. -/
def declare (name : String) (actions : List Action) (modelVariables : List TypedData)
    (actionParameters : List TypedData) (clocks : List String) : TIOSTS :=
  { actions.foldl (fun model action => model.addAction action) (TIOSTS.new name) with
    modelVariables := modelVariables
    actionParameters := actionParameters
    clocks := clocks }

/-- Adds locations of these labels, the initial one flagged. -/
def addLocations (labels : List String) (initial : String) (model : TIOSTS) : TIOSTS :=
  labels.foldl (fun model label => model.addLocation (Location.new label (label == initial)))
    model

/-- What `createTransition` does between registered locations. -/
def attach (initial : String) (model : TIOSTS) (transition : Transition) : TIOSTS :=
  (model.setInitialCondition
    (if transition.source = initial then some transition.dataGuard
      else model.initialCondition)).register transition

/-- A model with the given locations and transitions. -/
def assemble (declarations : TIOSTS) (labels : List String) (initial : String)
    (transitions : List Transition) : TIOSTS :=
  transitions.foldl (attach initial)
    ((declarations.addLocations labels initial).setInitialLocation initial)

theorem foldl_addAction_isBlank (actions : List Action) {model : TIOSTS}
    (blank : model.IsBlank) :
    (actions.foldl (fun model action => model.addAction action) model).IsBlank := by
  induction actions generalizing model with
  | nil => exact blank
  | cons action actions induction =>
      exact induction ⟨blank.locations, blank.transitions, blank.initialLocation⟩

theorem declare_isBlank (name : String) (actions : List Action)
    (modelVariables actionParameters : List TypedData) (clocks : List String) :
    (declare name actions modelVariables actionParameters clocks).IsBlank := by
  have blank := foldl_addAction_isBlank actions (⟨rfl, rfl, rfl⟩ : (TIOSTS.new name).IsBlank)
  exact ⟨blank.locations, blank.transitions, blank.initialLocation⟩

section Locations

variable (labels : List String) (initial : String)

theorem addLocations_wellFormed {model : TIOSTS} (wellFormed : model.WellFormed) :
    (model.addLocations labels initial).WellFormed := by
  induction labels generalizing model with
  | nil => exact wellFormed
  | cons label labels induction => exact induction (wellFormed.addLocation _ _)

theorem addLocations_isRegistered (model : TIOSTS) (label : String) :
    (model.addLocations labels initial).IsRegistered label ↔
      label ∈ labels ∨ model.IsRegistered label := by
  induction labels generalizing model with
  | nil => simp [addLocations]
  | cons first labels induction =>
      have step := induction (model.addLocation (Location.new first (first == initial)))
      rw [isRegistered_addLocation] at step
      rw [addLocations, List.foldl_cons, ← addLocations, step, List.mem_cons]
      simp only [Location.new]
      rw [or_left_comm, or_assoc]

theorem addLocations_outOf (model : TIOSTS) (label : String) :
    (model.addLocations labels initial).outOf label = model.outOf label := by
  induction labels generalizing model with
  | nil => rfl
  | cons first labels induction =>
      rw [addLocations, List.foldl_cons, ← addLocations, induction, outOf_addLocation]

theorem addLocations_alphabet (model : TIOSTS) :
    (model.addLocations labels initial).toAlphabet = model.toAlphabet := by
  induction labels generalizing model with
  | nil => rfl
  | cons first labels induction =>
      rw [addLocations, List.foldl_cons, ← addLocations, induction, addLocation_alphabet]

theorem addLocations_clocks (model : TIOSTS) :
    (model.addLocations labels initial).clocks = model.clocks := by
  induction labels generalizing model with
  | nil => rfl
  | cons first labels induction =>
      rw [addLocations, List.foldl_cons, ← addLocations, induction, addLocation_clocks]

theorem addLocations_dataNames (model : TIOSTS) :
    (model.addLocations labels initial).dataNames = model.dataNames := by
  induction labels generalizing model with
  | nil => rfl
  | cons first labels induction =>
      rw [addLocations, List.foldl_cons, ← addLocations, induction, addLocation_dataNames]

end Locations

section Transitions

variable {initial : String} {model : TIOSTS} {transitions : List Transition}

theorem foldl_attach_wellFormed (wellFormed : model.WellFormed)
    (uses : ∀ transition ∈ transitions, model.IsRegistered transition.source ∧
      model.IsRegistered transition.target ∧
      (model.getAction transition.action.type transition.action.name).isSome = true) :
    (transitions.foldl (attach initial) model).WellFormed := by
  induction transitions generalizing model with
  | nil => exact wellFormed
  | cons first rest induction =>
      obtain ⟨source, target, declared⟩ := uses first (by simp)
      apply induction
      · exact (wellFormed.setInitialCondition _).register source target
          (Option.isSome_iff_exists.mp declared)
      · intro transition member
        obtain ⟨laterSource, laterTarget, laterDeclared⟩ :=
          uses transition (by simp [member])
        refine ⟨?_, ?_, ?_⟩
        · exact (isRegistered_register _ _ _).mpr laterSource
        · exact (isRegistered_register _ _ _).mpr laterTarget
        · rw [getAction, attach, register_alphabet]
          exact laterDeclared

theorem foldl_attach_outOf (uses : ∀ transition ∈ transitions,
      model.IsRegistered transition.source) (label : String) :
    (transitions.foldl (attach initial) model).outOf label =
      model.outOf label ++ transitions.filter (fun transition => label = transition.source) := by
  induction transitions generalizing model with
  | nil => simp
  | cons first rest induction =>
      have attached : (attach initial model first).outOf label =
          if label = first.source then model.outOf label ++ [first]
          else model.outOf label :=
        outOf_register (model.setInitialCondition _) label first (uses first (by simp))
      rw [List.foldl_cons, induction, attached]
      · by_cases same : label = first.source <;> simp [same]
      · intro transition member
        exact (isRegistered_register _ _ _).mpr (uses transition (by simp [member]))

theorem foldl_attach_isRegistered (label : String) :
    (transitions.foldl (attach initial) model).IsRegistered label ↔
      model.IsRegistered label := by
  induction transitions generalizing model with
  | nil => rfl
  | cons first rest induction =>
      rw [List.foldl_cons, induction, attach, isRegistered_register]
      rfl

theorem foldl_attach_initialLocation :
    (transitions.foldl (attach initial) model).initialLocation = model.initialLocation := by
  induction transitions generalizing model with
  | nil => rfl
  | cons first rest induction =>
      rw [List.foldl_cons, induction, attach, register_initialLocation]
      rfl

theorem foldl_attach_clocks :
    (transitions.foldl (attach initial) model).clocks = model.clocks := by
  induction transitions generalizing model with
  | nil => rfl
  | cons first rest induction =>
      rw [List.foldl_cons, induction, attach, register_clocks]
      rfl

theorem foldl_attach_dataNames :
    (transitions.foldl (attach initial) model).dataNames = model.dataNames := by
  induction transitions generalizing model with
  | nil => rfl
  | cons first rest induction =>
      rw [List.foldl_cons, induction, attach, register_dataNames]
      rfl

end Transitions

section Assemble

variable {declarations : TIOSTS} (blank : declarations.IsBlank) {labels : List String}
  {initial : String} {transitions : List Transition}

/-- The transitions use registered labels and declared actions. -/
def Uses (declarations : TIOSTS) (labels : List String) (initial : String)
    (transitions : List Transition) : Prop :=
  initial ∈ labels ∧ ∀ transition ∈ transitions, transition.source ∈ labels ∧
    transition.target ∈ labels ∧
    (declarations.getAction transition.action.type transition.action.name).isSome = true

instance (declarations : TIOSTS) (labels : List String) (initial : String)
    (transitions : List Transition) :
    Decidable (Uses declarations labels initial transitions) :=
  inferInstanceAs (Decidable (_ ∧ _))

theorem assemble_initialLocation :
    (assemble declarations labels initial transitions).initialLocation = some initial :=
  foldl_attach_initialLocation

theorem assemble_clocks :
    (assemble declarations labels initial transitions).clocks = declarations.clocks := by
  rw [assemble, foldl_attach_clocks]
  exact (updateLocation_clocks _ _ _).trans (addLocations_clocks labels initial declarations)

theorem assemble_dataNames :
    (assemble declarations labels initial transitions).dataNames = declarations.dataNames := by
  rw [assemble, foldl_attach_dataNames]
  exact (updateLocation_dataNames _ _ _).trans
    (addLocations_dataNames labels initial declarations)

include blank

theorem assemble_isRegistered (label : String) :
    (assemble declarations labels initial transitions).IsRegistered label ↔
      label ∈ labels := by
  rw [assemble, foldl_attach_isRegistered, isRegistered_setInitialLocation,
    addLocations_isRegistered]
  simp [blank.unregistered label]

theorem assemble_outOf (uses : Uses declarations labels initial transitions)
    (label : String) :
    (assemble declarations labels initial transitions).outOf label =
      transitions.filter (fun transition => label = transition.source) := by
  rw [assemble, foldl_attach_outOf, outOf_setInitialLocation, addLocations_outOf]
  · simp [outOf, getLocation, blank.locations]
  · intro transition member
    rw [isRegistered_setInitialLocation, addLocations_isRegistered]
    exact Or.inl (uses.2 transition member).1

theorem assemble_wellFormed (uses : Uses declarations labels initial transitions) :
    (assemble declarations labels initial transitions).WellFormed := by
  have registered : ∀ label ∈ labels,
      ((declarations.addLocations labels initial).setInitialLocation initial).IsRegistered
        label := by
    intro label member
    rw [isRegistered_setInitialLocation, addLocations_isRegistered]
    exact Or.inl member
  apply foldl_attach_wellFormed
  · apply (addLocations_wellFormed labels initial blank.wellFormed).setInitialLocation
    rw [addLocations_isRegistered]
    exact Or.inl uses.1
  · intro transition member
    obtain ⟨source, target, declared⟩ := uses.2 transition member
    refine ⟨registered _ source, registered _ target, ?_⟩
    rw [getAction, setInitialLocation_alphabet, addLocations_alphabet]
    exact declared

theorem assemble_uniqueTransitions (uses : Uses declarations labels initial transitions)
    (nodup : (transitions.map (fun transition =>
      (transition.source, transition.action.name, transition.target))).Nodup) :
    (assemble declarations labels initial transitions).UniqueTransitions := by
  intro label
  rw [assemble_outOf blank uses]
  apply List.Nodup.of_map (fun entry => (label, entry))
  have kept := (nodup.of_map _).filter (fun transition => label = transition.source)
  rw [List.map_map]
  apply kept.map_on
  intro one oneMember other otherMember same
  obtain ⟨oneIn, oneSource⟩ := List.mem_filter.mp oneMember
  obtain ⟨otherIn, otherSource⟩ := List.mem_filter.mp otherMember
  apply List.inj_on_of_nodup_map nodup oneIn otherIn
  simp_all

theorem assemble_labelsAvoid {excluded : List Char}
    (avoid : ∀ label ∈ labels, ∀ c ∈ excluded, c ∉ label.toList) :
    (assemble declarations labels initial transitions).LabelsAvoid excluded := by
  intro label registered
  exact avoid label ((assemble_isRegistered blank label).mp registered)

theorem assemble_numberedClocks (uses : Uses declarations labels initial transitions)
    (numbered : ∀ transition ∈ transitions, ∀ simple ∈ transition.clockGuard.clockGuard,
      simple.clock ∈ declarations.clocks ∧
        simple.clockId = clockIdIn declarations.clocks simple.clock) :
    (assemble declarations labels initial transitions).NumberedClocks := by
  intro label transition member
  rw [assemble_outOf blank uses] at member
  simp only [getClockId, assemble_clocks]
  exact numbered transition (List.mem_filter.mp member).1

end Assemble

end TIOSTS

/-- A transition without guards and assignments. -/
def Transition.bare (source : String) (action : Action) (target : String) : Transition :=
  ⟨source, .constantTrue, ClockGuard.empty, action, none, none, .lazy, target⟩

end Symbolrt
