import Symbolrt.Base.TIOSTS

/-!
# Well-formed models

What a model satisfies when it was assembled by the operations of its class:
locations are registered under their labels, transitions lead from and to
registered locations, their actions are declared, and the map of transitions
only holds transitions that also stand in the lists.
-/

namespace Symbolrt

namespace TIOSTS

/-- The outgoing transitions of a registered location. -/
def outOf (model : TIOSTS) (label : String) : List Transition :=
  ((model.getLocation label).map Location.outTransitions).getD []

/-- The label has a location. -/
def IsRegistered (model : TIOSTS) (label : String) : Prop := label ∈ model.locations

/-- Every listed transition starts where it is listed, ends at a registered location and has
a declared action, and every stored one is listed and has its key. -/
structure WellFormed (model : TIOSTS) : Prop where
  label_eq : ∀ {label location}, model.getLocation label = some location →
    location.label = label
  source_eq : ∀ {label transition}, transition ∈ model.outOf label →
    transition.source = label
  target_registered : ∀ {label transition}, transition ∈ model.outOf label →
    model.IsRegistered transition.target
  action_declared : ∀ {label transition}, transition ∈ model.outOf label →
    ∃ action, model.getAction transition.action.type transition.action.name = some action
  initial_registered : ∀ {label}, model.initialLocation = some label →
    ∃ location, model.getLocation label = some location ∧
      location.isInitialLocation = true
  stored : ∀ {key transition}, model.transitions.lookup key = some transition →
    transition.key = key ∧ transition ∈ model.outOf transition.source

/-- A model that has no locations and transitions yet. -/
structure IsBlank (model : TIOSTS) : Prop where
  locations : model.locations = ∅
  transitions : model.transitions = ∅
  initialLocation : model.initialLocation = none

theorem IsBlank.wellFormed {model : TIOSTS} (blank : model.IsBlank) : model.WellFormed := by
  constructor <;> intros <;>
    simp_all [outOf, getLocation, blank.locations, blank.transitions, blank.initialLocation]

theorem IsBlank.unregistered {model : TIOSTS} (blank : model.IsBlank) (label : String) :
    ¬ model.IsRegistered label := by
  simp [IsRegistered, blank.locations]

/-- No two transitions share source, action name and target. -/
def UniqueTransitions (model : TIOSTS) : Prop :=
  ∀ label, ((model.outOf label).map
    (fun transition => (transition.action.name, transition.target))).Nodup

/-- Every clock guard names declared clocks, numbered by the clock list. -/
def NumberedClocks (model : TIOSTS) : Prop :=
  ∀ label, ∀ transition ∈ model.outOf label, ∀ simple ∈ transition.clockGuard.clockGuard,
    simple.clock ∈ model.clocks ∧ simple.clockId = model.getClockId simple.clock

/-- None of the excluded characters occurs in a label of the model. -/
def LabelsAvoid (model : TIOSTS) (excluded : List Char) : Prop :=
  ∀ label, model.IsRegistered label → ∀ c ∈ excluded, c ∉ label.toList

theorem getAction_eq_some {model : TIOSTS} {type : ActionType} {name : String}
    {action : Action} (found : model.getAction type name = some action) :
    action ∈ model.actionsOf type ∧ action.type = type ∧ action.name = name := by
  have member := List.mem_of_find?_eq_some found
  refine ⟨member, model.actionsOf_type type action member, ?_⟩
  simpa using List.find?_some found

theorem exists_getAction {model : TIOSTS} {type : ActionType} {action : Action}
    (member : action ∈ model.actionsOf type) :
    ∃ declared, model.getAction type action.name = some declared := by
  cases found : model.getAction type action.name with
  | some declared => exact ⟨declared, rfl⟩
  | none =>
      have missing := List.find?_eq_none.mp found action member
      simp at missing

section Lookups

variable (model : TIOSTS) (label : String)

theorem isRegistered_iff : model.IsRegistered label ↔
    ∃ location, model.getLocation label = some location := by
  rw [IsRegistered, ← AList.lookup_isSome, Option.isSome_iff_exists]
  rfl

theorem outOf_eq {location : Location}
    (found : model.getLocation label = some location) :
    model.outOf label = location.outTransitions := by
  simp [outOf, found]

theorem isRegistered_of_mem_outOf {model : TIOSTS} {label : String}
    {transition : Transition} (member : transition ∈ model.outOf label) :
    model.IsRegistered label := by
  rw [isRegistered_iff]
  cases found : model.getLocation label with
  | none => simp [outOf, found] at member
  | some location => exact ⟨location, rfl⟩

@[simp] theorem getLocation_setInitialCondition (condition : Option DataGuard) :
    (model.setInitialCondition condition).getLocation label = model.getLocation label :=
  rfl

@[simp] theorem outOf_setInitialCondition (condition : Option DataGuard) :
    (model.setInitialCondition condition).outOf label = model.outOf label := rfl

theorem getLocation_updateLocation (changed : String) (change : Location → Location) :
    (model.updateLocation changed change).getLocation label =
      if label = changed then (model.getLocation label).map change
      else model.getLocation label := by
  unfold updateLocation getLocation
  cases found : model.locations.lookup changed with
  | none =>
      by_cases same : label = changed
      · subst same
        simp [found]
      · simp [same]
  | some location =>
      by_cases same : label = changed
      · subst same
        simp [found]
      · simp [same, AList.lookup_insert_ne]

@[simp] theorem updateLocation_transitions (changed : String)
    (change : Location → Location) :
    (model.updateLocation changed change).transitions = model.transitions := by
  unfold updateLocation
  split <;> rfl

@[simp] theorem updateLocation_alphabet (changed : String)
    (change : Location → Location) :
    (model.updateLocation changed change).toAlphabet = model.toAlphabet := by
  unfold updateLocation
  split <;> rfl

@[simp] theorem updateLocation_clocks (changed : String)
    (change : Location → Location) :
    (model.updateLocation changed change).clocks = model.clocks := by
  unfold updateLocation
  split <;> rfl

@[simp] theorem updateLocation_dataNames (changed : String)
    (change : Location → Location) :
    (model.updateLocation changed change).dataNames = model.dataNames := by
  unfold updateLocation
  split <;> rfl

@[simp] theorem updateLocation_initialLocation (changed : String)
    (change : Location → Location) :
    (model.updateLocation changed change).initialLocation = model.initialLocation := by
  unfold updateLocation
  split <;> rfl

@[simp] theorem updateLocation_name (changed : String)
    (change : Location → Location) :
    (model.updateLocation changed change).name = model.name := by
  unfold updateLocation
  split <;> rfl

theorem getLocation_addLocation (location : Location) :
    (model.addLocation location).getLocation label =
      if label = location.label then some ((model.getLocation label).getD location)
      else model.getLocation label := by
  unfold addLocation getLocation
  by_cases same : label = location.label
  · subst same
    by_cases present : location.label ∈ model.locations
    · obtain ⟨registered, found⟩ := Option.isSome_iff_exists.mp
        (AList.lookup_isSome.mpr present)
      simp [present, found]
    · simp [present, AList.lookup_eq_none.mpr present]
  · by_cases present : location.label ∈ model.locations
    · simp [same, present]
    · simp [same, present, AList.lookup_insert_ne]

theorem outOf_addLocation (added : String) (isInitialLocation : Bool) :
    (model.addLocation (Location.new added isInitialLocation)).outOf label =
      model.outOf label := by
  unfold outOf
  rw [getLocation_addLocation]
  split
  · cases model.getLocation label <;> rfl
  · rfl

@[simp] theorem addLocation_transitions (location : Location) :
    (model.addLocation location).transitions = model.transitions := by
  unfold addLocation
  split <;> rfl

@[simp] theorem addLocation_alphabet (location : Location) :
    (model.addLocation location).toAlphabet = model.toAlphabet := by
  unfold addLocation
  split <;> rfl

@[simp] theorem addLocation_clocks (location : Location) :
    (model.addLocation location).clocks = model.clocks := by
  unfold addLocation
  split <;> rfl

@[simp] theorem addLocation_dataNames (location : Location) :
    (model.addLocation location).dataNames = model.dataNames := by
  unfold addLocation
  split <;> rfl

@[simp] theorem addLocation_initialLocation (location : Location) :
    (model.addLocation location).initialLocation = model.initialLocation := by
  unfold addLocation
  split <;> rfl

theorem isRegistered_addLocation (location : Location) :
    (model.addLocation location).IsRegistered label ↔
      label = location.label ∨ model.IsRegistered label := by
  rw [isRegistered_iff, isRegistered_iff, getLocation_addLocation]
  split
  · simp_all
  · simp_all

theorem addLocation_eq_self (location : Location)
    (registered : model.IsRegistered location.label) :
    model.addLocation location = model := if_pos registered

end Lookups

end TIOSTS

/-- What registering a transition does to the location of the given label. -/
def Location.link (transition : Transition) (label : String) (location : Location) :
    Location :=
  let sourced := if label = transition.source then location.addOutTransition transition
    else location
  if label = transition.target then sourced.addInTransition transition else sourced

namespace TIOSTS

section Register

variable (model : TIOSTS) (label : String) (transition : Transition)

theorem getLocation_register :
    (model.register transition).getLocation label =
      (model.getLocation label).map (Location.link transition label) := by
  have linked : (model.register transition).getLocation label =
      ((model.updateLocation transition.source
        (Location.addOutTransition transition)).updateLocation transition.target
          (Location.addInTransition transition)).getLocation label := rfl
  rw [linked, getLocation_updateLocation, getLocation_updateLocation]
  cases model.getLocation label with
  | none => simp
  | some location =>
      by_cases source : label = transition.source <;>
        by_cases target : label = transition.target <;>
          simp only [Location.link, source, target, if_true, if_false, Option.map_some] <;>
            split <;> rfl

theorem outOf_register (registered : model.IsRegistered transition.source) :
    (model.register transition).outOf label =
      if label = transition.source then model.outOf label ++ [transition]
      else model.outOf label := by
  unfold outOf
  rw [getLocation_register]
  by_cases source : label = transition.source
  · obtain ⟨location, found⟩ := (model.isRegistered_iff _).mp registered
    by_cases target : label = transition.target <;>
      simp_all [Location.link, Location.addOutTransition, Location.addInTransition]
  · cases model.getLocation label with
    | none => simp [source]
    | some location =>
        by_cases target : label = transition.target
        · rw [target] at source ⊢
          simp [Location.link, source, Location.addInTransition]
        · simp [Location.link, source, target]

theorem isRegistered_register :
    (model.register transition).IsRegistered label ↔ model.IsRegistered label := by
  rw [isRegistered_iff, isRegistered_iff, getLocation_register]
  simp

theorem register_transitions :
    (model.register transition).transitions =
      model.transitions.insert transition.key transition := by
  simp [register]

@[simp] theorem register_alphabet :
    (model.register transition).toAlphabet = model.toAlphabet := by
  simp [register]

@[simp] theorem register_clocks :
    (model.register transition).clocks = model.clocks := by
  simp [register]

@[simp] theorem register_dataNames :
    (model.register transition).dataNames = model.dataNames := by
  rw [register, ← updateLocation_dataNames model transition.source
    (Location.addOutTransition transition)]
  exact updateLocation_dataNames _ _ _

@[simp] theorem register_initialLocation :
    (model.register transition).initialLocation = model.initialLocation := by
  simp [register]

theorem link_label (location : Location) :
    (Location.link transition label location).label = location.label := by
  unfold Location.link
  split <;> split <;> rfl

theorem link_isInitialLocation (location : Location) :
    (Location.link transition label location).isInitialLocation =
      location.isInitialLocation := by
  unfold Location.link
  split <;> split <;> rfl

end Register

/-- Every location stands under its own label and none is the initial one. -/
def Unflagged (model : TIOSTS) : Prop :=
  ∀ label location, model.getLocation label = some location →
    location.label = label ∧ location.isInitialLocation = false

theorem Unflagged.addLocation {model : TIOSTS} (unflagged : model.Unflagged)
    (added : String) : (model.addLocation (Location.new added false)).Unflagged := by
  intro label location found
  rw [getLocation_addLocation] at found
  split at found
  · rename_i same
    cases before : model.getLocation label with
    | none =>
        rw [before] at found
        rw [← Option.some.inj found, same]
        exact ⟨rfl, rfl⟩
    | some registered =>
        rw [before] at found
        rw [← Option.some.inj found]
        exact unflagged label registered before
  · exact unflagged label location found

theorem Unflagged.register {model : TIOSTS} (unflagged : model.Unflagged)
    (transition : Transition) : (model.register transition).Unflagged := by
  intro label location found
  rw [getLocation_register] at found
  obtain ⟨before, beforeFound, rfl⟩ := Option.map_eq_some_iff.mp found
  rw [link_label, link_isInitialLocation]
  exact unflagged label before beforeFound

section CreateTransition

variable {model : TIOSTS} {source target : String} {dataGuard : DataGuard}
  {clockGuard : ClockGuard} {action : Action}
  {dataAssignments clockAssignments : Option String} {deadline : Deadline}

theorem createTransition_eq {sourceLocation targetLocation : Location}
    (sourceFound : model.getLocation source = some sourceLocation)
    (targetFound : model.getLocation target = some targetLocation) :
    model.createTransition source dataGuard clockGuard action dataAssignments
        clockAssignments deadline target =
      .ok ((model.setInitialCondition
        (if sourceLocation.isInitialLocation then some dataGuard
          else model.initialCondition)).register
        ⟨sourceLocation.label, dataGuard, clockGuard, action, dataAssignments,
          clockAssignments, deadline, targetLocation.label⟩) := by
  simp only [createTransition, sourceFound, targetFound, deref_some]
  rfl

/-- What creating a transition between registered locations does. -/
structure Extends (model : TIOSTS) (transition : Transition) (next : TIOSTS) : Prop where
  getLocation : ∀ label, next.getLocation label =
    (model.getLocation label).map (Location.link transition label)
  outOf : ∀ label, next.outOf label =
    if label = transition.source then model.outOf label ++ [transition]
    else model.outOf label
  isRegistered : ∀ label, next.IsRegistered label ↔ model.IsRegistered label
  alphabet : next.toAlphabet = model.toAlphabet
  clocks : next.clocks = model.clocks
  initialLocation : next.initialLocation = model.initialLocation

theorem createTransition_registered
    (labels : ∀ {label location}, model.getLocation label = some location →
      location.label = label)
    (sourceRegistered : model.IsRegistered source)
    (targetRegistered : model.IsRegistered target) :
    ∃ condition, model.createTransition source dataGuard clockGuard action dataAssignments
        clockAssignments deadline target =
      .ok ((model.setInitialCondition condition).register
        ⟨source, dataGuard, clockGuard, action, dataAssignments, clockAssignments,
          deadline, target⟩) := by
  obtain ⟨sourceLocation, sourceFound⟩ := (model.isRegistered_iff _).mp sourceRegistered
  obtain ⟨targetLocation, targetFound⟩ := (model.isRegistered_iff _).mp targetRegistered
  refine ⟨if sourceLocation.isInitialLocation then some dataGuard
    else model.initialCondition, ?_⟩
  rw [createTransition_eq sourceFound targetFound, labels sourceFound, labels targetFound]

/-- Creating a transition between registered locations that are not initial is
registering it. -/
theorem createTransition_unflagged (unflagged : model.Unflagged)
    (sourceRegistered : model.IsRegistered source)
    (targetRegistered : model.IsRegistered target) :
    model.createTransition source dataGuard clockGuard action dataAssignments
        clockAssignments deadline target =
      .ok (model.register
        ⟨source, dataGuard, clockGuard, action, dataAssignments, clockAssignments,
          deadline, target⟩) := by
  obtain ⟨sourceLocation, sourceFound⟩ := (model.isRegistered_iff _).mp sourceRegistered
  obtain ⟨targetLocation, targetFound⟩ := (model.isRegistered_iff _).mp targetRegistered
  obtain ⟨sourceLabel, notInitial⟩ := unflagged _ _ sourceFound
  obtain ⟨targetLabel, _⟩ := unflagged _ _ targetFound
  rw [createTransition_eq sourceFound targetFound, sourceLabel, targetLabel, notInitial]
  rfl

end CreateTransition

section SetInitialLocation

variable (model : TIOSTS) (initial label : String)

theorem getLocation_setInitialLocation :
    (model.setInitialLocation initial).getLocation label =
      if label = initial then
        (model.getLocation label).map (Location.setIsInitialLocation true)
      else model.getLocation label :=
  getLocation_updateLocation model label initial _

theorem outOf_setInitialLocation :
    (model.setInitialLocation initial).outOf label = model.outOf label := by
  unfold outOf
  rw [getLocation_setInitialLocation]
  split
  · cases model.getLocation label <;> rfl
  · rfl

theorem isRegistered_setInitialLocation :
    (model.setInitialLocation initial).IsRegistered label ↔ model.IsRegistered label := by
  rw [isRegistered_iff, isRegistered_iff, getLocation_setInitialLocation]
  split <;> simp

theorem isRegistered_setInitialCondition (condition : Option DataGuard) :
    (model.setInitialCondition condition).IsRegistered label ↔ model.IsRegistered label :=
  Iff.rfl

theorem setInitialLocation_alphabet :
    (model.setInitialLocation initial).toAlphabet = model.toAlphabet :=
  updateLocation_alphabet model initial _

end SetInitialLocation

namespace WellFormed

variable {model : TIOSTS}

theorem setInitialCondition (wellFormed : model.WellFormed)
    (condition : Option DataGuard) : (model.setInitialCondition condition).WellFormed where
  label_eq := wellFormed.label_eq
  source_eq := wellFormed.source_eq
  target_registered := wellFormed.target_registered
  action_declared := wellFormed.action_declared
  initial_registered := wellFormed.initial_registered
  stored := wellFormed.stored

theorem addLocation (wellFormed : model.WellFormed) (added : String)
    (isInitialLocation : Bool) :
    (model.addLocation (Location.new added isInitialLocation)).WellFormed where
  label_eq := by
    intro label location found
    rw [getLocation_addLocation] at found
    split at found
    · rename_i same
      cases before : model.getLocation label with
      | none =>
          rw [before] at found
          rw [← Option.some.inj found, same]
          rfl
      | some registered =>
          rw [before] at found
          rw [← Option.some.inj found]
          exact wellFormed.label_eq before
    · exact wellFormed.label_eq found
  source_eq := by
    intro label transition member
    rw [outOf_addLocation] at member
    exact wellFormed.source_eq member
  target_registered := by
    intro label transition member
    rw [outOf_addLocation] at member
    exact (isRegistered_addLocation _ _ _).mpr
      (Or.inr (wellFormed.target_registered member))
  action_declared := by
    intro label transition member
    rw [outOf_addLocation] at member
    rw [getAction, addLocation_alphabet]
    exact wellFormed.action_declared member
  initial_registered := by
    intro label initial
    rw [addLocation_initialLocation] at initial
    obtain ⟨location, found, flagged⟩ := wellFormed.initial_registered initial
    refine ⟨location, ?_, flagged⟩
    rw [getLocation_addLocation, found]
    split <;> rfl
  stored := by
    intro key transition found
    rw [addLocation_transitions] at found
    rw [outOf_addLocation]
    exact wellFormed.stored found

theorem register (wellFormed : model.WellFormed) {transition : Transition}
    (sourceRegistered : model.IsRegistered transition.source)
    (targetRegistered : model.IsRegistered transition.target)
    (declared : ∃ action, model.getAction transition.action.type transition.action.name =
      some action) :
    (model.register transition).WellFormed where
  label_eq := by
    intro label location found
    rw [getLocation_register] at found
    obtain ⟨before, beforeFound, rfl⟩ := Option.map_eq_some_iff.mp found
    rw [link_label]
    exact wellFormed.label_eq beforeFound
  source_eq := by
    intro label other member
    rw [outOf_register _ _ _ sourceRegistered] at member
    split at member
    · rcases List.mem_append.mp member with old | added
      · exact wellFormed.source_eq old
      · rename_i same
        rw [List.mem_singleton.mp added, same]
    · exact wellFormed.source_eq member
  target_registered := by
    intro label other member
    rw [isRegistered_register]
    rw [outOf_register _ _ _ sourceRegistered] at member
    split at member
    · rcases List.mem_append.mp member with old | added
      · exact wellFormed.target_registered old
      · rwa [List.mem_singleton.mp added]
    · exact wellFormed.target_registered member
  action_declared := by
    intro label other member
    rw [getAction, register_alphabet]
    rw [outOf_register _ _ _ sourceRegistered] at member
    split at member
    · rcases List.mem_append.mp member with old | added
      · exact wellFormed.action_declared old
      · rwa [List.mem_singleton.mp added]
    · exact wellFormed.action_declared member
  initial_registered := by
    intro label initial
    rw [register_initialLocation] at initial
    obtain ⟨location, found, flagged⟩ := wellFormed.initial_registered initial
    exact ⟨Location.link transition label location,
      by rw [getLocation_register, found, Option.map_some],
      by rw [link_isInitialLocation, flagged]⟩
  stored := by
    intro key other found
    rw [register_transitions] at found
    rw [outOf_register _ _ _ sourceRegistered]
    by_cases same : key = transition.key
    · subst same
      rw [AList.lookup_insert] at found
      simp [← Option.some.inj found]
    · rw [AList.lookup_insert_ne same] at found
      obtain ⟨keyEq, member⟩ := wellFormed.stored found
      refine ⟨keyEq, ?_⟩
      split
      · exact List.mem_append_left _ member
      · exact member

/-- Creating a transition with a declared action between registered locations returns a
well-formed model. -/
theorem createTransition (wellFormed : model.WellFormed) (transition : Transition)
    (sourceRegistered : model.IsRegistered transition.source)
    (targetRegistered : model.IsRegistered transition.target)
    (declared : ∃ other, model.getAction transition.action.type transition.action.name =
      some other) :
    ∃ next, model.createTransition transition.source transition.dataGuard
        transition.clockGuard transition.action transition.dataAssignments
        transition.clockAssignments transition.deadline transition.target = .ok next ∧
      next.WellFormed ∧ model.Extends transition next := by
  obtain ⟨condition, created⟩ := createTransition_registered wellFormed.label_eq
    sourceRegistered targetRegistered
  refine ⟨_, created, ?_, ?_⟩
  · exact (wellFormed.setInitialCondition condition).register sourceRegistered
      targetRegistered declared
  · constructor
    · exact fun label => getLocation_register _ label _
    · exact fun label => outOf_register _ label _ sourceRegistered
    · exact fun label => isRegistered_register _ label _
    · exact register_alphabet _ _
    · exact register_clocks _ _
    · exact register_initialLocation _ _

theorem createTransitionFromText (wellFormed : model.WellFormed) (transition : Transition)
    (sourceRegistered : model.IsRegistered transition.source)
    (targetRegistered : model.IsRegistered transition.target)
    (declared : ∃ other, model.getAction transition.action.type transition.action.name =
      some other) :
    ∃ next, model.createTransitionFromText transition.source transition.dataGuard
        transition.clockGuard.toString transition.action transition.dataAssignments
        transition.clockAssignments transition.deadline transition.target = .ok next ∧
      next.WellFormed ∧
      model.Extends
        { transition with clockGuard := transition.clockGuard.renumber model.clocks } next := by
  obtain ⟨next, created, nextWellFormed, grown⟩ := wellFormed.createTransition
    { transition with clockGuard := transition.clockGuard.renumber model.clocks }
    sourceRegistered targetRegistered declared
  refine ⟨next, ?_, nextWellFormed, grown⟩
  rw [TIOSTS.createTransitionFromText, ClockGuard.ofString_toString, deref_some, ok_bind]
  exact created

theorem setInitialLocation (wellFormed : model.WellFormed) {initial : String}
    (registered : model.IsRegistered initial) :
    (model.setInitialLocation initial).WellFormed := by
  constructor
  · intro label location found
    rw [getLocation_setInitialLocation] at found
    split at found
    · obtain ⟨before, beforeFound, rfl⟩ := Option.map_eq_some_iff.mp found
      have beforeLabel := wellFormed.label_eq beforeFound
      exact beforeLabel
    · exact wellFormed.label_eq found
  · intro label transition member
    rw [outOf_setInitialLocation] at member
    exact wellFormed.source_eq member
  · intro label transition member
    rw [outOf_setInitialLocation] at member
    rw [isRegistered_setInitialLocation]
    exact wellFormed.target_registered member
  · intro label transition member
    rw [outOf_setInitialLocation] at member
    rw [getAction, setInitialLocation_alphabet]
    exact wellFormed.action_declared member
  · intro label isInitial
    have same : initial = label := Option.some.inj isInitial
    subst same
    obtain ⟨location, found⟩ := (isRegistered_iff _ _).mp registered
    exact ⟨location.setIsInitialLocation true, by simp [getLocation_setInitialLocation, found], rfl⟩
  · intro key transition found
    have before : model.transitions.lookup key = some transition := by
      simpa [TIOSTS.setInitialLocation] using found
    rw [outOf_setInitialLocation]
    exact wellFormed.stored before

end WellFormed

end TIOSTS

end Symbolrt
