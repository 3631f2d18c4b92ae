import Symbolrt.Base.WellFormed

/-!
# Creating many transitions

Creating a list of transitions succeeds exactly if all of them lead from and to
registered locations, and then the model holds what it held before and the created
transitions, in the order of their creation.
-/

namespace Symbolrt

namespace TIOSTS

/-- The incoming transitions of a registered location. -/
def inOf (model : TIOSTS) (label : String) : List Transition :=
  ((model.getLocation label).map Location.inTransitions).getD []

/-- A registered location that is marked as the initial one. -/
def isInitial (model : TIOSTS) (label : String) : Bool :=
  (model.getLocation label).any Location.isInitialLocation

/-- `createTransition` for a transition given as a whole. -/
def create (model : TIOSTS) (transition : Transition) : Except Failure TIOSTS :=
  model.createTransition transition.source transition.dataGuard transition.clockGuard
    transition.action transition.dataAssignments transition.clockAssignments
    transition.deadline transition.target

/-- What `create` does between registered locations. -/
def extend (model : TIOSTS) (transition : Transition) : TIOSTS :=
  (model.setInitialCondition (if model.isInitial transition.source then
    some transition.dataGuard else model.initialCondition)).register transition

/-- Every location stands under its own label. -/
def Labelled (model : TIOSTS) : Prop :=
  ∀ {label location}, model.getLocation label = some location → location.label = label

section One

variable {model : TIOSTS} {transition : Transition}

theorem create_eq (labelled : model.Labelled)
    (sourceRegistered : model.IsRegistered transition.source)
    (targetRegistered : model.IsRegistered transition.target) :
    model.create transition = .ok (model.extend transition) := by
  obtain ⟨source, sourceFound⟩ := (model.isRegistered_iff _).mp sourceRegistered
  obtain ⟨target, targetFound⟩ := (model.isRegistered_iff _).mp targetRegistered
  have flag : model.isInitial transition.source = source.isInitialLocation := by
    rw [isInitial, sourceFound]
    rfl
  rw [create, createTransition_eq sourceFound targetFound, labelled sourceFound,
    labelled targetFound, extend, flag]

theorem create_error
    (unregistered : ¬ (model.IsRegistered transition.source ∧
      model.IsRegistered transition.target)) :
    model.create transition = .error .nullPointer := by
  unfold create createTransition
  cases sourceFound : model.getLocation transition.source with
  | none => rfl
  | some source =>
      cases targetFound : model.getLocation transition.target with
      | none => rfl
      | some target =>
          apply absurd _ unregistered
          constructor
          · exact (model.isRegistered_iff _).mpr ⟨source, sourceFound⟩
          · exact (model.isRegistered_iff _).mpr ⟨target, targetFound⟩

theorem updateLocation_eq (model : TIOSTS) (label : String) (change : Location → Location) :
    model.updateLocation label change =
      { model with locations := (model.updateLocation label change).locations } := by
  unfold updateLocation
  split <;> rfl

theorem addLocation_eq (model : TIOSTS) (location : Location) :
    model.addLocation location =
      { model with locations := (model.addLocation location).locations } := by
  unfold addLocation
  split <;> rfl

theorem setInitialLocation_eq (model : TIOSTS) (label : String) :
    model.setInitialLocation label =
      { model with
        locations := (model.setInitialLocation label).locations
        initialLocation := some label } := by
  rw [setInitialLocation, updateLocation_eq]

theorem register_eq (model : TIOSTS) (transition : Transition) :
    model.register transition =
      { model with
        locations := (model.register transition).locations
        transitions := (model.register transition).transitions } := by
  unfold register
  rw [updateLocation_eq model, updateLocation_eq]

theorem inOf_register (registered : model.IsRegistered transition.target) (label : String) :
    (model.register transition).inOf label =
      model.inOf label ++ [transition].filter (fun other => label = other.target) := by
  unfold inOf
  rw [getLocation_register]
  by_cases isTarget : label = transition.target
  · subst isTarget
    obtain ⟨location, found⟩ := (model.isRegistered_iff _).mp registered
    rw [found]
    by_cases isSource : transition.target = transition.source
    · simp [Location.link, isSource, Location.addInTransition, Location.addOutTransition]
    · simp [Location.link, isSource, Location.addInTransition]
  · cases model.getLocation label with
    | none => simp [isTarget]
    | some location =>
        by_cases isSource : label = transition.source
        · rw [isSource] at isTarget
          simp [Location.link, isTarget, isSource, Location.addOutTransition]
        · simp [Location.link, isTarget, isSource]

theorem inOf_addLocation (label added : String) (isInitialLocation : Bool) :
    (model.addLocation (Location.new added isInitialLocation)).inOf label =
      model.inOf label := by
  unfold inOf
  rw [getLocation_addLocation]
  split
  · cases model.getLocation label <;> rfl
  · rfl

theorem inOf_setInitialLocation (label initial : String) :
    (model.setInitialLocation initial).inOf label = model.inOf label := by
  unfold inOf
  rw [getLocation_setInitialLocation]
  split
  · cases model.getLocation label <;> rfl
  · rfl

theorem isInitial_register (label : String) :
    (model.register transition).isInitial label = model.isInitial label := by
  unfold isInitial
  rw [getLocation_register]
  cases model.getLocation label with
  | none => rfl
  | some location => exact link_isInitialLocation label transition location

end One

/-- The model holds what the base holds and the created transitions. -/
structure Grows (base : TIOSTS) (created : List Transition) (model : TIOSTS) : Prop where
  labelled : model.Labelled
  isRegistered : ∀ label, model.IsRegistered label ↔ base.IsRegistered label
  isInitial : ∀ label, model.isInitial label = base.isInitial label
  outOf : ∀ label, model.outOf label =
    base.outOf label ++ created.filter (fun transition => label = transition.source)
  inOf : ∀ label, model.inOf label =
    base.inOf label ++ created.filter (fun transition => label = transition.target)
  lookup : ∀ key, model.transitions.lookup key =
    ((created.filter (fun transition => key = transition.key)).getLast?).or
      (base.transitions.lookup key)
  initialCondition : model.initialCondition =
    (((created.filter (fun transition => base.isInitial transition.source)).getLast?).map
      Transition.dataGuard).or base.initialCondition
  stores : model = { base with
    locations := model.locations
    transitions := model.transitions
    initialCondition := model.initialCondition }

section Many

variable {base : TIOSTS}

theorem Grows.refl (labelled : base.Labelled) : Grows base [] base where
  labelled := labelled
  isRegistered := fun _ => Iff.rfl
  isInitial := fun _ => rfl
  outOf := by simp
  inOf := by simp
  lookup := by simp
  initialCondition := by simp
  stores := rfl

theorem Grows.extend {created : List Transition} {model : TIOSTS}
    (grows : Grows base created model) {transition : Transition}
    (sourceRegistered : base.IsRegistered transition.source)
    (targetRegistered : base.IsRegistered transition.target) :
    Grows base (created ++ [transition]) (model.extend transition) := by
  have source := (grows.isRegistered _).mpr sourceRegistered
  have target := (grows.isRegistered _).mpr targetRegistered
  constructor
  · intro label location found
    rw [TIOSTS.extend, getLocation_register] at found
    obtain ⟨before, beforeFound, rfl⟩ := Option.map_eq_some_iff.mp found
    rw [link_label]
    exact grows.labelled beforeFound
  · intro label
    rw [TIOSTS.extend, isRegistered_register, isRegistered_setInitialCondition]
    exact grows.isRegistered label
  · intro label
    rw [TIOSTS.extend, isInitial_register]
    exact grows.isInitial label
  · intro label
    have here : (model.extend transition).outOf label =
        if label = transition.source then model.outOf label ++ [transition]
        else model.outOf label := outOf_register _ label transition source
    rw [here, grows.outOf]
    by_cases same : label = transition.source <;> simp [same]
  · intro label
    have here : (model.extend transition).inOf label = model.inOf label ++
        [transition].filter (fun other => label = other.target) := by
      have conditioned : (model.setInitialCondition
          (if model.isInitial transition.source then some transition.dataGuard
            else model.initialCondition)).IsRegistered transition.target := target
      exact inOf_register conditioned label
    rw [here, grows.inOf, List.filter_append, List.append_assoc]
  · intro key
    rw [TIOSTS.extend, register_transitions]
    by_cases same : key = transition.key
    · subst same
      simp
    · rw [AList.lookup_insert_ne same, List.filter_append]
      have nothing : [transition].filter (fun other => key = other.key) = [] := by simp [same]
      rw [nothing, List.append_nil]
      exact grows.lookup key
  · have condition : (model.extend transition).initialCondition =
        if model.isInitial transition.source then some transition.dataGuard
        else model.initialCondition := by
      rw [TIOSTS.extend, register_eq]
      rfl
    rw [condition, grows.isInitial, List.filter_append]
    by_cases flagged : base.isInitial transition.source = true
    · simp [flagged]
    · simpa [flagged] using grows.initialCondition
  · have stores := grows.stores
    rw [TIOSTS.extend, register_eq]
    simp only [setInitialCondition]
    rw [stores]

/-- Creating transitions between registered locations. -/
theorem createAll_ok (labelled : base.Labelled) {created : List Transition}
    (registered : ∀ transition ∈ created,
      base.IsRegistered transition.source ∧ base.IsRegistered transition.target) :
    ∃ model, created.foldlM create base = .ok model ∧ Grows base created model := by
  suffices general : ∀ (rest done : List Transition) (model : TIOSTS),
      created = done ++ rest → Grows base done model →
      ∃ final, rest.foldlM create model = .ok final ∧ Grows base created final from
    general created [] base rfl (Grows.refl labelled)
  intro rest
  induction rest with
  | nil =>
      intro done model whole grows
      refine ⟨model, rfl, ?_⟩
      rw [whole, List.append_nil]
      exact grows
  | cons transition rest induction =>
      intro done model whole grows
      obtain ⟨source, target⟩ := registered transition (by simp [whole])
      obtain ⟨final, returned, grown⟩ := induction (done ++ [transition])
        (model.extend transition) (by simp [whole]) (grows.extend source target)
      refine ⟨final, ?_, grown⟩
      rw [List.foldlM_cons, create_eq grows.labelled ((grows.isRegistered _).mpr source)
        ((grows.isRegistered _).mpr target)]
      exact returned

/-- A transition of an unregistered location among the created ones is fatal. -/
theorem createAll_error (labelled : base.Labelled) {created : List Transition}
    {transition : Transition} (member : transition ∈ created)
    (unregistered : ¬ (base.IsRegistered transition.source ∧
      base.IsRegistered transition.target)) :
    created.foldlM create base = .error .nullPointer := by
  suffices general : ∀ (rest done : List Transition) (model : TIOSTS), transition ∈ rest →
      Grows base done model → rest.foldlM create model = .error .nullPointer from
    general created [] base member (Grows.refl labelled)
  intro rest
  induction rest with
  | nil =>
      intro done model inRest
      cases inRest
  | cons first rest induction =>
      intro done model inRest grows
      rw [List.foldlM_cons]
      by_cases registered : base.IsRegistered first.source ∧ base.IsRegistered first.target
      · rw [create_eq grows.labelled ((grows.isRegistered _).mpr registered.1)
          ((grows.isRegistered _).mpr registered.2)]
        have later : transition ∈ rest := by
          rcases List.mem_cons.mp inRest with rfl | later
          · exact absurd registered unregistered
          · exact later
        exact induction (done ++ [first]) _ later (grows.extend registered.1 registered.2)
      · rw [create_error]
        · rfl
        · rw [grows.isRegistered, grows.isRegistered]
          exact registered

theorem createAll_returned (labelled : base.Labelled) {created : List Transition}
    {model : TIOSTS} (returned : created.foldlM create base = .ok model) :
    (∀ transition ∈ created,
      base.IsRegistered transition.source ∧ base.IsRegistered transition.target) ∧
      Grows base created model := by
  have registered : ∀ transition ∈ created,
      base.IsRegistered transition.source ∧ base.IsRegistered transition.target := by
    intro transition member
    by_contra unregistered
    rw [createAll_error labelled member unregistered] at returned
    cases returned
  refine ⟨registered, ?_⟩
  obtain ⟨final, same, grows⟩ := createAll_ok labelled registered
  rw [returned] at same
  rw [Except.ok.inj same]
  exact grows

end Many

end TIOSTS

end Symbolrt
