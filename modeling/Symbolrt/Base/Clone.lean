import Symbolrt.Base.WellFormed
import Symbolrt.Lib.Loops

/-!
# Copying a model

A copy is made of the declarations, the locations and the transitions in the map,
in whatever order the maps hand them out.  Clock guards are printed and read back,
and every action is replaced by the copy's action of the same name.
-/

namespace Symbolrt

namespace TIOSTS

/-- The values of the map of locations, in the order of the hash map. -/
def getLocations (order : IterationOrder) (model : TIOSTS) : List Location :=
  (order.arrange model.locations.keys).filterMap (fun label => model.locations.lookup label)

/-- The values of the map of transitions, in the order of the hash map. -/
def getTransitions (order : IterationOrder) (model : TIOSTS) : List Transition :=
  (order.arrange model.transitions.keys).filterMap (fun key => model.transitions.lookup key)

/-- The element of the copied list at the position of the action. -/
def recoverAction (model : TIOSTS) (action : Action) : Except Failure Action :=
  match (model.actionsOf action.type).find? (fun other => action.equals other) with
  | none => .error .indexOutOfBounds
  | some other => .ok other

/-- Adds a bare location of the same label and flag. -/
def cloneLocation (clone : TIOSTS) (location : Location) : TIOSTS :=
  let clone := clone.addLocation (Location.new location.label location.isInitialLocation)
  if location.isInitialLocation then clone.setInitialLocation location.label else clone

/-- Creates a transition whose guard is read from its text and whose action is
looked up. -/
def cloneTransition (clone : TIOSTS) (transition : Transition) : Except Failure TIOSTS := do
  let newAction ← clone.recoverAction transition.action
  clone.createTransitionFromText transition.source transition.dataGuard
    transition.clockGuard.toString newAction transition.dataAssignments
    transition.clockAssignments transition.deadline transition.target

/-- The declarations of a model, before its locations are copied. -/
def cloneDeclarations (model : TIOSTS) : TIOSTS :=
  let clone := (TIOSTS.new model.name).setInitialCondition model.initialCondition
  let clone := model.modelVariables.foldl (fun clone data => clone.addVariable data) clone
  let clone := model.actionParameters.foldl (fun clone data => clone.addActionParameter data) clone
  let clone := model.clocks.foldl (fun clone clock => clone.addClock clock) clone
  let clone := model.inputActions.foldl (fun clone action => clone.addAction action) clone
  let clone := model.outputActions.foldl (fun clone action => clone.addAction action) clone
  model.internalActions.foldl (fun clone action => clone.addAction action) clone

/-- The copy: declarations first, then the locations, then the transitions of the map. -/
def clone (order : IterationOrder) (model : TIOSTS) : Except Failure TIOSTS :=
  let declared := (model.getLocations order).foldl cloneLocation model.cloneDeclarations
  (model.getTransitions order).foldlM cloneTransition declared

/-- What a copied transition keeps: everything but the numbers of its clocks and the
parameters of its action. -/
structure CopiedFrom (clocks : List String) (original copied : Transition) : Prop where
  source : copied.source = original.source
  dataGuard : copied.dataGuard = original.dataGuard
  clockGuard : copied.clockGuard = original.clockGuard.renumber clocks
  actionName : copied.action.name = original.action.name
  actionType : copied.action.type = original.action.type
  dataAssignments : copied.dataAssignments = original.dataAssignments
  clockAssignments : copied.clockAssignments = original.clockAssignments
  deadline : copied.deadline = original.deadline
  target : copied.target = original.target

/-- What is known about the copy of a well-formed model.  Of several transitions with
one key only the last is copied, so the copy may have fewer transitions. -/
structure IsCopy (model copy : TIOSTS) : Prop where
  wellFormed : copy.WellFormed
  actionsOf : ∀ type, copy.actionsOf type = model.actionsOf type
  clocks : copy.clocks = model.clocks
  isRegistered : ∀ label, copy.IsRegistered label ↔ model.IsRegistered label
  isInitialLocation : ∀ label location, copy.getLocation label = some location →
    ∃ original, model.getLocation label = some original ∧
      location.isInitialLocation = original.isInitialLocation
  transitions : ∀ label, ∀ transition ∈ copy.outOf label, ∃ original ∈ model.outOf label,
    CopiedFrom model.clocks original transition

section Members

variable (order : IterationOrder) (model : TIOSTS)

theorem mem_getLocations {location : Location} :
    location ∈ model.getLocations order ↔
      ∃ label, model.getLocation label = some location := by
  simp only [getLocations, List.mem_filterMap, (order.arrange_perm _).mem_iff]
  constructor
  · rintro ⟨label, _, found⟩
    exact ⟨label, found⟩
  · rintro ⟨label, found⟩
    exact ⟨label, AList.mem_keys.mp (AList.lookup_isSome.mp (by
      rw [getLocation] at found
      simp [found])), found⟩

theorem mem_getTransitions {transition : Transition} :
    transition ∈ model.getTransitions order ↔
      ∃ key, model.transitions.lookup key = some transition := by
  simp only [getTransitions, List.mem_filterMap, (order.arrange_perm _).mem_iff]
  constructor
  · rintro ⟨key, _, found⟩
    exact ⟨key, found⟩
  · rintro ⟨key, found⟩
    exact ⟨key, AList.mem_keys.mp (AList.lookup_isSome.mp (by simp [found])), found⟩

end Members

section Declarations

variable (model : TIOSTS)

theorem cloneDeclarations_isBlank : model.cloneDeclarations.IsBlank := by
  simp only [cloneDeclarations, foldl_addVariable, foldl_addActionParameter, foldl_addClock,
    foldl_addAction]
  exact ⟨rfl, rfl, rfl⟩

theorem cloneDeclarations_clocks : model.cloneDeclarations.clocks = model.clocks := by
  simp [cloneDeclarations, foldl_addVariable, foldl_addActionParameter, foldl_addClock,
    foldl_addAction, TIOSTS.new, TIOSTS.setInitialCondition]

theorem cloneDeclarations_actionsOf (type : ActionType) :
    model.cloneDeclarations.actionsOf type = model.actionsOf type := by
  simp only [cloneDeclarations, foldl_addVariable, foldl_addActionParameter, foldl_addClock,
    foldl_addAction]
  exact Alphabet.actionsOf_copy model.toAlphabet type

end Declarations

section Locations

variable {model : TIOSTS}

/-- The copy while its locations are added. -/
structure HasLocations (model : TIOSTS) (done : List Location) (clone : TIOSTS) : Prop where
  wellFormed : clone.WellFormed
  alphabet : clone.toAlphabet = model.cloneDeclarations.toAlphabet
  clocks : clone.clocks = model.clocks
  isRegistered : ∀ label, clone.IsRegistered label ↔ ∃ location ∈ done, location.label = label
  isInitialLocation : ∀ label location, clone.getLocation label = some location →
    ∃ original, model.getLocation label = some original ∧
      location.isInitialLocation = original.isInitialLocation
  outOf : ∀ label, clone.outOf label = []

theorem HasLocations.addLocation {done : List Location} {clone : TIOSTS}
    (has : HasLocations model done clone) {location : Location}
    (found : model.getLocation location.label = some location) :
    HasLocations model (done ++ [location])
      (clone.addLocation (Location.new location.label location.isInitialLocation)) where
  wellFormed := has.wellFormed.addLocation _ _
  alphabet := by rw [addLocation_alphabet, has.alphabet]
  clocks := by rw [addLocation_clocks, has.clocks]
  isRegistered := by
    intro label
    rw [isRegistered_addLocation, has.isRegistered]
    simp only [Location.new, List.mem_append, List.mem_singleton]
    constructor
    · rintro (rfl | ⟨other, member, same⟩)
      · exact ⟨location, Or.inr rfl, rfl⟩
      · exact ⟨other, Or.inl member, same⟩
    · rintro ⟨other, member | rfl, same⟩
      · exact Or.inr ⟨other, member, same⟩
      · exact Or.inl same.symm
  isInitialLocation := by
    intro label copied copiedFound
    rw [getLocation_addLocation] at copiedFound
    split at copiedFound
    · rename_i same
      cases before : clone.getLocation label with
      | none =>
          rw [before] at copiedFound
          refine ⟨location, by rw [same]; exact found, ?_⟩
          rw [← Option.some.inj copiedFound]
          rfl
      | some registered =>
          rw [before] at copiedFound
          rw [← Option.some.inj copiedFound]
          exact has.isInitialLocation label registered before
    · exact has.isInitialLocation label copied copiedFound
  outOf := by
    intro label
    rw [outOf_addLocation, has.outOf]

theorem HasLocations.setInitialLocation {done : List Location} {clone : TIOSTS}
    (has : HasLocations model done clone) {location : Location}
    (found : model.getLocation location.label = some location)
    (flagged : location.isInitialLocation = true)
    (registered : clone.IsRegistered location.label) :
    HasLocations model done (clone.setInitialLocation location.label) where
  wellFormed := has.wellFormed.setInitialLocation registered
  alphabet := by rw [setInitialLocation_alphabet, has.alphabet]
  clocks := (updateLocation_clocks _ _ _).trans has.clocks
  isRegistered := by
    intro label
    rw [isRegistered_setInitialLocation, has.isRegistered]
  isInitialLocation := by
    intro label copied copiedFound
    rw [getLocation_setInitialLocation] at copiedFound
    split at copiedFound
    · rename_i same
      obtain ⟨before, _, rfl⟩ := Option.map_eq_some_iff.mp copiedFound
      exact ⟨location, by rw [same]; exact found, by rw [flagged]; rfl⟩
    · exact has.isInitialLocation label copied copiedFound
  outOf := by
    intro label
    rw [outOf_setInitialLocation, has.outOf]

theorem foldl_cloneLocation {locations done : List Location} {clone : TIOSTS}
    (found : ∀ location ∈ locations, model.getLocation location.label = some location)
    (has : HasLocations model done clone) :
    HasLocations model (done ++ locations) (locations.foldl cloneLocation clone) := by
  induction locations generalizing done clone with
  | nil => simpa using has
  | cons location locations induction =>
      have here := found location (by simp)
      have added := has.addLocation here
      have stepped : HasLocations model (done ++ [location]) (cloneLocation clone location) := by
        unfold cloneLocation
        by_cases flagged : location.isInitialLocation = true
        · rw [if_pos flagged]
          apply added.setInitialLocation here flagged
          rw [added.isRegistered]
          exact ⟨location, by simp, rfl⟩
        · rw [if_neg flagged]
          exact added
      have later := induction (fun other member => found other (by simp [member])) stepped
      simpa using later

end Locations

section Transitions

variable {model : TIOSTS}

/-- The copy while its transitions are added. -/
structure HasTransitions (model clone : TIOSTS) : Prop where
  wellFormed : clone.WellFormed
  alphabet : clone.toAlphabet = model.cloneDeclarations.toAlphabet
  clocks : clone.clocks = model.clocks
  isRegistered : ∀ label, clone.IsRegistered label ↔ model.IsRegistered label
  isInitialLocation : ∀ label location, clone.getLocation label = some location →
    ∃ original, model.getLocation label = some original ∧
      location.isInitialLocation = original.isInitialLocation
  transitions : ∀ label, ∀ transition ∈ clone.outOf label, ∃ original ∈ model.outOf label,
    CopiedFrom model.clocks original transition

theorem recoverAction_ok {clone : TIOSTS} {action declared : Action}
    (found : clone.getAction action.type action.name = some declared) :
    ∃ recovered, clone.recoverAction action = .ok recovered ∧
      recovered.name = action.name ∧ recovered.type = action.type ∧
      clone.getAction recovered.type recovered.name = some declared := by
  obtain ⟨member, _, name⟩ := getAction_eq_some found
  unfold recoverAction
  cases search : (clone.actionsOf action.type).find? (fun other => action.equals other) with
  | none =>
      have missing := List.find?_eq_none.mp search declared member
      simp [Action.equals, name] at missing
  | some recovered =>
      have type := clone.actionsOf_type _ _ (List.mem_of_find?_eq_some search)
      have same : action.name = recovered.name := by
        simpa [Action.equals] using List.find?_some search
      exact ⟨recovered, rfl, same.symm, type, by rw [type, ← same]; exact found⟩

theorem HasTransitions.cloneTransition {clone : TIOSTS} (has : HasTransitions model clone)
    (wellFormed : model.WellFormed) {transition : Transition}
    (member : transition ∈ model.outOf transition.source) :
    ∃ next, clone.cloneTransition transition = .ok next ∧ HasTransitions model next := by
  obtain ⟨declared, found⟩ := wellFormed.action_declared member
  have foundInClone : clone.getAction transition.action.type transition.action.name =
      some declared := by
    unfold getAction
    rw [actionsOf_eq_of_alphabet has.alphabet, cloneDeclarations_actionsOf]
    exact found
  obtain ⟨recovered, recoveredEq, name, type, recoveredFound⟩ :=
    recoverAction_ok foundInClone
  have sourceRegistered : clone.IsRegistered transition.source :=
    (has.isRegistered _).mpr (isRegistered_of_mem_outOf member)
  have targetRegistered : clone.IsRegistered transition.target :=
    (has.isRegistered _).mpr (wellFormed.target_registered member)
  obtain ⟨next, created, nextWellFormed, grown⟩ :=
    has.wellFormed.createTransitionFromText { transition with action := recovered }
      sourceRegistered targetRegistered ⟨declared, recoveredFound⟩
  refine ⟨next, ?_, ?_⟩
  · rw [TIOSTS.cloneTransition, recoveredEq, ok_bind]
    exact created
  · constructor
    · exact nextWellFormed
    · rw [grown.alphabet, has.alphabet]
    · rw [grown.clocks, has.clocks]
    · intro label
      rw [grown.isRegistered, has.isRegistered]
    · intro label location locationFound
      rw [grown.getLocation] at locationFound
      obtain ⟨before, beforeFound, rfl⟩ := Option.map_eq_some_iff.mp locationFound
      rw [link_isInitialLocation]
      exact has.isInitialLocation label before beforeFound
    · intro label copied copiedMember
      rw [grown.outOf] at copiedMember
      split at copiedMember
      · rename_i same
        rcases List.mem_append.mp copiedMember with old | added
        · exact has.transitions label copied old
        · refine ⟨transition, by rw [same]; exact member, ?_⟩
          rw [List.mem_singleton.mp added]
          exact ⟨rfl, rfl, by rw [has.clocks], name, type, rfl, rfl, rfl, rfl⟩
      · exact has.transitions label copied copiedMember

end Transitions

/-- Copying a well-formed model succeeds. -/
theorem clone_isCopy (order : IterationOrder) {model : TIOSTS}
    (wellFormed : model.WellFormed) :
    ∃ copy, model.clone order = .ok copy ∧ IsCopy model copy := by
  have blank := model.cloneDeclarations_isBlank
  have declared : HasLocations model [] model.cloneDeclarations := by
    constructor
    · exact blank.wellFormed
    · rfl
    · exact model.cloneDeclarations_clocks
    · intro label
      simp [blank.unregistered label]
    · intro label location found
      simp [getLocation, blank.locations] at found
    · intro label
      simp [outOf, getLocation, blank.locations]
  have eachFound : ∀ location ∈ model.getLocations order,
      model.getLocation location.label = some location := by
    intro location member
    obtain ⟨label, found⟩ := (mem_getLocations order model).mp member
    rw [wellFormed.label_eq found]
    exact found
  have located := foldl_cloneLocation eachFound declared
  have start : HasTransitions model
      ((model.getLocations order).foldl cloneLocation model.cloneDeclarations) := by
    constructor
    · exact located.wellFormed
    · exact located.alphabet
    · exact located.clocks
    · intro label
      rw [located.isRegistered, List.nil_append, isRegistered_iff]
      constructor
      · rintro ⟨location, member, rfl⟩
        obtain ⟨label, found⟩ := (mem_getLocations order model).mp member
        exact ⟨location, by rw [wellFormed.label_eq found]; exact found⟩
      · rintro ⟨location, found⟩
        exact ⟨location, (mem_getLocations order model).mpr ⟨label, found⟩,
          wellFormed.label_eq found⟩
    · exact located.isInitialLocation
    · intro label transition member
      rw [located.outOf] at member
      cases member
  have body : ∀ done transition rest clone,
      model.getTransitions order = done ++ transition :: rest →
      HasTransitions model clone →
      ∃ next, clone.cloneTransition transition = .ok next ∧ HasTransitions model next := by
    intro done transition rest clone whole has
    have member : transition ∈ model.getTransitions order := by simp [whole]
    obtain ⟨key, found⟩ := (mem_getTransitions order model).mp member
    exact has.cloneTransition wellFormed (wellFormed.stored found).2
  obtain ⟨copy, returned, has⟩ :=
    Loops.foldlM_returns (fun _ clone => HasTransitions model clone) start body
  refine ⟨copy, returned, ?_⟩
  constructor
  · exact has.wellFormed
  · intro type
    rw [actionsOf_eq_of_alphabet has.alphabet, cloneDeclarations_actionsOf]
  · exact has.clocks
  · exact has.isRegistered
  · exact has.isInitialLocation
  · exact has.transitions

end TIOSTS

end Symbolrt
