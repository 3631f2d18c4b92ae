import Symbolrt.Base.Clone
import Symbolrt.Base.Creation

/-!
# What a copy holds

The copy of a well-formed model holds, for every transition in the map of the model, its
copy, in the order in which the map hands the transitions out, and nothing else.
-/

namespace Symbolrt

namespace TIOSTS

/-- A transition as a copy of its model holds it. -/
def copied (model : TIOSTS) (transition : Transition) : Transition :=
  { transition with
    clockGuard := transition.clockGuard.renumber model.clocks
    action := (model.recoverAction transition.action).toOption.getD transition.action }

@[simp] theorem copied_source (model : TIOSTS) (transition : Transition) :
    (model.copied transition).source = transition.source := rfl

theorem recoverAction_eq_ok {model : TIOSTS} {action recovered : Action}
    (found : model.recoverAction action = .ok recovered) :
    recovered ∈ model.actionsOf action.type ∧ recovered.name = action.name ∧
      recovered.type = action.type := by
  unfold recoverAction at found
  cases search : (model.actionsOf action.type).find? (fun other => action.equals other) with
  | none =>
      rw [search] at found
      cases found
  | some other =>
      rw [search] at found
      obtain rfl := Except.ok.inj found
      have member := List.mem_of_find?_eq_some search
      have same : action.name = other.name := by
        simpa [Action.equals] using List.find?_some search
      exact ⟨member, same.symm, model.actionsOf_type _ _ member⟩

theorem recoverAction_eq_error {model : TIOSTS} {action : Action} {failure : Failure}
    (missing : model.recoverAction action = .error failure) :
    failure = .indexOutOfBounds := by
  unfold recoverAction at missing
  cases search : (model.actionsOf action.type).find? (fun other => action.equals other) with
  | none =>
      rw [search] at missing
      exact (Except.error.inj missing).symm
  | some other =>
      rw [search] at missing
      cases missing

theorem recoverAction_isOk {model : TIOSTS} {action : Action} :
    (∃ recovered, model.recoverAction action = .ok recovered) ↔
      ∃ declared ∈ model.actionsOf action.type, declared.name = action.name := by
  constructor
  · rintro ⟨recovered, found⟩
    obtain ⟨member, name, _⟩ := recoverAction_eq_ok found
    exact ⟨recovered, member, name⟩
  · rintro ⟨declared, member, name⟩
    unfold recoverAction
    cases search : (model.actionsOf action.type).find? (fun other => action.equals other) with
    | none =>
        have missing := List.find?_eq_none.mp search declared member
        simp [Action.equals, name] at missing
    | some other => exact ⟨other, rfl⟩

theorem copied_actionName (model : TIOSTS) (transition : Transition) :
    (model.copied transition).action.name = transition.action.name := by
  unfold copied
  cases found : model.recoverAction transition.action with
  | error failure => rfl
  | ok recovered => exact (recoverAction_eq_ok found).2.1

theorem copied_actionType (model : TIOSTS) (transition : Transition) :
    (model.copied transition).action.type = transition.action.type := by
  unfold copied
  cases found : model.recoverAction transition.action with
  | error failure => rfl
  | ok recovered => exact (recoverAction_eq_ok found).2.2

theorem copied_key (model : TIOSTS) (transition : Transition) :
    (model.copied transition).key = transition.key := by
  rw [Transition.key, copied_actionName, Transition.key]
  rfl

/-- The transitions of a copy, in the order of their creation. -/
def copiedTransitions (order : IterationOrder) (model : TIOSTS) : List Transition :=
  (model.getTransitions order).map model.copied

/-- A location without its transitions. -/
def bareLocation (location : Location) : Location :=
  Location.new location.label location.isInitialLocation

/-- What is known about the copy of a well-formed model. -/
structure IsExactCopy (order : IterationOrder) (model copy : TIOSTS) : Prop where
  wellFormed : copy.WellFormed
  isRegistered : ∀ label, copy.IsRegistered label ↔ model.IsRegistered label
  isInitial : ∀ label, copy.isInitial label = model.isInitial label
  outOf : ∀ label, copy.outOf label =
    (model.copiedTransitions order).filter (fun transition => label = transition.source)
  inOf : ∀ label, copy.inOf label =
    (model.copiedTransitions order).filter (fun transition => label = transition.target)
  lookup : ∀ key, copy.transitions.lookup key =
    (model.transitions.lookup key).map model.copied
  initialLocation : copy.initialLocation =
    (((model.getLocations order).filter Location.isInitialLocation).getLast?).map
      Location.label
  initialCondition : copy.initialCondition =
    ((((model.copiedTransitions order).filter
      (fun transition => model.isInitial transition.source)).getLast?).map
        Transition.dataGuard).or model.initialCondition
  actionsOf : ∀ type, copy.actionsOf type = model.actionsOf type
  name : copy.name = model.name
  modelVariables : copy.modelVariables = model.modelVariables
  actionParameters : copy.actionParameters = model.actionParameters
  clocks : copy.clocks = model.clocks

section Locations

variable {model : TIOSTS}

/-- The copy while its locations are added. -/
structure HasBareLocations (model : TIOSTS) (done : List Location) (clone : TIOSTS) :
    Prop where
  getLocation : ∀ label, clone.getLocation label =
    if label ∈ done.map Location.label then (model.getLocation label).map bareLocation
    else none
  initialLocation : clone.initialLocation =
    ((done.filter Location.isInitialLocation).getLast?).map Location.label
  stores : clone = { model.cloneDeclarations with
    locations := clone.locations, initialLocation := clone.initialLocation }

theorem HasBareLocations.cloneLocation {done : List Location} {clone : TIOSTS}
    (has : HasBareLocations model done clone) {location : Location}
    (found : model.getLocation location.label = some location) :
    HasBareLocations model (done ++ [location]) (cloneLocation clone location) := by
  have added : ∀ label, (clone.addLocation (bareLocation location)).getLocation label =
      if label ∈ (done ++ [location]).map Location.label then
        (model.getLocation label).map bareLocation
      else none := by
    intro label
    rw [getLocation_addLocation, has.getLocation]
    simp only [bareLocation, Location.new, List.map_append, List.map_cons, List.map_nil,
      List.mem_append, List.mem_singleton]
    by_cases same : label = location.label
    · subst same
      by_cases old : location.label ∈ done.map Location.label
      · simp [old, found]
      · simp [old, found, bareLocation, Location.new]
    · simp [same]
  have addedStores : clone.addLocation (bareLocation location) =
      { model.cloneDeclarations with
        locations := (clone.addLocation (bareLocation location)).locations
        initialLocation := clone.initialLocation } :=
    (addLocation_eq clone _).trans (congrArg (fun declared : TIOSTS => { declared with
      locations := (clone.addLocation (bareLocation location)).locations }) has.stores)
  unfold TIOSTS.cloneLocation
  by_cases flagged : location.isInitialLocation = true
  · simp only [if_pos flagged]
    constructor
    · intro label
      rw [getLocation_setInitialLocation]
      change (if _ then ((clone.addLocation (bareLocation location)).getLocation label).map _
        else (clone.addLocation (bareLocation location)).getLocation label) = _
      rw [added]
      split
      · rename_i same
        subst same
        simp [found, bareLocation, Location.new, Location.setIsInitialLocation, flagged]
      · rfl
    · rw [List.filter_append]
      simp [flagged, setInitialLocation]
    · have stores := setInitialLocation_eq (clone.addLocation (bareLocation location))
        location.label
      exact stores.trans (congrArg (fun declared : TIOSTS => { declared with
        locations := ((clone.addLocation (bareLocation location)).setInitialLocation
          location.label).locations
        initialLocation := some location.label }) addedStores)
  · simp only [if_neg flagged]
    constructor
    · exact added
    · rw [List.filter_append, addLocation_initialLocation, has.initialLocation]
      simp [flagged]
    · rw [addLocation_initialLocation]
      exact addedStores

theorem hasBareLocations {locations done : List Location} {clone : TIOSTS}
    (found : ∀ location ∈ locations, model.getLocation location.label = some location)
    (has : HasBareLocations model done clone) :
    HasBareLocations model (done ++ locations) (locations.foldl TIOSTS.cloneLocation clone) := by
  induction locations generalizing done clone with
  | nil => simpa using has
  | cons location locations induction =>
      have stepped := has.cloneLocation (found location List.mem_cons_self)
      have later := induction
        (fun other member => found other (List.mem_cons_of_mem _ member)) stepped
      simpa using later

end Locations

section Transitions

variable {order : IterationOrder} {model : TIOSTS}

theorem cloneTransition_eq {clone : TIOSTS}
    (alphabet : ∀ type, clone.actionsOf type = model.actionsOf type)
    (clocks : clone.clocks = model.clocks) {transition : Transition} {action : Action}
    (declared : model.getAction transition.action.type transition.action.name = some action) :
    clone.cloneTransition transition = clone.create (model.copied transition) := by
  have recovers : clone.recoverAction transition.action =
      model.recoverAction transition.action := by
    unfold recoverAction
    rw [alphabet]
  obtain ⟨recovered, found, _⟩ := recoverAction_ok declared
  rw [cloneTransition, recovers, found, ok_bind, createTransitionFromText,
    ClockGuard.ofString_toString, deref_some, ok_bind, create, copied, found, clocks]
  rfl

theorem foldlM_cloneTransition {clone : TIOSTS} (labelled : clone.Labelled)
    (alphabet : ∀ type, clone.actionsOf type = model.actionsOf type)
    (clocks : clone.clocks = model.clocks) {transitions : List Transition}
    (declared : ∀ transition ∈ transitions, ∃ action,
      model.getAction transition.action.type transition.action.name = some action)
    (registered : ∀ transition ∈ transitions,
      clone.IsRegistered transition.source ∧ clone.IsRegistered transition.target) :
    transitions.foldlM cloneTransition clone =
      (transitions.map model.copied).foldlM create clone := by
  induction transitions generalizing clone with
  | nil => rfl
  | cons transition rest induction =>
      obtain ⟨action, found⟩ := declared transition List.mem_cons_self
      obtain ⟨source, target⟩ := registered transition List.mem_cons_self
      have grows : Grows clone ([] ++ [model.copied transition])
          (clone.extend (model.copied transition)) :=
        (Grows.refl labelled).extend source target
      have created : clone.create (model.copied transition) =
          .ok (clone.extend (model.copied transition)) := create_eq labelled source target
      rw [List.nil_append] at grows
      have stores := grows.stores
      rw [List.foldlM_cons, List.map_cons, List.foldlM_cons,
        cloneTransition_eq alphabet clocks found, created]
      apply induction grows.labelled
      · intro type
        rw [stores]
        exact alphabet type
      · rw [stores]
        exact clocks
      · exact fun other member => declared other (List.mem_cons_of_mem _ member)
      · intro other member
        rw [grows.isRegistered, grows.isRegistered]
        exact registered other (List.mem_cons_of_mem _ member)

theorem getLast?_filter_map_key {keys : List String} {map : AList (fun _ : String => Transition)}
    (nodup : keys.Nodup)
    (stored : ∀ key transition, map.lookup key = some transition → transition.key = key)
    (change : Transition → Transition) (keeps : ∀ transition, (change transition).key =
      transition.key) (key : String) (member : map.lookup key ≠ none → key ∈ keys) :
    ((((keys.filterMap map.lookup).map change).filter
      (fun transition => key = transition.key)).getLast?) = (map.lookup key).map change := by
  cases found : map.lookup key with
  | none =>
      rw [List.filter_eq_nil_iff.mpr]
      · rfl
      · intro transition inList same
        obtain ⟨original, inOriginals, rfl⟩ := List.mem_map.mp inList
        obtain ⟨other, _, otherFound⟩ := List.mem_filterMap.mp inOriginals
        have sameKey := of_decide_eq_true same
        rw [keeps, stored other original otherFound] at sameKey
        rw [sameKey, otherFound] at found
        cases found
  | some transition =>
      have inKeys := member (by rw [found]; exact Option.some_ne_none _)
      have only : ((keys.filterMap map.lookup).map change).filter
          (fun transition => key = transition.key) = [change transition] := by
        clear member
        induction keys with
        | nil => cases inKeys
        | cons first rest induction =>
            obtain ⟨notInRest, restNodup⟩ := List.nodup_cons.mp nodup
            rcases List.mem_cons.mp inKeys with rfl | later
            · have rest : ((rest.filterMap map.lookup).map change).filter
                  (fun transition => key = transition.key) = [] := by
                rw [List.filter_eq_nil_iff]
                intro other inList same
                obtain ⟨original, inOriginals, rfl⟩ := List.mem_map.mp inList
                obtain ⟨otherKey, inRest, otherFound⟩ := List.mem_filterMap.mp inOriginals
                have sameKey := of_decide_eq_true same
                rw [keeps, stored otherKey original otherFound] at sameKey
                exact notInRest (sameKey ▸ inRest)
              rw [List.filterMap_cons, found]
              simp only [List.map_cons, List.filter_cons]
              rw [rest]
              simp [keeps, stored key transition found]
            · have different : first ≠ key := fun same => notInRest (same ▸ later)
              cases firstFound : map.lookup first with
              | none =>
                  rw [List.filterMap_cons, firstFound]
                  exact induction restNodup later
              | some other =>
                  have skips : ¬ key = (change other).key := by
                    rw [keeps, stored first other firstFound]
                    exact fun same => different same.symm
                  rw [List.filterMap_cons, firstFound]
                  simp only [List.map_cons, List.filter_cons]
                  rw [if_neg (by simpa using skips)]
                  exact induction restNodup later
      rw [only]
      rfl

/-- The copy once all of its locations are added. -/
structure IsBareCopy (order : IterationOrder) (model located : TIOSTS) : Prop where
  getLocation : ∀ label, located.getLocation label =
    (model.getLocation label).map bareLocation
  initialLocation : located.initialLocation =
    (((model.getLocations order).filter Location.isInitialLocation).getLast?).map
      Location.label
  stores : located = { model.cloneDeclarations with
    locations := located.locations, initialLocation := located.initialLocation }

theorem cloneLocations_isBareCopy (order : IterationOrder) (wellFormed : model.WellFormed) :
    IsBareCopy order model
      ((model.getLocations order).foldl TIOSTS.cloneLocation model.cloneDeclarations) := by
  have blank := model.cloneDeclarations_isBlank
  have start : HasBareLocations model [] model.cloneDeclarations := by
    constructor
    · intro label
      simp [getLocation, blank.locations]
    · simp [blank.initialLocation]
    · rfl
  have eachFound : ∀ location ∈ model.getLocations order,
      model.getLocation location.label = some location := by
    intro location member
    obtain ⟨label, found⟩ := (mem_getLocations order model).mp member
    rw [wellFormed.label_eq found]
    exact found
  have has := hasBareLocations eachFound start
  rw [List.nil_append] at has
  refine ⟨?_, has.initialLocation, has.stores⟩
  intro label
  rw [has.getLocation]
  split
  · rfl
  · rename_i absent
    cases found : model.getLocation label with
    | none => rfl
    | some location =>
        apply absurd _ absent
        apply List.mem_map.mpr
        exact ⟨location, (mem_getLocations order model).mpr ⟨label, found⟩,
          wellFormed.label_eq found⟩

namespace IsBareCopy

variable {located : TIOSTS}

theorem labelled (bare : IsBareCopy order model located) (wellFormed : model.WellFormed) :
    located.Labelled := by
  intro label location found
  rw [bare.getLocation] at found
  obtain ⟨original, originalFound, rfl⟩ := Option.map_eq_some_iff.mp found
  have labelEq : original.label = label := wellFormed.label_eq originalFound
  exact labelEq

theorem isRegistered (bare : IsBareCopy order model located) (label : String) :
    located.IsRegistered label ↔ model.IsRegistered label := by
  rw [isRegistered_iff, isRegistered_iff, bare.getLocation]
  simp

theorem isInitial (bare : IsBareCopy order model located) (label : String) :
    located.isInitial label = model.isInitial label := by
  rw [TIOSTS.isInitial, bare.getLocation, TIOSTS.isInitial]
  cases model.getLocation label <;> rfl

theorem outOf (bare : IsBareCopy order model located) (label : String) :
    located.outOf label = [] := by
  rw [TIOSTS.outOf, bare.getLocation]
  cases model.getLocation label <;> rfl

theorem inOf (bare : IsBareCopy order model located) (label : String) :
    located.inOf label = [] := by
  rw [TIOSTS.inOf, bare.getLocation]
  cases model.getLocation label <;> rfl

theorem actionsOf (bare : IsBareCopy order model located) (type : ActionType) :
    located.actionsOf type = model.actionsOf type := by
  rw [bare.stores]
  exact cloneDeclarations_actionsOf model type

theorem clocks (bare : IsBareCopy order model located) : located.clocks = model.clocks := by
  rw [bare.stores]
  exact cloneDeclarations_clocks model

theorem transitions (bare : IsBareCopy order model located) : located.transitions = ∅ := by
  rw [bare.stores]
  exact model.cloneDeclarations_isBlank.transitions

theorem initialCondition (bare : IsBareCopy order model located) :
    located.initialCondition = model.initialCondition := by
  rw [bare.stores]
  simp [cloneDeclarations, foldl_addVariable, foldl_addActionParameter, foldl_addClock,
    foldl_addAction, setInitialCondition]

end IsBareCopy

theorem mem_outOf_of_mem_getTransitions (wellFormed : model.WellFormed)
    {transition : Transition} (member : transition ∈ model.getTransitions order) :
    transition ∈ model.outOf transition.source := by
  obtain ⟨key, found⟩ := (mem_getTransitions order model).mp member
  exact (wellFormed.stored found).2

theorem copiedTransitions_ends (wellFormed : model.WellFormed) {transition : Transition}
    (member : transition ∈ model.copiedTransitions order) :
    model.IsRegistered transition.source ∧ model.IsRegistered transition.target := by
  obtain ⟨original, inOriginals, rfl⟩ := List.mem_map.mp member
  have stored := mem_outOf_of_mem_getTransitions wellFormed inOriginals
  have target : model.IsRegistered original.target := wellFormed.target_registered stored
  exact ⟨isRegistered_of_mem_outOf stored, target⟩

/-- The clone of a well-formed model creates the copies of its transitions. -/
theorem clone_eq (order : IterationOrder) (wellFormed : model.WellFormed) :
    model.clone order = (model.copiedTransitions order).foldlM create
      ((model.getLocations order).foldl TIOSTS.cloneLocation model.cloneDeclarations) := by
  have bare := cloneLocations_isBareCopy order wellFormed
  have stored : ∀ transition ∈ model.getTransitions order,
      transition ∈ model.outOf transition.source :=
    fun transition member => mem_outOf_of_mem_getTransitions wellFormed member
  apply foldlM_cloneTransition (bare.labelled wellFormed) bare.actionsOf bare.clocks
  · intro transition member
    exact wellFormed.action_declared (stored transition member)
  · intro transition member
    rw [bare.isRegistered, bare.isRegistered]
    exact ⟨isRegistered_of_mem_outOf (stored transition member),
      wellFormed.target_registered (stored transition member)⟩

/-- The transition stored last under a key is the copy of the one the model stores. -/
theorem getLast?_copiedTransitions (order : IterationOrder) (wellFormed : model.WellFormed)
    (key : String) :
    ((model.copiedTransitions order).filter
      (fun transition => key = transition.key)).getLast? =
        (model.transitions.lookup key).map model.copied := by
  have nodup : (order.arrange model.transitions.keys).Nodup :=
    (order.arrange_perm _).nodup_iff.mpr model.transitions.keys_nodup
  rw [copiedTransitions, getTransitions]
  apply getLast?_filter_map_key nodup
    (fun key transition found => (wellFormed.stored found).1) model.copied
    (copied_key model) key
  intro present
  apply (order.arrange_perm _).mem_iff.mpr
  apply AList.mem_keys.mp
  apply AList.lookup_isSome.mp
  exact Option.isSome_iff_ne_none.mpr present

/-- The copy of a well-formed model. -/
theorem clone_isExactCopy (order : IterationOrder) {model : TIOSTS}
    (wellFormed : model.WellFormed) :
    ∃ copy, model.clone order = .ok copy ∧ IsExactCopy order model copy := by
  obtain ⟨copy, returned, isCopy⟩ := clone_isCopy order wellFormed
  refine ⟨copy, returned, ?_⟩
  have bare := cloneLocations_isBareCopy order wellFormed
  rw [clone_eq order wellFormed] at returned
  generalize (model.getLocations order).foldl TIOSTS.cloneLocation model.cloneDeclarations =
    located at bare returned
  have ends : ∀ transition ∈ model.copiedTransitions order,
      located.IsRegistered transition.source ∧ located.IsRegistered transition.target := by
    intro transition member
    rw [bare.isRegistered, bare.isRegistered]
    exact copiedTransitions_ends wellFormed member
  obtain ⟨created, creates, grows⟩ := createAll_ok (bare.labelled wellFormed) ends
  obtain rfl := Except.ok.inj (creates.symm.trans returned)
  have stores := grows.stores
  constructor
  · exact isCopy.wellFormed
  · exact isCopy.isRegistered
  · exact fun label => (grows.isInitial label).trans (bare.isInitial label)
  · intro label
    rw [grows.outOf, bare.outOf, List.nil_append]
  · intro label
    rw [grows.inOf, bare.inOf, List.nil_append]
  · intro key
    rw [grows.lookup, bare.transitions, getLast?_copiedTransitions order wellFormed]
    cases model.transitions.lookup key <;> rfl
  · rw [stores]
    exact bare.initialLocation
  · rw [grows.initialCondition]
    simp only [bare.isInitial, bare.initialCondition]
  · exact isCopy.actionsOf
  · rw [stores, bare.stores]
    simp [cloneDeclarations, foldl_addVariable, foldl_addActionParameter, foldl_addClock,
      foldl_addAction, setInitialCondition, TIOSTS.new]
  · rw [stores, bare.stores]
    simp [cloneDeclarations, foldl_addVariable, foldl_addActionParameter, foldl_addClock,
      foldl_addAction, setInitialCondition, TIOSTS.new]
  · rw [stores, bare.stores]
    simp [cloneDeclarations, foldl_addVariable, foldl_addActionParameter, foldl_addClock,
      foldl_addAction, setInitialCondition, TIOSTS.new]
  · exact isCopy.clocks

end Transitions

section Declared

variable {model next copy : TIOSTS}

theorem createTransition_alphabet {source target : String} {dataGuard : DataGuard}
    {clockGuard : ClockGuard} {action : Action} {dataAssignments clockAssignments : Option String}
    {deadline : Deadline}
    (returned : model.createTransition source dataGuard clockGuard action dataAssignments
      clockAssignments deadline target = .ok next) : next.toAlphabet = model.toAlphabet := by
  unfold createTransition at returned
  obtain ⟨sourceLocation, _, returned⟩ := bind_eq_ok.mp returned
  obtain ⟨targetLocation, _, returned⟩ := bind_eq_ok.mp returned
  rw [← Except.ok.inj returned, register_alphabet]
  rfl

theorem cloneTransition_alphabet {transition : Transition}
    (returned : model.cloneTransition transition = .ok next) :
    next.toAlphabet = model.toAlphabet := by
  obtain ⟨action, _, returned⟩ := bind_eq_ok.mp returned
  obtain ⟨clockGuard, _, returned⟩ := bind_eq_ok.mp returned
  exact createTransition_alphabet returned

theorem cloneLocation_alphabet (location : Location) :
    (model.cloneLocation location).toAlphabet = model.toAlphabet := by
  unfold cloneLocation
  split
  · rw [setInitialLocation_alphabet, addLocation_alphabet]
  · rw [addLocation_alphabet]

/-- Every copy declares the actions of its model, whatever its transitions carry. -/
theorem clone_actionsOf {order : IterationOrder} (copied : model.clone order = .ok copy)
    (type : ActionType) : copy.actionsOf type = model.actionsOf type := by
  have located : ∀ (locations : List Location) (start : TIOSTS),
      (locations.foldl TIOSTS.cloneLocation start).toAlphabet = start.toAlphabet := by
    intro locations
    induction locations with
    | nil => exact fun _ => rfl
    | cons location rest induction =>
        intro start
        rw [List.foldl_cons, induction, cloneLocation_alphabet]
  have kept : copy.toAlphabet = model.cloneDeclarations.toAlphabet := by
    apply Loops.foldlM_returned
      (fun _ state => state.toAlphabet = model.cloneDeclarations.toAlphabet) copied
    · exact located _ _
    · intro done transition rest state next _ same stepped
      exact (cloneTransition_alphabet stepped).trans same
  rw [kept]
  exact cloneDeclarations_actionsOf model type

end Declared

end TIOSTS

end Symbolrt
