import Symbolrt.Algorithms.SynchronousProduct
import Symbolrt.Base.Copies
import Symbolrt.Lib.Text

/-!
# What the compositions share

Each composition works on copies of its two models.  Locations of a copy are referred
to by their labels: no two locations of a model share a label, so comparing locations,
by reference or with `equals`, is comparing labels.

An action object stands in the lists of a model and in the transitions that were
created with it, so changing its parameters changes all of them.
-/

namespace Symbolrt

/-- The parameters are changed in place, so every holder of the action sees them. -/
def Action.changeParameters (changed : Action) (parameters : List String) (action : Action) :
    Action :=
  if action.type = changed.type ∧ action.name = changed.name then
    { action with parameters := parameters }
  else action

@[simp] theorem Action.changeParameters_name (changed : Action) (parameters : List String)
    (action : Action) : (changed.changeParameters parameters action).name = action.name := by
  unfold changeParameters
  split <;> rfl

@[simp] theorem Action.changeParameters_type (changed : Action) (parameters : List String)
    (action : Action) : (changed.changeParameters parameters action).type = action.type := by
  unfold changeParameters
  split <;> rfl

/-- Changes the first action of the name, the one that lookups return. -/
def changeFirst (name : String) (parameters : List String) : List Action → List Action
  | [] => []
  | action :: rest =>
      if action.name = name then { action with parameters := parameters } :: rest
      else action :: changeFirst name parameters rest

theorem changeFirst_types {name : String} {parameters : List String} {actions : List Action}
    {type : ActionType} (typed : ∀ action ∈ actions, action.type = type) :
    ∀ action ∈ changeFirst name parameters actions, action.type = type := by
  induction actions with
  | nil => exact typed
  | cons first rest induction =>
      intro action member
      rw [changeFirst] at member
      split at member
      · rcases List.mem_cons.mp member with rfl | later
        · exact typed first List.mem_cons_self
        · exact typed action (List.mem_cons_of_mem _ later)
      · rcases List.mem_cons.mp member with rfl | later
        · exact typed action List.mem_cons_self
        · exact induction
            (fun other inRest => typed other (List.mem_cons_of_mem _ inRest)) action later

theorem changeFirst_names (name : String) (parameters : List String) (actions : List Action) :
    (changeFirst name parameters actions).map Action.name = actions.map Action.name := by
  induction actions with
  | nil => rfl
  | cons first rest induction =>
      rw [changeFirst]
      split
      · rfl
      · rw [List.map_cons, induction, List.map_cons]

namespace Alphabet

/-- Changes the first declaration of the name, in the list of its type. -/
def changeParameters (alphabet : Alphabet) (changed : Action) (parameters : List String) :
    Alphabet :=
  match changed.type with
  | .input =>
      { alphabet with
        inputActions := changeFirst changed.name parameters alphabet.inputActions
        inputActions_type := changeFirst_types alphabet.inputActions_type }
  | .output =>
      { alphabet with
        outputActions := changeFirst changed.name parameters alphabet.outputActions
        outputActions_type := changeFirst_types alphabet.outputActions_type }
  | .internal =>
      { alphabet with
        internalActions := changeFirst changed.name parameters alphabet.internalActions
        internalActions_type := changeFirst_types alphabet.internalActions_type }

theorem changeParameters_names (alphabet : Alphabet) (changed : Action)
    (parameters : List String) (type : ActionType) :
    ((alphabet.changeParameters changed parameters).actionsOf type).map Action.name =
      (alphabet.actionsOf type).map Action.name := by
  obtain ⟨name, changedType, old⟩ := changed
  cases changedType <;> cases type <;>
    simp only [changeParameters, actionsOf, changeFirst_names]

end Alphabet

namespace Transition

def changeParameters (changed : Action) (parameters : List String) (transition : Transition) :
    Transition :=
  { transition with action := changed.changeParameters parameters transition.action }

end Transition

namespace Location

def changeParameters (changed : Action) (parameters : List String) (location : Location) :
    Location :=
  { location with
    outTransitions := location.outTransitions.map
      (Transition.changeParameters changed parameters)
    inTransitions := location.inTransitions.map
      (Transition.changeParameters changed parameters) }

end Location

namespace TIOSTS

/-- `setParameters` on an action of the model, seen from the model. -/
def changeParameters (changed : Action) (parameters : List String) (model : TIOSTS) : TIOSTS :=
  { model with
    toAlphabet := model.toAlphabet.changeParameters changed parameters
    locations := ⟨model.locations.entries.map
        (Sigma.map id (fun _ => Location.changeParameters changed parameters)),
      List.NodupKeys.map₂ _ _ model.locations.nodupKeys⟩
    transitions := ⟨model.transitions.entries.map (Sigma.map id (fun _ =>
        Transition.changeParameters changed parameters)),
      List.NodupKeys.map₂ _ _ model.transitions.nodupKeys⟩ }

/-- The first transition that leaves a location. -/
def firstOut (model : TIOSTS) (label : String) : Except Failure Transition :=
  match model.outOf label with
  | [] => .error .indexOutOfBounds
  | first :: _ => .ok first

/-- The first transition that enters a location. -/
def firstIn (model : TIOSTS) (label : String) : Except Failure Transition :=
  match model.inOf label with
  | [] => .error .indexOutOfBounds
  | first :: _ => .ok first

def getLocationNames (order : IterationOrder) (model : TIOSTS) : List String :=
  (model.getLocations order).map Location.label

def getVariableNames (model : TIOSTS) : List String :=
  model.modelVariables.map TypedData.name

theorem mem_dataNames_of_mem_getVariableNames {model : TIOSTS} {name : String}
    (member : name ∈ model.getVariableNames) : name ∈ model.dataNames := by
  rw [dataNames, List.map_append]
  exact List.mem_append_left _ member

def getActions (model : TIOSTS) : List Action :=
  model.inputActions ++ model.outputActions ++ model.internalActions

/-- The names of the actions, each once apart from repeated inputs. -/
def getActionNames (model : TIOSTS) : List String :=
  let addName := fun (actionNames : List String) (name : String) =>
    if name ∈ actionNames then actionNames else actionNames ++ [name]
  let actionNames := (model.internalActions.map Action.name).foldl addName
    (model.inputActions.map Action.name)
  (model.outputActions.map Action.name).foldl addName actionNames

/-- Adds a location of the first model, which may be the initial one. -/
def addFirstLocation (excluded : List String) (result : TIOSTS) (location : Location) : TIOSTS :=
  if location.label ∈ excluded then result
  else
    let result := result.addLocation (Location.new location.label false)
    if location.isInitialLocation then result.setInitialLocation location.label else result

/-- Adds a location of the second model, which is never initial in the result. -/
def addSecondLocation (excluded : List String) (result : TIOSTS) (location : Location) :
    TIOSTS :=
  if location.label ∈ excluded then result
  else result.addLocation (Location.new location.label false)

end TIOSTS

theorem filter_type_self {actions : List Action} {type : ActionType}
    (typed : ∀ action ∈ actions, action.type = type) :
    actions.filter (fun action => action.type = type) = actions := by
  rw [List.filter_eq_self]
  intro action member
  simpa using typed action member

theorem filter_type_other {actions : List Action} {type other : ActionType}
    (typed : ∀ action ∈ actions, action.type = type) (different : type ≠ other) :
    actions.filter (fun action => action.type = other) = [] := by
  rw [List.filter_eq_nil_iff]
  intro action member
  rw [typed action member]
  simpa using different

/-- The label of the location composed of two. -/
def composedLabel (label1 label2 : String) : String := label1 ++ "," ++ label2

theorem composedLabel_toList (label1 label2 : String) :
    (composedLabel label1 label2).toList = label1.toList ++ ',' :: label2.toList := by
  simp [composedLabel]

theorem comma_mem_composedLabel (label1 label2 : String) :
    ',' ∈ (composedLabel label1 label2).toList := by
  rw [composedLabel_toList]
  simp

theorem composedLabel_inj {label1 label2 other1 other2 : String}
    (plain : ',' ∉ label1.toList) (otherPlain : ',' ∉ other1.toList)
    (same : composedLabel label1 label2 = composedLabel other1 other2) :
    label1 = other1 ∧ label2 = other2 := by
  have chars := congrArg String.toList same
  rw [composedLabel_toList, composedLabel_toList] at chars
  obtain ⟨chars1, chars2⟩ := Text.append_cons_inj_left plain otherPlain chars
  exact ⟨String.toList_injective chars1, String.toList_injective chars2⟩

/-- The last transition whose action has the name. -/
def recoverTransition (transitions : List Transition) (name : String) : Option Transition :=
  transitions.foldl (fun transitionSync transition =>
    if transition.action.name = name then some transition else transitionSync) none

/-- Some element of the first collection is in the second. -/
def isIntersection (collection1 collection2 : List String) : Bool :=
  collection1.any (fun c => c ∈ collection2)

section Lookups

variable {model : TIOSTS} {changed : Action} {parameters : List String}

theorem recoverTransition_eq (transitions : List Transition) (name : String) :
    recoverTransition transitions name =
      (transitions.filter (fun transition => transition.action.name = name)).getLast? :=
  Loops.foldl_last (fun transition : Transition => transition.action.name = name) transitions

theorem firstOut_eq_ok {label : String} {transition : Transition} :
    model.firstOut label = .ok transition ↔
      ∃ rest, model.outOf label = transition :: rest := by
  unfold TIOSTS.firstOut
  cases model.outOf label with
  | nil => simp
  | cons first rest => simp

theorem firstIn_eq_ok {label : String} {transition : Transition} :
    model.firstIn label = .ok transition ↔
      ∃ rest, model.inOf label = transition :: rest := by
  unfold TIOSTS.firstIn
  cases model.inOf label with
  | nil => simp
  | cons first rest => simp

theorem getLocation_changeParameters (label : String) :
    (model.changeParameters changed parameters).getLocation label =
      (model.getLocation label).map (Location.changeParameters changed parameters) := by
  obtain ⟨alphabet, name, condition, initial, modelVariables, actionParameters, clocks,
    ⟨entries, nodup⟩, transitions⟩ := model
  simp only [TIOSTS.changeParameters, TIOSTS.getLocation, AList.lookup]
  clear nodup
  induction entries with
  | nil => rfl
  | cons entry rest induction =>
      obtain ⟨key, location⟩ := entry
      by_cases same : label = key
      · subst same
        simp [Sigma.map]
      · simpa [Sigma.map, List.dlookup_cons_ne, same, Ne.symm same] using induction

theorem isRegistered_changeParameters (label : String) :
    (model.changeParameters changed parameters).IsRegistered label ↔
      model.IsRegistered label := by
  rw [TIOSTS.isRegistered_iff, TIOSTS.isRegistered_iff, getLocation_changeParameters]
  simp

theorem outOf_changeParameters (label : String) :
    (model.changeParameters changed parameters).outOf label =
      (model.outOf label).map (Transition.changeParameters changed parameters) := by
  unfold TIOSTS.outOf
  rw [getLocation_changeParameters]
  cases model.getLocation label <;> rfl

theorem inOf_changeParameters (label : String) :
    (model.changeParameters changed parameters).inOf label =
      (model.inOf label).map (Transition.changeParameters changed parameters) := by
  unfold TIOSTS.inOf
  rw [getLocation_changeParameters]
  cases model.getLocation label <;> rfl

theorem labelled_changeParameters (labelled : model.Labelled) :
    (model.changeParameters changed parameters).Labelled := by
  intro label location found
  rw [getLocation_changeParameters] at found
  obtain ⟨before, beforeFound, rfl⟩ := Option.map_eq_some_iff.mp found
  have labelEq : before.label = label := labelled beforeFound
  exact labelEq

theorem isInitial_addLocation (model : TIOSTS) (added label : String) :
    (model.addLocation (Location.new added false)).isInitial label = model.isInitial label := by
  unfold TIOSTS.isInitial
  rw [TIOSTS.getLocation_addLocation]
  by_cases same : label = (Location.new added false).label
  · rw [if_pos same]
    cases model.getLocation label <;> rfl
  · rw [if_neg same]

theorem isInitial_changeParameters (label : String) :
    (model.changeParameters changed parameters).isInitial label = model.isInitial label := by
  unfold TIOSTS.isInitial
  rw [getLocation_changeParameters]
  cases model.getLocation label <;> rfl

end Lookups

/-- The model after locations without transitions have been added. -/
structure AddsLocations (start : TIOSTS) (labels : List String) (model : TIOSTS) : Prop where
  labelled : model.Labelled
  isRegistered : ∀ label, model.IsRegistered label ↔ start.IsRegistered label ∨ label ∈ labels
  outOf : ∀ label, model.outOf label = start.outOf label
  inOf : ∀ label, model.inOf label = start.inOf label
  stores : model = { start with
    locations := model.locations, initialLocation := model.initialLocation }

section Locations

variable {start : TIOSTS} {labels : List String} {model : TIOSTS}

theorem AddsLocations.refl (labelled : start.Labelled) : AddsLocations start [] start where
  labelled := labelled
  isRegistered := by simp
  outOf := fun _ => rfl
  inOf := fun _ => rfl
  stores := rfl

theorem AddsLocations.addLocation (adds : AddsLocations start labels model) (added : String) :
    AddsLocations start (labels ++ [added])
      (model.addLocation (Location.new added false)) where
  labelled := by
    intro label location found
    rw [TIOSTS.getLocation_addLocation] at found
    split at found
    · rename_i same
      cases before : model.getLocation label with
      | none =>
          rw [before] at found
          rw [← Option.some.inj found, same]
          rfl
      | some registered =>
          rw [before] at found
          rw [← Option.some.inj found]
          exact adds.labelled before
    · exact adds.labelled found
  isRegistered := by
    intro label
    rw [TIOSTS.isRegistered_addLocation, adds.isRegistered, List.mem_append,
      List.mem_singleton]
    simp only [Location.new]
    tauto
  outOf := by
    intro label
    rw [TIOSTS.outOf_addLocation, adds.outOf]
  inOf := by
    intro label
    rw [TIOSTS.inOf_addLocation, adds.inOf]
  stores := by
    have stores := adds.stores
    rw [TIOSTS.addLocation_initialLocation]
    exact (TIOSTS.addLocation_eq model _).trans (congrArg (fun other : TIOSTS => { other with
      locations := (model.addLocation (Location.new added false)).locations }) stores)

theorem AddsLocations.setInitialLocation (adds : AddsLocations start labels model)
    (initial : String) : AddsLocations start labels (model.setInitialLocation initial) where
  labelled := by
    intro label location found
    rw [TIOSTS.getLocation_setInitialLocation] at found
    split at found
    · obtain ⟨before, beforeFound, rfl⟩ := Option.map_eq_some_iff.mp found
      have labelEq : before.label = label := adds.labelled beforeFound
      exact labelEq
    · exact adds.labelled found
  isRegistered := by
    intro label
    rw [TIOSTS.isRegistered_setInitialLocation]
    exact adds.isRegistered label
  outOf := by
    intro label
    rw [TIOSTS.outOf_setInitialLocation]
    exact adds.outOf label
  inOf := by
    intro label
    rw [TIOSTS.inOf_setInitialLocation]
    exact adds.inOf label
  stores := (TIOSTS.setInitialLocation_eq model initial).trans
    (congrArg (fun other : TIOSTS => { other with
      locations := (model.setInitialLocation initial).locations
      initialLocation := some initial }) adds.stores)

theorem AddsLocations.setInitialCondition (adds : AddsLocations start labels model)
    (condition : Option DataGuard) :
    AddsLocations (start.setInitialCondition condition) labels
      (model.setInitialCondition condition) where
  labelled := fun {_ _} found => adds.labelled found
  isRegistered := adds.isRegistered
  outOf := adds.outOf
  inOf := adds.inOf
  stores := congrArg (TIOSTS.setInitialCondition condition) adds.stores

/-- The labels of the locations that are not excluded. -/
def keptLabels (excluded : List String) (locations : List Location) : List String :=
  (locations.map Location.label).filter (fun label => label ∉ excluded)

theorem mem_keptLabels {excluded : List String} {locations : List Location} {label : String} :
    label ∈ keptLabels excluded locations ↔
      label ∈ locations.map Location.label ∧ label ∉ excluded := by
  simp [keptLabels]

theorem AddsLocations.foldl_addFirstLocation (excluded : List String)
    (adds : AddsLocations start labels model) (locations : List Location) :
    AddsLocations start (labels ++ keptLabels excluded locations)
        (locations.foldl (TIOSTS.addFirstLocation excluded) model) ∧
      (locations.foldl (TIOSTS.addFirstLocation excluded) model).initialLocation =
        (((locations.filter (fun location => location.label ∉ excluded ∧
          location.isInitialLocation = true)).getLast?).map Location.label).or
            model.initialLocation := by
  induction locations generalizing labels model with
  | nil => simpa [keptLabels] using adds
  | cons location rest induction =>
      by_cases out : location.label ∈ excluded
      · have same : TIOSTS.addFirstLocation excluded model location = model := if_pos out
        have kept : keptLabels excluded (location :: rest) = keptLabels excluded rest := by
          simp [keptLabels, out]
        rw [List.foldl_cons, same, kept, List.filter_cons_of_neg (by simp [out])]
        exact induction adds
      · have kept : keptLabels excluded (location :: rest) =
            location.label :: keptLabels excluded rest := by
          simp [keptLabels, out]
        have added := adds.addLocation location.label
        by_cases flagged : location.isInitialLocation = true
        · have step : TIOSTS.addFirstLocation excluded model location =
              (model.addLocation (Location.new location.label false)).setInitialLocation
                location.label := by
            rw [TIOSTS.addFirstLocation, if_neg out, if_pos flagged]
          obtain ⟨whole, initial⟩ := induction (added.setInitialLocation location.label)
          rw [List.foldl_cons, step, kept]
          constructor
          · simpa using whole
          · rw [initial, List.filter_cons_of_pos (by simp [out, flagged])]
            cases last : (rest.filter (fun location => location.label ∉ excluded ∧
                location.isInitialLocation = true)).getLast? with
            | none =>
                rw [List.getLast?_eq_none_iff] at last
                rw [last]
                rfl
            | some found =>
                rw [List.getLast?_cons, last]
                rfl
        · have step : TIOSTS.addFirstLocation excluded model location =
              model.addLocation (Location.new location.label false) := by
            rw [TIOSTS.addFirstLocation, if_neg out, if_neg flagged]
          obtain ⟨whole, initial⟩ := induction added
          rw [List.foldl_cons, step, kept]
          constructor
          · simpa using whole
          · rw [initial, TIOSTS.addLocation_initialLocation,
              List.filter_cons_of_neg (by simp [flagged])]

theorem AddsLocations.foldl_addSecondLocation (excluded : List String)
    (adds : AddsLocations start labels model) (locations : List Location) :
    AddsLocations start (labels ++ keptLabels excluded locations)
        (locations.foldl (TIOSTS.addSecondLocation excluded) model) ∧
      (locations.foldl (TIOSTS.addSecondLocation excluded) model).initialLocation =
        model.initialLocation := by
  induction locations generalizing labels model with
  | nil => simpa [keptLabels] using adds
  | cons location rest induction =>
      by_cases out : location.label ∈ excluded
      · have same : TIOSTS.addSecondLocation excluded model location = model := if_pos out
        have kept : keptLabels excluded (location :: rest) = keptLabels excluded rest := by
          simp [keptLabels, out]
        rw [List.foldl_cons, same, kept]
        exact induction adds
      · have step : TIOSTS.addSecondLocation excluded model location =
            model.addLocation (Location.new location.label false) := if_neg out
        have kept : keptLabels excluded (location :: rest) =
            location.label :: keptLabels excluded rest := by
          simp [keptLabels, out]
        obtain ⟨whole, initial⟩ := induction (adds.addLocation location.label)
        rw [List.foldl_cons, step, kept]
        constructor
        · simpa using whole
        · rw [initial, TIOSTS.addLocation_initialLocation]

end Locations

section Copies

variable {order : IterationOrder} {model copy : TIOSTS}

theorem getTransitions_nodup (wellFormed : model.WellFormed) :
    (model.getTransitions order).Nodup := by
  apply List.Nodup.filterMap
  · intro key other transition found otherFound
    rw [← (wellFormed.stored found).1, (wellFormed.stored otherFound).1]
  · exact (order.arrange_perm _).nodup_iff.mpr model.transitions.keys_nodup

theorem getTransitions_keys_nodup (wellFormed : model.WellFormed) (order : IterationOrder) :
    ((model.getTransitions order).map Transition.key).Nodup := by
  apply List.Nodup.map_on _ (getTransitions_nodup wellFormed)
  intro transition member other otherMember same
  obtain ⟨key, found⟩ := (TIOSTS.mem_getTransitions order model).mp member
  obtain ⟨otherKey, otherFound⟩ := (TIOSTS.mem_getTransitions order model).mp otherMember
  rw [← (wellFormed.stored found).1, same, (wellFormed.stored otherFound).1, otherFound] at found
  exact (Option.some.inj found).symm

theorem copy_transitions_perm (isCopy : TIOSTS.IsExactCopy order model copy) :
    (copy.getTransitions order).Perm (model.copiedTransitions order) := by
  have keys : copy.transitions.keys.Perm model.transitions.keys := by
    rw [List.perm_ext_iff_of_nodup copy.transitions.keys_nodup model.transitions.keys_nodup]
    intro key
    have present := congrArg Option.isSome (isCopy.lookup key)
    rw [Option.isSome_map] at present
    rw [← AList.mem_keys, ← AList.mem_keys, ← AList.lookup_isSome, ← AList.lookup_isSome,
      present]
  have arranged : (order.arrange copy.transitions.keys).Perm
      (order.arrange model.transitions.keys) :=
    (order.arrange_perm _).trans (keys.trans (order.arrange_perm _).symm)
  have read : copy.getTransitions order = ((order.arrange copy.transitions.keys).filterMap
      (fun key => model.transitions.lookup key)).map model.copied := by
    rw [TIOSTS.getTransitions, List.map_filterMap]
    simp only [isCopy.lookup]
  rw [read]
  exact (arranged.filterMap _).map _

theorem copy_transition (isCopy : TIOSTS.IsExactCopy order model copy)
    {transition : Transition} (member : transition ∈ copy.getTransitions order) :
    transition ∈ copy.outOf transition.source ∧ transition ∈ copy.inOf transition.target ∧
      model.IsRegistered transition.source ∧ model.IsRegistered transition.target := by
  have listed := (copy_transitions_perm isCopy).mem_iff.mp member
  have leaves : transition ∈ copy.outOf transition.source := by
    rw [isCopy.outOf]
    exact List.mem_filter.mpr ⟨listed, by simp⟩
  have enters : transition ∈ copy.inOf transition.target := by
    rw [isCopy.inOf]
    exact List.mem_filter.mpr ⟨listed, by simp⟩
  refine ⟨leaves, enters, ?_, ?_⟩
  · rw [← isCopy.isRegistered]
    exact TIOSTS.isRegistered_of_mem_outOf leaves
  · rw [← isCopy.isRegistered]
    exact isCopy.wellFormed.target_registered leaves

theorem mem_getTransitions_of_outOf
    (isCopy : TIOSTS.IsExactCopy order model copy) {label : String} {transition : Transition}
    (member : transition ∈ copy.outOf label) :
    transition ∈ copy.getTransitions order ∧ transition.source = label := by
  rw [isCopy.outOf] at member
  obtain ⟨listed, source⟩ := List.mem_filter.mp member
  exact ⟨(copy_transitions_perm isCopy).mem_iff.mpr listed, (of_decide_eq_true source).symm⟩

theorem mem_getTransitions_of_inOf
    (isCopy : TIOSTS.IsExactCopy order model copy) {label : String} {transition : Transition}
    (member : transition ∈ copy.inOf label) :
    transition ∈ copy.getTransitions order ∧ transition.target = label := by
  rw [isCopy.inOf] at member
  obtain ⟨listed, target⟩ := List.mem_filter.mp member
  exact ⟨(copy_transitions_perm isCopy).mem_iff.mpr listed, (of_decide_eq_true target).symm⟩

theorem exactCopy (wellFormed : model.WellFormed)
    (copied : model.clone order = .ok copy) : TIOSTS.IsExactCopy order model copy := by
  obtain ⟨other, returned, isCopy⟩ := TIOSTS.clone_isExactCopy order wellFormed
  rw [copied] at returned
  rw [Except.ok.inj returned]
  exact isCopy

theorem firstOut_mem {label : String} {transition : Transition}
    (first : model.firstOut label = .ok transition) : transition ∈ model.outOf label := by
  obtain ⟨rest, whole⟩ := firstOut_eq_ok.mp first
  rw [whole]
  exact List.mem_cons_self

theorem firstIn_mem {label : String} {transition : Transition}
    (first : model.firstIn label = .ok transition) : transition ∈ model.inOf label := by
  obtain ⟨rest, whole⟩ := firstIn_eq_ok.mp first
  rw [whole]
  exact List.mem_cons_self

theorem mem_getLocationLabels (wellFormed : model.WellFormed) {label : String} :
    label ∈ (model.getLocations order).map Location.label ↔ model.IsRegistered label := by
  rw [List.mem_map, TIOSTS.isRegistered_iff]
  constructor
  · rintro ⟨location, member, rfl⟩
    obtain ⟨other, found⟩ := (TIOSTS.mem_getLocations order model).mp member
    rw [← wellFormed.label_eq found] at found
    exact ⟨location, found⟩
  · rintro ⟨location, found⟩
    exact ⟨location, (TIOSTS.mem_getLocations order model).mpr ⟨label, found⟩,
      wellFormed.label_eq found⟩

end Copies

end Symbolrt
