import Symbolrt.Base.Views
import Symbolrt.Compositions.DeclaredActions
import Symbolrt.Compositions.Composition

/-!
# What hiding and renaming share

Both operators build a model with the declarations and locations of a copy, but lists of
actions of their own, and create the transitions of the copy in it, those on one action
with another one.
-/

namespace Symbolrt

namespace Transition

/-- Transitions on the first action get the second one. -/
def relabel (a replacement : Action) (transition : Transition) : Transition :=
  if !transition.action.equals a then transition
  else { transition with action := replacement }

theorem relabel_congr {a other : Action} (same : a.name = other.name) (replacement : Action)
    (transition : Transition) :
    transition.relabel a replacement = transition.relabel other replacement := by
  unfold relabel Action.equals
  rw [same]

@[simp] theorem relabel_source (a replacement : Action) (transition : Transition) :
    (transition.relabel a replacement).source = transition.source := by
  unfold relabel
  split <;> rfl

@[simp] theorem relabel_target (a replacement : Action) (transition : Transition) :
    (transition.relabel a replacement).target = transition.target := by
  unfold relabel
  split <;> rfl

@[simp] theorem relabel_dataGuard (a replacement : Action) (transition : Transition) :
    (transition.relabel a replacement).dataGuard = transition.dataGuard := by
  unfold relabel
  split <;> rfl

theorem relabel_of_ne {a : Action} (replacement : Action) {transition : Transition}
    (different : transition.action.name ≠ a.name) :
    transition.relabel a replacement = transition := by
  apply if_pos
  simpa [Action.equals] using different

theorem relabel_of_eq {a : Action} (replacement : Action) {transition : Transition}
    (same : transition.action.name = a.name) :
    transition.relabel a replacement = { transition with action := replacement } := by
  apply if_neg
  simpa [Action.equals] using same

end Transition

namespace TIOSTS

/-- The last declared action of the name. -/
def lastAction (model : TIOSTS) (name : String) : Option Action :=
  model.getActions.foldl (fun a action => if name = action.name then some action else a) none

/-- A model with the locations of the copy that declares the given actions. -/
def initializeWith (order : IterationOrder) (name : String) (alphabet : Alphabet)
    (tiosts1 : TIOSTS) : TIOSTS :=
  let result := { TIOSTS.new name with
    toAlphabet := alphabet
    modelVariables := tiosts1.modelVariables
    actionParameters := tiosts1.actionParameters
    clocks := tiosts1.clocks }
  let result := (tiosts1.getLocations order).foldl (addFirstLocation []) result
  result.setInitialCondition tiosts1.initialCondition

/-- `createTransition` for a transition of the copy, relabelled. -/
def createRelabelled (a replacement : Action) (result : TIOSTS) (transition : Transition) :
    Except Failure TIOSTS :=
  result.create (transition.relabel a replacement)

theorem lastAction_eq_some {model : TIOSTS} {name : String} {action : Action}
    (found : model.lastAction name = some action) :
    action ∈ model.getActions ∧ action.name = name := by
  rw [lastAction, Loops.foldl_last] at found
  obtain ⟨member, same⟩ := List.mem_filter.mp (List.mem_of_getLast? found)
  exact ⟨member, (of_decide_eq_true same).symm⟩

theorem exists_lastAction {model : TIOSTS} {action : Action}
    (member : action ∈ model.getActions) :
    ∃ found, model.lastAction action.name = some found := by
  rw [lastAction, Loops.foldl_last]
  cases last : (model.getActions.filter
      (fun other => action.name = other.name)).getLast? with
  | none =>
      rw [List.getLast?_eq_none_iff] at last
      have listed : action ∈ model.getActions.filter
          (fun other => action.name = other.name) :=
        List.mem_filter.mpr ⟨member, by simp⟩
      rw [last] at listed
      cases listed
  | some found => exact ⟨found, rfl⟩

theorem mem_getActions {model : TIOSTS} {action : Action} :
    action ∈ model.getActions ↔ ∃ type, action ∈ model.actionsOf type := by
  unfold getActions
  rw [List.mem_append, List.mem_append]
  constructor
  · rintro ((input | output) | internal)
    · exact ⟨.input, input⟩
    · exact ⟨.output, output⟩
    · exact ⟨.internal, internal⟩
  · rintro ⟨type, member⟩
    cases type with
    | input => exact Or.inl (Or.inl member)
    | output => exact Or.inl (Or.inr member)
    | internal => exact Or.inr member

end TIOSTS

section Initialized

variable {order : IterationOrder} {name : String} {alphabet : Alphabet} {model : TIOSTS}

theorem foldl_addFirstLocation_wellFormed {start : TIOSTS} (wellFormed : start.WellFormed)
    (locations : List Location) :
    (locations.foldl (TIOSTS.addFirstLocation []) start).WellFormed := by
  induction locations generalizing start with
  | nil => exact wellFormed
  | cons location rest induction =>
      rw [List.foldl_cons]
      apply induction
      rw [TIOSTS.addFirstLocation, if_neg List.not_mem_nil]
      have added := wellFormed.addLocation location.label false
      split
      · apply added.setInitialLocation
        exact (TIOSTS.isRegistered_addLocation _ _ _).mpr (Or.inl rfl)
      · exact added

theorem isInitial_setInitialLocation {initial : String} (registered : model.IsRegistered initial)
    (label : String) : (model.setInitialLocation initial).isInitial label = true ↔
      model.isInitial label = true ∨ label = initial := by
  unfold TIOSTS.isInitial
  rw [TIOSTS.getLocation_setInitialLocation]
  by_cases same : label = initial
  · obtain ⟨location, found⟩ := (model.isRegistered_iff initial).mp registered
    subst same
    simp [found, Location.setIsInitialLocation]
  · simp [same]

/-- The flagged locations of the list are flagged where they are added. -/
theorem isInitial_foldl_addFirstLocation (locations : List Location) (start : TIOSTS)
    (label : String) :
    (locations.foldl (TIOSTS.addFirstLocation []) start).isInitial label = true ↔
      start.isInitial label = true ∨
        ∃ location ∈ locations, location.label = label ∧ location.isInitialLocation = true := by
  induction locations generalizing start with
  | nil => simp
  | cons location rest induction =>
      have step : (TIOSTS.addFirstLocation [] start location).isInitial label = true ↔
          start.isInitial label = true ∨
            (location.label = label ∧ location.isInitialLocation = true) := by
        rw [TIOSTS.addFirstLocation, if_neg List.not_mem_nil]
        by_cases flagged : location.isInitialLocation = true
        · have added : (start.addLocation (Location.new location.label false)).IsRegistered
              location.label := (TIOSTS.isRegistered_addLocation _ _ _).mpr (Or.inl rfl)
          rw [if_pos flagged, isInitial_setInitialLocation added, isInitial_addLocation]
          simp [flagged, @eq_comm _ label]
        · rw [if_neg flagged, isInitial_addLocation]
          simp [flagged]
      rw [List.foldl_cons, induction, step, or_assoc]
      simp

/-- The label of the last location that is flagged. -/
def TIOSTS.lastFlagged (order : IterationOrder) (model : TIOSTS) : Option String :=
  (((model.getLocations order).filter Location.isInitialLocation).getLast?).map Location.label

/-- What the initialised model holds. -/
structure IsInitialized (order : IterationOrder) (alphabet : Alphabet) (model base : TIOSTS) :
    Prop where
  wellFormed : base.WellFormed
  stores : TIOSTS.Stores [] base
  isRegistered : ∀ label, base.IsRegistered label ↔ model.IsRegistered label
  isInitial : ∀ label, base.isInitial label = model.isInitial label
  initialLocation : base.initialLocation = model.lastFlagged order
  initialCondition : base.initialCondition = model.initialCondition
  alphabet_eq : base.toAlphabet = alphabet
  modelVariables : base.modelVariables = model.modelVariables
  actionParameters : base.actionParameters = model.actionParameters
  clocks : base.clocks = model.clocks

theorem initializeWith_isInitialized (order : IterationOrder) (name : String)
    (alphabet : Alphabet) (wellFormed : model.WellFormed) :
    IsInitialized order alphabet model (model.initializeWith order name alphabet) := by
  generalize startEq : ({ TIOSTS.new name with
    toAlphabet := alphabet
    modelVariables := model.modelVariables
    actionParameters := model.actionParameters
    clocks := model.clocks } : TIOSTS) = start
  have blank : start.IsBlank := by
    rw [← startEq]
    exact ⟨rfl, rfl, rfl⟩
  generalize locatedEq : (model.getLocations order).foldl (TIOSTS.addFirstLocation [])
    start = located
  have base : model.initializeWith order name alphabet =
      located.setInitialCondition model.initialCondition := by
    rw [TIOSTS.initializeWith, startEq, locatedEq]
  obtain ⟨adds, initialLocation⟩ := AddsLocations.foldl_addFirstLocation []
    (AddsLocations.refl blank.wellFormed.label_eq) (model.getLocations order)
  have flagged := isInitial_foldl_addFirstLocation (model.getLocations order) start
  rw [locatedEq] at adds initialLocation flagged
  have startStores := blank.stores
  have locatedWellFormed : located.WellFormed := by
    rw [← locatedEq]
    exact foldl_addFirstLocation_wellFormed blank.wellFormed _
  have stores := adds.stores
  rw [base]
  constructor
  · exact locatedWellFormed.setInitialCondition _
  · constructor
    · exact fun found => adds.labelled found
    · intro transition impossible
      cases impossible
    · exact fun label => (adds.outOf label).trans (startStores.outOf label)
    · exact fun label => (adds.inOf label).trans (startStores.inOf label)
    · intro key
      rw [stores]
      exact startStores.lookup key
  · intro label
    rw [TIOSTS.isRegistered_setInitialCondition, adds.isRegistered, List.nil_append,
      mem_keptLabels, mem_getLocationLabels wellFormed]
    simp [blank.unregistered label]
  · intro label
    rw [Bool.eq_iff_iff]
    have unset : start.isInitial label ≠ true := by
      simp [TIOSTS.isInitial, TIOSTS.getLocation, blank.locations]
    apply (flagged label).trans
    rw [or_iff_right unset]
    constructor
    · rintro ⟨location, member, rfl, isFlagged⟩
      obtain ⟨key, found⟩ := (TIOSTS.mem_getLocations order model).mp member
      rw [← wellFormed.label_eq found] at found
      rw [TIOSTS.isInitial, found]
      exact isFlagged
    · intro isFlagged
      obtain ⟨location, found, here⟩ := (Option.any_eq_true _ _).mp isFlagged
      exact ⟨location, (TIOSTS.mem_getLocations order model).mpr ⟨label, found⟩,
        wellFormed.label_eq found, here⟩
  · have located : (located.setInitialCondition model.initialCondition).initialLocation =
        located.initialLocation := rfl
    rw [located, initialLocation, blank.initialLocation, Option.or_none]
    simp [TIOSTS.lastFlagged]
  · rfl
  · rw [stores, ← startEq]
    rfl
  · rw [stores, ← startEq]
    rfl
  · rw [stores, ← startEq]
    rfl
  · rw [stores, ← startEq]
    rfl

end Initialized

/-- The transitions of a copy on one action have been given another one. -/
structure IsRelabelling (order : IterationOrder) (alphabet : Alphabet)
    (a replacement : Action) (copy result : TIOSTS) : Prop where
  stores : TIOSTS.Stores ((copy.getTransitions order).map (Transition.relabel a replacement))
    result
  isRegistered : ∀ label, result.IsRegistered label ↔ copy.IsRegistered label
  alphabet_eq : result.toAlphabet = alphabet
  initial_registered : ∀ {label}, result.initialLocation = some label →
    ∃ location, result.getLocation label = some location ∧ location.isInitialLocation = true
  modelVariables : result.modelVariables = copy.modelVariables
  actionParameters : result.actionParameters = copy.actionParameters
  clocks : result.clocks = copy.clocks
  isInitial : ∀ label, result.isInitial label = copy.isInitial label
  initialLocation : result.initialLocation = copy.lastFlagged order
  initialCondition : result.initialCondition =
    (((((copy.getTransitions order).map (Transition.relabel a replacement)).filter
      (fun transition => copy.isInitial transition.source)).getLast?).map
        Transition.dataGuard).or copy.initialCondition

section Relabelling

variable {order : IterationOrder} {alphabet : Alphabet} {a replacement : Action}
  {model copy result : TIOSTS}

theorem createRelabelled_ok (isCopy : TIOSTS.IsExactCopy order model copy) (name : String)
    (alphabet : Alphabet) (a replacement : Action) :
    ∃ result, (copy.getTransitions order).foldlM (TIOSTS.createRelabelled a replacement)
        (copy.initializeWith order name alphabet) = .ok result ∧
      IsRelabelling order alphabet a replacement copy result := by
  have initialized := initializeWith_isInitialized order name alphabet isCopy.wellFormed
  generalize copy.initializeWith order name alphabet = base at initialized ⊢
  have registered : ∀ transition ∈
      (copy.getTransitions order).map (Transition.relabel a replacement),
        base.IsRegistered transition.source ∧ base.IsRegistered transition.target := by
    intro transition member
    obtain ⟨original, listed, rfl⟩ := List.mem_map.mp member
    obtain ⟨_, _, source, target⟩ := copy_transition isCopy listed
    rw [Transition.relabel_source, Transition.relabel_target, initialized.isRegistered,
      initialized.isRegistered, isCopy.isRegistered, isCopy.isRegistered]
    exact ⟨source, target⟩
  obtain ⟨result, returned, grows⟩ :=
    TIOSTS.createAll_ok (fun found => initialized.wellFormed.label_eq found) registered
  have before := initialized.stores
  have same := grows.stores
  rw [List.foldlM_map] at returned
  refine ⟨result, returned, ?_⟩
  constructor
  · constructor
    · exact fun found => grows.labelled found
    · intro transition member
      rw [grows.isRegistered, grows.isRegistered]
      exact registered transition member
    · intro label
      rw [grows.outOf, before.outOf, List.filter_nil, List.nil_append]
    · intro label
      rw [grows.inOf, before.inOf, List.filter_nil, List.nil_append]
    · intro key
      rw [grows.lookup, before.lookup, List.filter_nil, List.getLast?_nil, Option.or_none]
  · exact fun label => (grows.isRegistered label).trans (initialized.isRegistered label)
  · rw [same]
    exact initialized.alphabet_eq
  · intro label isInitial
    have baseInitial : base.initialLocation = some label := by
      rw [same] at isInitial
      exact isInitial
    obtain ⟨location, found, flagged⟩ := initialized.wellFormed.initial_registered baseInitial
    have isFlagged : result.isInitial label = true := by
      rw [grows.isInitial, TIOSTS.isInitial, found]
      exact flagged
    obtain ⟨after, afterFound⟩ := (result.isRegistered_iff label).mp
      ((grows.isRegistered label).mpr ((base.isRegistered_iff label).mpr ⟨location, found⟩))
    rw [TIOSTS.isInitial, afterFound] at isFlagged
    exact ⟨after, afterFound, isFlagged⟩
  · rw [same]
    exact initialized.modelVariables
  · rw [same]
    exact initialized.actionParameters
  · rw [same]
    exact initialized.clocks
  · exact fun label => (grows.isInitial label).trans (initialized.isInitial label)
  · rw [same]
    exact initialized.initialLocation
  · rw [grows.initialCondition, initialized.initialCondition]
    simp only [initialized.isInitial]

theorem IsRelabelling.congr {other : Action} (same : other.name = a.name)
    (isRelabelling : IsRelabelling order alphabet other replacement copy result) :
    IsRelabelling order alphabet a replacement copy result := by
  obtain ⟨stores, isRegistered, alphabetEq, initial, data, parameters, clocks, isInitial,
    initialLocation, initialCondition⟩ := isRelabelling
  have relabels : Transition.relabel other replacement = Transition.relabel a replacement := by
    funext transition
    exact Transition.relabel_congr same replacement transition
  rw [relabels] at stores initialCondition
  exact ⟨stores, isRegistered, alphabetEq, initial, data, parameters, clocks, isInitial,
    initialLocation, initialCondition⟩

/-- The result is well formed once its transitions use declared actions. -/
theorem IsRelabelling.wellFormed
    (isRelabelling : IsRelabelling order alphabet a replacement copy result)
    (declares : result.DeclaresActions) : result.WellFormed := by
  have stores := isRelabelling.stores
  constructor
  · exact fun found => stores.labelled found
  · intro label transition member
    rw [stores.outOf] at member
    exact (of_decide_eq_true (List.mem_filter.mp member).2).symm
  · intro label transition member
    rw [stores.outOf] at member
    exact (stores.registered transition (List.mem_filter.mp member).1).2
  · intro label transition member
    obtain ⟨declared, listed, name⟩ := List.mem_map.mp (declares label transition member)
    have type := result.actionsOf_type _ declared listed
    rw [← type] at listed ⊢
    rw [← name]
    exact TIOSTS.exists_getAction listed
  · exact fun isInitial => isRelabelling.initial_registered isInitial
  · intro key transition found
    obtain ⟨member, same⟩ := stores.key_eq found
    refine ⟨same.symm, ?_⟩
    rw [stores.outOf]
    exact List.mem_filter.mpr ⟨member, by simp⟩

theorem IsRelabelling.exists_transition_iff
    (isRelabelling : IsRelabelling order alphabet a replacement copy result)
    {transition : Transition} :
    (∃ label, transition ∈ result.outOf label) ↔
      ∃ original ∈ copy.getTransitions order,
        original.relabel a replacement = transition := by
  rw [← List.mem_map]
  constructor
  · rintro ⟨label, member⟩
    rw [isRelabelling.stores.outOf] at member
    exact (List.mem_filter.mp member).1
  · intro created
    refine ⟨transition.source, ?_⟩
    rw [isRelabelling.stores.outOf]
    exact List.mem_filter.mpr ⟨created, by simp⟩

/-- No two transitions get one key. -/
def KeysApart (a replacement : Action) (transitions : List Transition) : Prop :=
  ∀ transition ∈ transitions, ∀ other ∈ transitions,
    (transition.relabel a replacement).key = (other.relabel a replacement).key →
      transition = other

theorem keysApart_iff {transitions : List Transition} (nodup : transitions.Nodup) :
    KeysApart a replacement transitions ↔
      ((transitions.map (Transition.relabel a replacement)).map Transition.key).Nodup := by
  rw [List.map_map]
  constructor
  · intro apart
    exact List.Nodup.map_on
      (fun transition member other otherMember same =>
        apart transition member other otherMember same) nodup
  · intro distinct transition member other otherMember same
    exact List.inj_on_of_nodup_map distinct member otherMember same

theorem relabel_copied_key (transition : Transition) :
    ((model.copied transition).relabel a replacement).key =
      (transition.relabel a replacement).key := by
  by_cases same : transition.action.name = a.name
  · rw [Transition.relabel_of_eq _ same, Transition.relabel_of_eq]
    · rfl
    · rw [TIOSTS.copied_actionName]
      exact same
  · rw [Transition.relabel_of_ne _ same, Transition.relabel_of_ne]
    · exact model.copied_key transition
    · rw [TIOSTS.copied_actionName]
      exact same

/-- The map of the result holds all relabelled transitions exactly if their keys differ. -/
theorem IsRelabelling.transitions_perm_iff
    (isRelabelling : IsRelabelling order alphabet a replacement copy result)
    (wellFormed : model.WellFormed) (isCopy : TIOSTS.IsExactCopy order model copy) :
    (result.getTransitions order).Perm
        ((model.getTransitions order).map
          (fun transition => (model.copied transition).relabel a replacement)) ↔
      KeysApart a replacement (model.getTransitions order) := by
  have created : ((copy.getTransitions order).map (Transition.relabel a replacement)).Perm
      ((model.getTransitions order).map
        (fun transition => (model.copied transition).relabel a replacement)) := by
    have permutation := (copy_transitions_perm isCopy).map (Transition.relabel a replacement)
    rw [TIOSTS.copiedTransitions, List.map_map] at permutation
    exact permutation
  have keys : ((model.getTransitions order).map
      (fun transition => (model.copied transition).relabel a replacement)).map Transition.key =
        ((model.getTransitions order).map (Transition.relabel a replacement)).map
          Transition.key := by
    rw [List.map_map, List.map_map]
    apply List.map_congr_left
    exact fun transition _ => relabel_copied_key transition
  rw [← created.congr_right, isRelabelling.stores.getTransitions_perm_iff,
    (created.map Transition.key).nodup_iff, keys,
    keysApart_iff (getTransitions_nodup wellFormed)]

theorem IsRelabelling.length_le
    (isRelabelling : IsRelabelling order alphabet a replacement copy result)
    (isCopy : TIOSTS.IsExactCopy order model copy) :
    (result.getTransitions order).length ≤ (model.getTransitions order).length := by
  have bounded := (@TIOSTS.Stores.getTransitions_subperm order _ _
    isRelabelling.stores).length_le
  have copies := (copy_transitions_perm isCopy).length_eq
  rw [List.length_map, copies, TIOSTS.copiedTransitions, List.length_map] at bounded
  exact bounded

theorem IsRelabelling.keysApart
    (isRelabelling : IsRelabelling order alphabet a replacement copy result)
    (wellFormed : model.WellFormed) (isCopy : TIOSTS.IsExactCopy order model copy)
    (whole : (model.getTransitions order).length ≤ (result.getTransitions order).length) :
    KeysApart a replacement (model.getTransitions order) := by
  apply (isRelabelling.transitions_perm_iff wellFormed isCopy).mp
  have copies := copy_transitions_perm isCopy
  have permutation := (@TIOSTS.Stores.getTransitions_subperm order _ _
    isRelabelling.stores).perm_of_length_le (by
      rw [List.length_map, copies.length_eq, TIOSTS.copiedTransitions, List.length_map]
      exact whole)
  have relabelled := copies.map (Transition.relabel a replacement)
  rw [TIOSTS.copiedTransitions, List.map_map] at relabelled
  exact permutation.trans relabelled

end Relabelling

end Symbolrt
