import Symbolrt.Base.Assembly
import Symbolrt.Base.Copies

/-!
# The views of the transitions of a model

A model keeps every created transition in the outgoing list of its source and in the
incoming list of its target, and once more in a map from keys to transitions.  The map
holds the last transition of each key only, so the views agree exactly as long as no key
is used twice.
-/

namespace Symbolrt

section Grouping

variable {α β : Type} [DecidableEq β]

/-- Grouping a list by keys that cover it does not change it but for its order. -/
theorem flatMap_filter_perm (keyOf : α → β) {keys : List β} (nodup : keys.Nodup)
    (items : List α) (covered : ∀ item ∈ items, keyOf item ∈ keys) :
    (keys.flatMap fun key => items.filter (fun item => key = keyOf item)).Perm items := by
  induction keys generalizing items with
  | nil =>
      cases items with
      | nil => exact .refl _
      | cons item rest => cases covered item List.mem_cons_self
  | cons key keys induction =>
      obtain ⟨fresh, nodup⟩ := List.nodup_cons.mp nodup
      have others : (keys.flatMap fun other => items.filter (fun item => other = keyOf item)) =
          keys.flatMap fun other =>
            (items.filter (fun item => ¬ key = keyOf item)).filter
              (fun item => other = keyOf item) := by
        apply List.flatMap_congr
        intro other member
        rw [List.filter_filter]
        apply List.filter_congr
        intro item _
        have different : other = keyOf item → ¬ key = keyOf item := by
          rintro rfl rfl
          exact fresh member
        simpa using different
      rw [List.flatMap_cons, others]
      have grouped := induction nodup (items.filter (fun item => ¬ key = keyOf item)) (by
        intro item member
        obtain ⟨listed, different⟩ := List.mem_filter.mp member
        rcases List.mem_cons.mp (covered item listed) with same | later
        · exact absurd same.symm (of_decide_eq_true different)
        · exact later)
      apply (grouped.append_left _).trans
      have halves := List.filter_append_perm (fun item => decide (key = keyOf item)) items
      simpa using halves

end Grouping

/-- A call of one of the operations that build a model.  The overloads of
`createTransition` that read the clock guard from a text or choose the deadline end in
this one. -/
inductive Call where
  | addLocation (label : String) (isInitialLocation : Bool)
  | setInitialLocation (label : String)
  | createTransition (transition : Transition)

namespace Call

/-- What the operation does to the model. -/
def run (model : TIOSTS) : Call → Except Failure TIOSTS
  | .addLocation label isInitialLocation =>
      .ok (model.addLocation (Location.new label isInitialLocation))
  | .setInitialLocation label => .ok (model.setInitialLocation label)
  | .createTransition transition => model.create transition

/-- The transitions that the call creates. -/
def created : Call → List Transition
  | .addLocation _ _ => []
  | .setInitialLocation _ => []
  | .createTransition transition => [transition]

end Call

namespace TIOSTS

/-- What the three stores of a model hold after some transitions have been created. -/
structure Stores (created : List Transition) (model : TIOSTS) : Prop where
  labelled : model.Labelled
  registered : ∀ transition ∈ created,
    model.IsRegistered transition.source ∧ model.IsRegistered transition.target
  outOf : ∀ label, model.outOf label =
    created.filter (fun transition => label = transition.source)
  inOf : ∀ label, model.inOf label =
    created.filter (fun transition => label = transition.target)
  lookup : ∀ key, model.transitions.lookup key =
    (created.filter (fun transition => key = transition.key)).getLast?

section Calls

variable {created : List Transition} {model next : TIOSTS}

theorem IsBlank.stores (blank : model.IsBlank) : Stores [] model := by
  constructor
  · intro label location found
    rw [getLocation, blank.locations] at found
    cases found
  · intro transition impossible
    cases impossible
  · intro label
    rw [outOf, getLocation, blank.locations]
    rfl
  · intro label
    rw [inOf, getLocation, blank.locations]
    rfl
  · intro key
    rw [blank.transitions]
    rfl

theorem Stores.addLocation (stores : Stores created model) (added : String)
    (isInitialLocation : Bool) :
    Stores created (model.addLocation (Location.new added isInitialLocation)) := by
  constructor
  · intro label location found
    rw [getLocation_addLocation] at found
    split at found
    · rename_i same
      cases before : model.getLocation label with
      | none =>
          rw [before] at found
          rw [← Option.some.inj found, same]
          rfl
      | some registered =>
          rw [before] at found
          rw [← Option.some.inj found]
          exact stores.labelled before
    · exact stores.labelled found
  · intro transition member
    obtain ⟨source, target⟩ := stores.registered transition member
    constructor
    · exact (isRegistered_addLocation _ _ _).mpr (Or.inr source)
    · exact (isRegistered_addLocation _ _ _).mpr (Or.inr target)
  · intro label
    rw [outOf_addLocation]
    exact stores.outOf label
  · intro label
    rw [inOf_addLocation]
    exact stores.inOf label
  · intro key
    rw [addLocation_transitions]
    exact stores.lookup key

theorem Stores.setInitialLocation (stores : Stores created model) (initial : String) :
    Stores created (model.setInitialLocation initial) := by
  constructor
  · intro label location found
    rw [getLocation_setInitialLocation] at found
    split at found
    · obtain ⟨before, beforeFound, rfl⟩ := Option.map_eq_some_iff.mp found
      have beforeLabel : before.label = label := stores.labelled beforeFound
      exact beforeLabel
    · exact stores.labelled found
  · intro transition member
    rw [isRegistered_setInitialLocation, isRegistered_setInitialLocation]
    exact stores.registered transition member
  · intro label
    rw [outOf_setInitialLocation]
    exact stores.outOf label
  · intro label
    rw [inOf_setInitialLocation]
    exact stores.inOf label
  · intro key
    rw [setInitialLocation_eq]
    exact stores.lookup key

theorem Stores.create (stores : Stores created model) {transition : Transition}
    (returned : model.create transition = .ok next) : Stores (created ++ [transition]) next := by
  have single : [transition].foldlM TIOSTS.create model = .ok next := by
    rw [List.foldlM_cons, returned]
    rfl
  obtain ⟨registered, grows⟩ := createAll_returned stores.labelled single
  constructor
  · exact grows.labelled
  · intro other member
    rw [grows.isRegistered, grows.isRegistered]
    rcases List.mem_append.mp member with earlier | now
    · exact stores.registered other earlier
    · exact registered other now
  · intro label
    rw [grows.outOf, stores.outOf, List.filter_append]
  · intro label
    rw [grows.inOf, stores.inOf, List.filter_append]
  · intro key
    rw [grows.lookup, stores.lookup, List.filter_append, List.getLast?_append]

theorem Stores.run (stores : Stores created model) {call : Call}
    (returned : call.run model = .ok next) : Stores (created ++ call.created) next := by
  cases call with
  | addLocation label isInitialLocation =>
      obtain rfl := Except.ok.inj returned
      rw [Call.created, List.append_nil]
      exact stores.addLocation label isInitialLocation
  | setInitialLocation label =>
      obtain rfl := Except.ok.inj returned
      rw [Call.created, List.append_nil]
      exact stores.setInitialLocation label
  | createTransition transition => exact stores.create returned

theorem stores_of_calls {start : TIOSTS} (blank : start.IsBlank) {calls : List Call}
    (returned : calls.foldlM Call.run start = .ok model) :
    Stores (calls.flatMap Call.created) model := by
  apply Loops.foldlM_returned (fun done state => Stores (done.flatMap Call.created) state)
    returned
  · exact blank.stores
  · intro done call rest state next _ stores stepped
    rw [List.flatMap_append, List.flatMap_singleton]
    exact stores.run stepped

end Calls

/-- The map holds the transitions that the lists of the locations hold. -/
structure Consistent (order : IterationOrder) (model : TIOSTS) : Prop where
  outTransitions : (model.getTransitions order).Perm
    ((model.getLocations order).flatMap Location.outTransitions)
  inTransitions : (model.getTransitions order).Perm
    ((model.getLocations order).flatMap Location.inTransitions)

section Views

variable {order : IterationOrder} {created : List Transition} {model : TIOSTS}

theorem Stores.label_mem (stores : Stores created model) {label : String}
    (registered : model.IsRegistered label) :
    label ∈ (model.getLocations order).map Location.label := by
  obtain ⟨location, found⟩ := (model.isRegistered_iff _).mp registered
  apply List.mem_map.mpr
  exact ⟨location, (mem_getLocations order model).mpr ⟨label, found⟩, stores.labelled found⟩

theorem Stores.getLocation (stores : Stores created model) {location : Location}
    (member : location ∈ model.getLocations order) :
    model.getLocation location.label = some location := by
  obtain ⟨label, found⟩ := (mem_getLocations order model).mp member
  rw [stores.labelled found]
  exact found

theorem Stores.labels_nodup (stores : Stores created model) :
    ((model.getLocations order).map Location.label).Nodup := by
  apply List.Nodup.map_on
  · intro location member other otherMember same
    have found := stores.getLocation member
    rw [same, stores.getLocation otherMember] at found
    exact (Option.some.inj found).symm
  · apply List.Nodup.filterMap
    · intro label other location found otherFound
      have ofLabel : location.label = label := stores.labelled found
      have ofOther : location.label = other := stores.labelled otherFound
      exact ofLabel.symm.trans ofOther
    · exact (order.arrange_perm _).nodup_iff.mpr model.locations.keys_nodup

theorem Stores.outTransitions_perm (stores : Stores created model) :
    ((model.getLocations order).flatMap Location.outTransitions).Perm created := by
  have listed : (model.getLocations order).flatMap Location.outTransitions =
      ((model.getLocations order).map Location.label).flatMap fun label =>
        created.filter (fun transition => label = transition.source) := by
    rw [List.flatMap_map]
    apply List.flatMap_congr
    intro location member
    have here := stores.outOf location.label
    rw [TIOSTS.outOf, stores.getLocation member] at here
    exact here
  rw [listed]
  apply flatMap_filter_perm _ stores.labels_nodup
  exact fun transition member => stores.label_mem (stores.registered transition member).1

theorem Stores.inTransitions_perm (stores : Stores created model) :
    ((model.getLocations order).flatMap Location.inTransitions).Perm created := by
  have listed : (model.getLocations order).flatMap Location.inTransitions =
      ((model.getLocations order).map Location.label).flatMap fun label =>
        created.filter (fun transition => label = transition.target) := by
    rw [List.flatMap_map]
    apply List.flatMap_congr
    intro location member
    have here := stores.inOf location.label
    rw [TIOSTS.inOf, stores.getLocation member] at here
    exact here
  rw [listed]
  apply flatMap_filter_perm _ stores.labels_nodup
  exact fun transition member => stores.label_mem (stores.registered transition member).2

theorem Stores.key_eq (stores : Stores created model) {key : String} {transition : Transition}
    (found : model.transitions.lookup key = some transition) :
    transition ∈ created ∧ key = transition.key := by
  rw [stores.lookup] at found
  obtain ⟨member, same⟩ := List.mem_filter.mp (List.mem_of_getLast? found)
  exact ⟨member, of_decide_eq_true same⟩

theorem Stores.keys_nodup (stores : Stores created model) :
    ((model.getTransitions order).map Transition.key).Nodup := by
  apply List.Nodup.map_on
  · intro transition member other otherMember same
    obtain ⟨key, found⟩ := (mem_getTransitions order model).mp member
    obtain ⟨otherKey, otherFound⟩ := (mem_getTransitions order model).mp otherMember
    rw [(stores.key_eq found).2, same, ← (stores.key_eq otherFound).2, otherFound] at found
    exact (Option.some.inj found).symm
  · apply List.Nodup.filterMap
    · intro key other transition found otherFound
      rw [(stores.key_eq found).2, ← (stores.key_eq otherFound).2]
    · exact (order.arrange_perm _).nodup_iff.mpr model.transitions.keys_nodup

theorem Stores.getTransitions_subperm (stores : Stores created model) :
    (model.getTransitions order).Subperm created := by
  apply List.subperm_of_subset stores.keys_nodup.of_map
  intro transition member
  obtain ⟨key, found⟩ := (mem_getTransitions order model).mp member
  exact (stores.key_eq found).1

/-- The map holds all created transitions exactly if no two of them share a key. -/
theorem Stores.getTransitions_perm_iff (stores : Stores created model) :
    (model.getTransitions order).Perm created ↔ (created.map Transition.key).Nodup := by
  constructor
  · intro permutation
    exact (permutation.map Transition.key).nodup_iff.mp stores.keys_nodup
  · intro nodup
    rw [List.perm_ext_iff_of_nodup stores.keys_nodup.of_map nodup.of_map]
    intro transition
    rw [mem_getTransitions]
    constructor
    · rintro ⟨key, found⟩
      exact (stores.key_eq found).1
    · intro member
      cases found : model.transitions.lookup transition.key with
      | none =>
          rw [stores.lookup, List.getLast?_eq_none_iff, List.filter_eq_nil_iff] at found
          exact absurd (decide_eq_true rfl) (found transition member)
      | some other =>
          obtain ⟨otherMember, same⟩ := stores.key_eq found
          refine ⟨transition.key, ?_⟩
          rw [found, List.inj_on_of_nodup_map nodup otherMember member same.symm]

end Views

/-- A model that any sequence of calls has built has the same transitions in all views
exactly if no two created transitions have the same source, action name and target. -/
theorem consistent_iff {order : IterationOrder} {start model : TIOSTS}
    (blank : start.IsBlank) {calls : List Call}
    (returned : calls.foldlM Call.run start = .ok model) :
    Consistent order model ↔ ((calls.flatMap Call.created).map Transition.key).Nodup := by
  have stores := stores_of_calls blank returned
  rw [← @Stores.getTransitions_perm_iff order _ _ stores]
  constructor
  · intro consistent
    exact consistent.outTransitions.trans stores.outTransitions_perm
  · intro permutation
    constructor
    · exact permutation.trans stores.outTransitions_perm.symm
    · exact permutation.trans stores.inTransitions_perm.symm

namespace ViewsInstance

def order : IterationOrder := ⟨id, IterationOrder.id_perm⟩

/-- A transition from one location to the next. -/
def bounded (name guard : String) : Transition :=
  { Transition.bare "a" ⟨name, .input, []⟩ "b" with dataGuard := .written guard }

/-- Two locations and two transitions between them. -/
def calls (name : String) : List Call :=
  [.addLocation "a" false, .addLocation "b" false, .setInitialLocation "a",
    .createTransition (bounded "push" "x > 0"), .createTransition (bounded name "x < 0")]

end ViewsInstance

open ViewsInstance in
/-- Transitions on two actions are in all views. -/
theorem consistent_two_actions :
    ∃ model, (calls "pull").foldlM Call.run (TIOSTS.new "M") = .ok model ∧
      Consistent order model := by
  have ran : ((calls "pull").foldlM Call.run (TIOSTS.new "M")).toOption.isSome = true := by
    decide
  obtain ⟨model, returned⟩ := exists_ok ran
  refine ⟨model, returned, ?_⟩
  apply (consistent_iff ⟨rfl, rfl, rfl⟩ returned).mpr
  decide

open ViewsInstance in
/-- Of two guarded transitions on one action the map keeps the second only. -/
theorem inconsistent_one_action :
    ∃ model, (calls "push").foldlM Call.run (TIOSTS.new "M") = .ok model ∧
      model.outOf "a" = [bounded "push" "x > 0", bounded "push" "x < 0"] ∧
      model.getTransitions order = [bounded "push" "x < 0"] ∧ ¬ Consistent order model := by
  have ran : ((calls "push").foldlM Call.run (TIOSTS.new "M")).toOption.map (fun model =>
      decide ((model.outOf "a" = [bounded "push" "x > 0", bounded "push" "x < 0"] ∧
        model.getTransitions order = [bounded "push" "x < 0"]) ∧
          ((model.getLocations order).flatMap Location.outTransitions).length = 2)) =
            some true := by decide
  obtain ⟨model, returned, checked⟩ := exists_checked ran
  obtain ⟨⟨listed, stored⟩, counted⟩ := of_decide_eq_true checked
  refine ⟨model, returned, listed, stored, ?_⟩
  intro consistent
  have lengths := consistent.outTransitions.length_eq
  rw [stored, counted] at lengths
  cases lengths

end TIOSTS

end Symbolrt
