import Symbolrt.Base.Views

/-!
# When a copy is the model again

A copy is made of the transitions in the map, with their actions looked up by name and
their clocks numbered anew.  It is the model again, up to the order of the transitions of
a location, if names and numbers are what the lookups give and no two transitions share a
key.  Distinct sources, action names and targets have distinct keys unless a `#` occurs
in one of them.
-/

namespace Symbolrt

namespace TIOSTS

/-- The transitions of the lists are told apart by source, action name and target. -/
def KeysIdentify (model : TIOSTS) : Prop :=
  ∀ label other, ∀ transition ∈ model.outOf label, ∀ further ∈ model.outOf other,
    transition.key = further.key → transition.source = further.source ∧
      transition.action.name = further.action.name ∧ transition.target = further.target

/-- The conditions on a model under which its copy is expected to be equal to it. -/
structure IsClonable (model : TIOSTS) : Prop where
  uniqueTransitions : model.UniqueTransitions
  uniqueNames : ∀ type, ((model.actionsOf type).map Action.name).Nodup
  declared : ∀ label, ∀ transition ∈ model.outOf label,
    transition.action ∈ model.actionsOf transition.action.type
  numberedClocks : model.NumberedClocks
  initial : ∃ label first, model.initialLocation = some label ∧ model.IsRegistered label ∧
    (∀ other, model.isInitial other = true ↔ other = label) ∧
    model.outOf label = [first] ∧ model.initialCondition = some first.dataGuard

/-- The copy has the declarations, locations and transitions of the model. -/
structure IsFaithfulCopy (model copy : TIOSTS) : Prop where
  name : copy.name = model.name
  initialCondition : copy.initialCondition = model.initialCondition
  modelVariables : copy.modelVariables = model.modelVariables
  actionParameters : copy.actionParameters = model.actionParameters
  clocks : copy.clocks = model.clocks
  actionsOf : ∀ type, copy.actionsOf type = model.actionsOf type
  initialLocation : copy.initialLocation = model.initialLocation
  isRegistered : ∀ label, copy.IsRegistered label ↔ model.IsRegistered label
  isInitial : ∀ label, copy.isInitial label = model.isInitial label
  outOf : ∀ label, (copy.outOf label).Perm (model.outOf label)
  inOf : ∀ label, (copy.inOf label).Perm (model.inOf label)

theorem key_toList (transition : Transition) : transition.key.toList =
    transition.source.toList ++ '#' :: (transition.action.name.toList ++
      '#' :: transition.target.toList) := by
  simp [Transition.key]

theorem key_inj {transition other : Transition}
    (source : '#' ∉ transition.source.toList) (otherSource : '#' ∉ other.source.toList)
    (name : '#' ∉ transition.action.name.toList) (otherName : '#' ∉ other.action.name.toList)
    (same : transition.key = other.key) : transition.source = other.source ∧
      transition.action.name = other.action.name ∧ transition.target = other.target := by
  have chars := congrArg String.toList same
  rw [key_toList, key_toList] at chars
  obtain ⟨sources, rest⟩ := Text.append_cons_inj_left source otherSource chars
  obtain ⟨names, targets⟩ := Text.append_cons_inj_left name otherName rest
  exact ⟨String.toList_injective sources, String.toList_injective names,
    String.toList_injective targets⟩

theorem keysIdentify_of_plain {model : TIOSTS}
    (plain : ∀ label, ∀ transition ∈ model.outOf label,
      '#' ∉ transition.source.toList ∧ '#' ∉ transition.action.name.toList) :
    model.KeysIdentify := by
  intro label other transition member further furtherMember
  obtain ⟨source, name⟩ := plain label transition member
  obtain ⟨furtherSource, furtherName⟩ := plain other further furtherMember
  exact key_inj source furtherSource name furtherName

section Copying

variable {order : IterationOrder} {created : List Transition} {model : TIOSTS}

theorem Stores.mem_outOf (stores : Stores created model) {transition : Transition} :
    transition ∈ created ↔ transition ∈ model.outOf transition.source := by
  rw [stores.outOf, List.mem_filter]
  constructor
  · exact fun member => ⟨member, decide_eq_true rfl⟩
  · exact And.left

theorem Stores.source_eq (stores : Stores created model) {label : String}
    {transition : Transition} (member : transition ∈ model.outOf label) :
    transition ∈ created ∧ transition.source = label := by
  rw [stores.outOf] at member
  obtain ⟨inCreated, same⟩ := List.mem_filter.mp member
  exact ⟨inCreated, (of_decide_eq_true same).symm⟩

/-- A list whose groups repeat no value repeats no pair of group and value. -/
theorem nodup_map_pair {α β γ : Type} [DecidableEq β] (group : α → β) (value : α → γ)
    {items : List α}
    (grouped : ∀ label, ((items.filter (fun item => label = group item)).map value).Nodup) :
    (items.map (fun item => (group item, value item))).Nodup := by
  induction items with
  | nil => exact List.nodup_nil
  | cons item items induction =>
      rw [List.map_cons, List.nodup_cons]
      constructor
      · intro repeated
        obtain ⟨other, member, same⟩ := List.mem_map.mp repeated
        have here := grouped (group item)
        have kept : (item :: items).filter (fun other => group item = group other) =
            item :: items.filter (fun other => group item = group other) := by simp
        rw [kept, List.map_cons] at here
        apply (List.nodup_cons.mp here).1
        have sameValue : value other = value item := congrArg Prod.snd same
        rw [← sameValue]
        apply List.mem_map_of_mem
        exact List.mem_filter.mpr ⟨member, decide_eq_true (congrArg Prod.fst same).symm⟩
      · apply induction
        intro label
        apply List.Nodup.sublist _ (grouped label)
        exact ((List.sublist_cons_self item items).filter _).map value

/-- No key is used twice if the keys identify the transitions of a model in which no two
of them share source, action name and target. -/
theorem Stores.keys_nodup_of_unique (stores : Stores created model)
    (unique : model.UniqueTransitions) (identify : model.KeysIdentify) :
    (created.map Transition.key).Nodup := by
  have triples : (created.map (fun transition : Transition =>
      (transition.source, (transition.action.name, transition.target)))).Nodup := by
    apply nodup_map_pair Transition.source
    intro label
    rw [← stores.outOf]
    exact unique label
  apply triples.of_map.map_on
  intro transition member other otherMember same
  apply List.inj_on_of_nodup_map triples member otherMember
  obtain ⟨source, name, target⟩ := identify _ _ transition (stores.mem_outOf.mp member) other
    (stores.mem_outOf.mp otherMember) same
  rw [source, name, target]

theorem recoverAction_self {action : Action} (declared : action ∈ model.actionsOf action.type)
    (unique : ((model.actionsOf action.type).map Action.name).Nodup) :
    model.recoverAction action = .ok action := by
  obtain ⟨recovered, found⟩ := recoverAction_isOk.mpr ⟨action, declared, rfl⟩
  obtain ⟨member, name, _⟩ := recoverAction_eq_ok found
  rw [found, List.inj_on_of_nodup_map unique member declared name]

theorem IsClonable.copied_eq (clonable : model.IsClonable) {label : String}
    {transition : Transition} (member : transition ∈ model.outOf label) :
    model.copied transition = transition := by
  have recovered := recoverAction_self (clonable.declared label transition member)
    (clonable.uniqueNames _)
  have numbered : transition.clockGuard.renumber model.clocks = transition.clockGuard :=
    ClockGuard.renumber_eq_self (fun simple inGuard =>
      (clonable.numberedClocks label transition member simple inGuard).2)
  rw [copied, numbered, recovered]
  rfl

theorem IsClonable.wellFormed (clonable : model.IsClonable) (stores : Stores created model) :
    model.WellFormed := by
  constructor
  · exact stores.labelled
  · exact fun member => (stores.source_eq member).2
  · exact fun member => (stores.registered _ (stores.source_eq member).1).2
  · exact fun member => exists_getAction (clonable.declared _ _ member)
  · intro label isInitialLocation
    obtain ⟨start, first, isStart, registered, flagged, _⟩ := clonable.initial
    rw [isStart] at isInitialLocation
    cases isInitialLocation
    obtain ⟨location, found⟩ := (model.isRegistered_iff _).mp registered
    refine ⟨location, found, ?_⟩
    have flag := (flagged label).mpr rfl
    rw [TIOSTS.isInitial, found] at flag
    exact flag
  · intro key transition found
    obtain ⟨member, same⟩ := stores.key_eq found
    exact ⟨same.symm, stores.mem_outOf.mp member⟩

theorem Stores.copiedTransitions_perm (stores : Stores created model)
    (clonable : model.IsClonable) (identify : model.KeysIdentify) :
    (model.copiedTransitions order).Perm created := by
  have unchanged : model.copiedTransitions order = model.getTransitions order := by
    rw [copiedTransitions]
    conv_rhs => rw [← List.map_id (model.getTransitions order)]
    apply List.map_congr_left
    intro transition member
    obtain ⟨key, found⟩ := (mem_getTransitions order model).mp member
    exact clonable.copied_eq (stores.mem_outOf.mp (stores.key_eq found).1)
  rw [unchanged]
  exact stores.getTransitions_perm_iff.mpr
    (stores.keys_nodup_of_unique clonable.uniqueTransitions identify)

/-- Only the location of that label is flagged as the initial one. -/
theorem Stores.flagged_label (stores : Stores created model) {label : String}
    (registered : model.IsRegistered label)
    (flagged : ∀ other, model.isInitial other = true ↔ other = label) :
    (((model.getLocations order).filter Location.isInitialLocation).getLast?).map
      Location.label = some label := by
  obtain ⟨location, found⟩ := (model.isRegistered_iff _).mp registered
  have isLabel : location.label = label := stores.labelled found
  have flag := (flagged label).mpr rfl
  rw [TIOSTS.isInitial, found] at flag
  have listed : location ∈ (model.getLocations order).filter Location.isInitialLocation :=
    List.mem_filter.mpr ⟨(mem_getLocations order model).mpr ⟨label, found⟩, flag⟩
  cases last : ((model.getLocations order).filter Location.isInitialLocation).getLast? with
  | none =>
      rw [List.getLast?_eq_none_iff.mp last] at listed
      cases listed
  | some other =>
      obtain ⟨member, otherFlag⟩ := List.mem_filter.mp (List.mem_of_getLast? last)
      have isInitial : model.isInitial other.label = true := by
        rw [TIOSTS.isInitial, stores.getLocation member]
        exact otherFlag
      exact congrArg some ((flagged other.label).mp isInitial)

/-- The copy of a clonable model is the model again. -/
theorem Stores.clone_faithful (stores : Stores created model) (clonable : model.IsClonable)
    (identify : model.KeysIdentify) :
    ∃ copy, model.clone order = .ok copy ∧ IsFaithfulCopy model copy := by
  obtain ⟨copy, returned, isCopy⟩ := clone_isExactCopy order (clonable.wellFormed stores)
  have permutation := @Stores.copiedTransitions_perm order _ _ stores clonable identify
  obtain ⟨start, first, isStart, registered, flagged, only, condition⟩ := clonable.initial
  refine ⟨copy, returned, ?_⟩
  constructor
  · exact isCopy.name
  · rw [isCopy.initialCondition]
    cases last : ((model.copiedTransitions order).filter
        (fun transition => model.isInitial transition.source)).getLast? with
    | none => rfl
    | some transition =>
        obtain ⟨member, initial⟩ := List.mem_filter.mp (List.mem_of_getLast? last)
        have isOnly := stores.mem_outOf.mp (permutation.mem_iff.mp member)
        rw [(flagged _).mp initial, only] at isOnly
        rw [condition, List.mem_singleton.mp isOnly]
        rfl
  · exact isCopy.modelVariables
  · exact isCopy.actionParameters
  · exact isCopy.clocks
  · exact isCopy.actionsOf
  · rw [isCopy.initialLocation, stores.flagged_label registered flagged, isStart]
  · exact isCopy.isRegistered
  · exact isCopy.isInitial
  · intro label
    rw [isCopy.outOf, stores.outOf]
    exact permutation.filter _
  · intro label
    rw [isCopy.inOf, stores.inOf]
    exact permutation.filter _

end Copying

/-- Whatever calls have built a clonable model, its copy is the model again. -/
theorem clone_isFaithfulCopy {order : IterationOrder} {start model : TIOSTS}
    (blank : start.IsBlank) {calls : List Call}
    (returned : calls.foldlM Call.run start = .ok model) (clonable : model.IsClonable)
    (identify : model.KeysIdentify) :
    ∃ copy, model.clone order = .ok copy ∧ IsFaithfulCopy model copy :=
  (stores_of_calls blank returned).clone_faithful clonable identify

namespace CopyInstance

def order : IterationOrder := ⟨id, IterationOrder.id_perm⟩

def declared (name : String) : TIOSTS :=
  declare "M" [⟨"i", .internal, []⟩, ⟨"push", .input, []⟩, ⟨name, .input, []⟩] [] [] ["x"]

def guarded (clockGuard : ClockGuard) (transition : Transition) : Transition :=
  { transition with clockGuard := clockGuard }

/-- The clock guard `x <= 5`. -/
def bound : ClockGuard := ⟨[⟨1, "x", .leq, "5", isName_x, isNumeral_five⟩]⟩

/-- The transitions from the start to `a`, and from `a` and another location to `d`. -/
def created (source name : String) : List Transition :=
  [Transition.bare "s" ⟨"i", .internal, []⟩ "a",
    guarded bound (Transition.bare "a" ⟨name, .input, []⟩ "d"),
    Transition.bare source ⟨"push", .input, []⟩ "d"]

def calls (source name : String) : List Call :=
  ["s", "a", source, "d"].map (Call.addLocation · false) ++ [.setInitialLocation "s"] ++
    (created source name).map .createTransition

def start : Transition := Transition.bare "s" ⟨"i", .internal, []⟩ "a"

/-- What makes a model that was built by the calls clonable. -/
def isChecked (source name : String) (model : TIOSTS) : Bool :=
  decide ((∀ label ∈ model.locations.keys, model.isInitial label = true ↔ label = "s") ∧
    (model.initialLocation = some "s" ∧ "s" ∈ model.locations.keys ∧
      model.outOf "s" = [start] ∧ model.initialCondition = some start.dataGuard) ∧
    (∀ type ∈ [ActionType.input, .internal, .output],
      ((model.actionsOf type).map Action.name).Nodup) ∧
    (∀ transition ∈ created source name,
      transition.action ∈ model.actionsOf transition.action.type ∧
      ∀ simple ∈ transition.clockGuard.clockGuard, simple.clock ∈ model.clocks ∧
        simple.clockId = model.getClockId simple.clock) ∧
    ((created source name).map (fun transition =>
      (transition.source, (transition.action.name, transition.target)))).Nodup)

theorem isClonable {source name : String} {model : TIOSTS}
    (stores : Stores (created source name) model) (checked : isChecked source name model = true) :
    model.IsClonable := by
  obtain ⟨flags, ⟨isStart, registered, only, condition⟩, names, declared, triples⟩ :=
    of_decide_eq_true checked
  constructor
  · intro label
    rw [stores.outOf]
    apply List.Nodup.of_map (fun pair => (label, pair))
    rw [List.map_map]
    have sub := (List.filter_sublist (p := fun transition => label = Transition.source transition)
      (l := created source name)).map (fun transition =>
        (transition.source, (transition.action.name, transition.target)))
    have nodup := List.Nodup.sublist sub triples
    rw [List.map_congr_left] at nodup
    · exact nodup
    · intro transition member
      have same := of_decide_eq_true (List.mem_filter.mp member).2
      rw [← same]
      rfl
  · intro type
    cases type with
    | input => exact names _ (by decide)
    | internal => exact names _ (by decide)
    | output => exact names _ (by decide)
  · exact fun label transition member => (declared transition (stores.source_eq member).1).1
  · exact fun label transition member => (declared transition (stores.source_eq member).1).2
  · refine ⟨"s", start, isStart, AList.mem_keys.mpr registered, ?_, only, condition⟩
    intro other
    by_cases known : model.IsRegistered other
    · exact flags other (AList.mem_keys.mp known)
    · constructor
      · intro flagged
        apply absurd _ known
        rw [isRegistered_iff]
        cases found : model.getLocation other with
        | none =>
            rw [isInitial, found] at flagged
            cases flagged
        | some location => exact ⟨location, rfl⟩
      · rintro rfl
        exact absurd (AList.mem_keys.mpr registered) known

end CopyInstance

open CopyInstance in
theorem clone_isFaithfulCopy_bounded :
    ∃ model copy, (calls "b" "pull").foldlM Call.run (declared "pull") = .ok model ∧
      model.clone order = .ok copy ∧ IsFaithfulCopy model copy := by
  have blank : (declared "pull").IsBlank := declare_isBlank _ _ _ _ _
  obtain ⟨model, returned, checked⟩ := exists_checked
    (show ((calls "b" "pull").foldlM Call.run (declared "pull")).toOption.map
      (isChecked "b" "pull") = some true by decide)
  have stores : Stores (created "b" "pull") model := stores_of_calls blank returned
  have plain : ∀ transition ∈ created "b" "pull",
      '#' ∉ transition.source.toList ∧ '#' ∉ transition.action.name.toList := by decide
  have identify : model.KeysIdentify := keysIdentify_of_plain
    (fun label transition member => plain transition (stores.source_eq member).1)
  obtain ⟨copy, copied, faithful⟩ :=
    @clone_isFaithfulCopy order _ _ blank _ returned (isClonable stores checked) identify
  exact ⟨model, copy, returned, copied, faithful⟩

open CopyInstance in
/-- Two transitions whose names contain the separator have one key, and only the second
one is copied. -/
theorem clone_not_faithful :
    ¬ ∀ (order : IterationOrder) (start model : TIOSTS) (calls : List Call), start.IsBlank →
      calls.foldlM Call.run start = .ok model → model.IsClonable →
      ∃ copy, model.clone order = .ok copy ∧ IsFaithfulCopy model copy := by
  intro claimed
  have blank : (declared "b#push").IsBlank := declare_isBlank _ _ _ _ _
  obtain ⟨model, returned, both⟩ := exists_checked
    (show ((calls "a#b" "b#push").foldlM Call.run (declared "b#push")).toOption.map
      (fun model => isChecked "a#b" "b#push" model && decide ((model.outOf "a").length = 1 ∧
        (model.clone order).toOption.map (fun copy => copy.outOf "a") = some [])) =
          some true by decide)
  obtain ⟨checked, counted⟩ := Bool.and_eq_true_iff.mp both
  obtain ⟨kept, lost⟩ := of_decide_eq_true counted
  have stores : Stores (created "a#b" "b#push") model := stores_of_calls blank returned
  obtain ⟨copy, copied, faithful⟩ :=
    claimed order _ model _ blank returned (isClonable stores checked)
  rw [copied] at lost
  have none : copy.outOf "a" = [] := Option.some.inj lost
  have lengths := (faithful.outOf "a").length_eq
  rw [none, kept] at lengths
  cases lengths

end TIOSTS

end Symbolrt
