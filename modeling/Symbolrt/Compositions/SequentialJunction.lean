import Symbolrt.Compositions.SequentialCorrectness

/-!
# The junction of a sequential composition

The composition should be made at the only transition of the first model that carries the
action of the entry transition, and be rejected if there is no such transition or more
than one.  The flag of the search is declared inside its loop, so nothing is ever
rejected: without a transition the search returns null, and of several it returns the
last one that the map hands out.
-/

namespace Symbolrt

/-- The result is not the exception of incompatible models. -/
def NotIncompatible {α : Type} (result : Except Failure α) : Prop :=
  ∀ message, result ≠ .error (.incompatibleCompositionalOperation message)

namespace NotIncompatible

variable {α β : Type}

theorem ok (value : α) : NotIncompatible (.ok value : Except Failure α) := by
  intro message impossible
  cases impossible

theorem nullPointer : NotIncompatible (.error .nullPointer : Except Failure α) := by
  intro message impossible
  cases impossible

theorem indexOutOfBounds : NotIncompatible (.error .indexOutOfBounds : Except Failure α) := by
  intro message impossible
  cases impossible

theorem deref (reference : Option α) : NotIncompatible (deref reference) := by
  cases reference with
  | none => exact nullPointer
  | some value => exact ok value

theorem bind {step : Except Failure α} {next : α → Except Failure β}
    (first : NotIncompatible step) (rest : ∀ value, NotIncompatible (next value)) :
    NotIncompatible (step >>= next) := by
  cases step with
  | ok value => exact rest value
  | error failure =>
      intro message thrown
      exact first message (congrArg Except.error (Except.error.inj thrown))

theorem foldlM {step : β → α → Except Failure β}
    (each : ∀ state item, NotIncompatible (step state item)) (items : List α) (state : β) :
    NotIncompatible (items.foldlM step state) := by
  induction items generalizing state with
  | nil => exact ok state
  | cons item items induction =>
      rw [List.foldlM_cons]
      exact bind (each state item) induction

end NotIncompatible

namespace TIOSTS

theorem recoverAction_notIncompatible (model : TIOSTS) (action : Action) :
    NotIncompatible (model.recoverAction action) := by
  intro message thrown
  cases recoverAction_eq_error thrown

theorem firstOut_notIncompatible (model : TIOSTS) (label : String) :
    NotIncompatible (model.firstOut label) := by
  unfold firstOut
  cases model.outOf label with
  | nil => exact .indexOutOfBounds
  | cons first rest => exact .ok first

theorem firstIn_notIncompatible (model : TIOSTS) (label : String) :
    NotIncompatible (model.firstIn label) := by
  unfold firstIn
  cases model.inOf label with
  | nil => exact .indexOutOfBounds
  | cons first rest => exact .ok first

theorem create_notIncompatible (model : TIOSTS) (transition : Transition) :
    NotIncompatible (model.create transition) := by
  apply NotIncompatible.bind (.deref _)
  intro source
  apply NotIncompatible.bind (.deref _)
  exact fun target => .ok _

theorem cloneTransition_notIncompatible (clone : TIOSTS) (transition : Transition) :
    NotIncompatible (clone.cloneTransition transition) := by
  apply NotIncompatible.bind (recoverAction_notIncompatible _ _)
  intro action
  apply NotIncompatible.bind (.deref _)
  intro clockGuard
  apply NotIncompatible.bind (.deref _)
  intro source
  apply NotIncompatible.bind (.deref _)
  exact fun target => .ok _

theorem clone_notIncompatible (order : IterationOrder) (model : TIOSTS) :
    NotIncompatible (model.clone order) :=
  .foldlM cloneTransition_notIncompatible _ _

/-- The transitions of the map do not depend on the order in which it hands them out. -/
theorem getTransitions_perm_values (order : IterationOrder) (model : TIOSTS) :
    (model.getTransitions order).Perm (model.transitions.entries.map Sigma.snd) := by
  have values : model.transitions.keys.filterMap (fun key => model.transitions.lookup key) =
      model.transitions.entries.map Sigma.snd := by
    rw [AList.keys, List.keys, List.filterMap_map, ← List.filterMap_eq_map]
    apply List.filterMap_congr
    intro entry member
    exact AList.mem_lookup_iff.mpr member
  rw [getTransitions, ← values]
  exact (order.arrange_perm _).filterMap _

end TIOSTS

namespace SequentialComposition

/-- The transitions of the model that carry the action of the given name. -/
def carrying (model : TIOSTS) (name : String) : List Transition :=
  (model.transitions.entries.map Sigma.snd).filter
    (fun transition => transition.action.name = name)

/-- The second model has an initial transition that is followed by the entry transition,
as its copy shows them. -/
structure HasEntry (order : IterationOrder) (model2 : TIOSTS) (entry : Transition) : Prop where
  found : ∃ tiosts2 start init, model2.clone order = .ok tiosts2 ∧
    tiosts2.initialLocation = some start ∧ tiosts2.firstOut start = .ok init ∧
    tiosts2.firstOut init.target = .ok entry

/-- The other transitions, with the end that is looked for renamed, join locations of the
result. -/
structure Junction.Connects (junction : Junction) (order : IterationOrder) : Prop where
  intoFirst : ∀ transition ∈ junction.others1 order,
    transition.target = junction.tc1.source → transition.source ∈ junction.labels order
  first : ∀ transition ∈ junction.others1 order, transition.target ≠ junction.tc1.source →
    transition.target ∈ junction.labels order ∧
      (transition.source ≠ junction.tc1.source → transition.source ∈ junction.labels order)
  fromSecond : ∀ transition ∈ junction.others2 order,
    transition.source = junction.t02.target → transition.target ∈ junction.labels order
  second : ∀ transition ∈ junction.others2 order, transition.source ≠ junction.t02.target →
    transition.source ∈ junction.labels order ∧
      (transition.target ≠ junction.t02.target → transition.target ∈ junction.labels order)

instance (junction : Junction) (order : IterationOrder) : Decidable (junction.Connects order) :=
  decidable_of_iff (_ ∧ _ ∧ _ ∧ _)
    ⟨fun ⟨intoFirst, first, fromSecond, second⟩ => ⟨intoFirst, first, fromSecond, second⟩,
      fun ⟨intoFirst, first, fromSecond, second⟩ => ⟨intoFirst, first, fromSecond, second⟩⟩

/-- The composition is rejected unless one transition carries the action of the entry
transition, and returns a model merged at this transition if there is just one. -/
structure ChecksJunction (order : IterationOrder) (model1 model2 : TIOSTS)
    (entry : Transition) : Prop where
  rejects : (carrying model1 entry.action.name).length ≠ 1 →
    ∃ message, sequentialComposition order model1 model2 =
      .error (.incompatibleCompositionalOperation message)
  composes : ∀ transition, carrying model1 entry.action.name = [transition] →
    ∃ junction result, IsJunction order model1 model2 junction ∧ junction.t02 = entry ∧
      junction.tc1 = model1.copied transition ∧
      sequentialComposition order model1 model2 = .ok result ∧
      junction.merged ∈ result.outOf junction.source

section Search

variable {order : IterationOrder} {model1 model2 : TIOSTS}

theorem initializeResult_notIncompatible (tiosts1 tiosts2 : TIOSTS) (tc1 t02 : Transition) :
    NotIncompatible (initializeResult order tiosts1 tiosts2 tc1 t02) := by
  apply NotIncompatible.bind (TIOSTS.firstIn_notIncompatible _ _)
  exact fun start2 => .ok _

/-- No pair of models is ever rejected as incompatible. -/
theorem sequentialComposition_notIncompatible (model1 model2 : TIOSTS) :
    NotIncompatible (sequentialComposition order model1 model2) := by
  apply NotIncompatible.bind (TIOSTS.clone_notIncompatible _ _)
  intro tiosts1
  apply NotIncompatible.bind (TIOSTS.clone_notIncompatible _ _)
  intro tiosts2
  apply NotIncompatible.bind (.deref _)
  intro start2
  apply NotIncompatible.bind (TIOSTS.firstOut_notIncompatible _ _)
  intro init2
  apply NotIncompatible.bind (TIOSTS.firstOut_notIncompatible _ _)
  intro t02
  apply NotIncompatible.bind (.deref _)
  intro tc1
  apply NotIncompatible.bind (initializeResult_notIncompatible _ _ _ _)
  intro result
  apply NotIncompatible.bind (.deref _)
  intro initialCondition
  apply NotIncompatible.bind (TIOSTS.recoverAction_notIncompatible _ _)
  intro action
  apply NotIncompatible.bind (TIOSTS.create_notIncompatible _ _)
  intro merged
  apply NotIncompatible.bind
  · exact .foldlM (fun result transition => TIOSTS.create_notIncompatible _ _) _ _
  · exact fun result => .foldlM (fun result transition => TIOSTS.create_notIncompatible _ _) _ _

/-- The search in a copy finds the copy of the only transition that carries the action. -/
theorem getCompositionTransition_of_single {tiosts1 : TIOSTS} {name : String}
    {transition : Transition} (isCopy : TIOSTS.IsExactCopy order model1 tiosts1)
    (only : carrying model1 name = [transition]) :
    getCompositionTransition (tiosts1.getTransitions order) name =
      some (model1.copied transition) := by
  have copies : (tiosts1.getTransitions order).Perm
      ((model1.transitions.entries.map Sigma.snd).map model1.copied) :=
    (copy_transitions_perm isCopy).trans ((model1.getTransitions_perm_values order).map _)
  have found := copies.filter (fun transition => decide (transition.action.name = name))
  have named : (fun transition : Transition => decide (transition.action.name = name)) ∘
      model1.copied = fun transition => decide (transition.action.name = name) := by
    funext transition
    rw [Function.comp_apply, TIOSTS.copied_actionName]
  rw [List.filter_map, named] at found
  rw [carrying] at only
  rw [only] at found
  rw [getCompositionTransition, recoverTransition_eq, List.perm_singleton.mp found]
  rfl

/-- The initial transition of a copy sets the initial condition. -/
theorem exists_initialCondition {model copy : TIOSTS} {start : String} {init : Transition}
    (wellFormed : model.WellFormed) (isCopy : TIOSTS.IsExactCopy order model copy)
    (initial : copy.initialLocation = some start) (first : copy.firstOut start = .ok init) :
    ∃ initialCondition, copy.initialCondition = some initialCondition := by
  rw [isCopy.initialLocation, Option.map_eq_some_iff] at initial
  obtain ⟨location, last, rfl⟩ := initial
  obtain ⟨member, flagged⟩ := List.mem_filter.mp (List.mem_of_getLast? last)
  obtain ⟨label, registered⟩ := (TIOSTS.mem_getLocations order model).mp member
  have leaves := firstOut_mem first
  rw [isCopy.outOf] at leaves
  obtain ⟨listed, source⟩ := List.mem_filter.mp leaves
  have isInitial : model.isInitial init.source = true := by
    rw [← of_decide_eq_true source, wellFormed.label_eq registered, TIOSTS.isInitial,
      registered]
    exact flagged
  have kept : init ∈ (model.copiedTransitions order).filter
      (fun transition => model.isInitial transition.source) :=
    List.mem_filter.mpr ⟨listed, isInitial⟩
  rw [isCopy.initialCondition]
  cases found : ((model.copiedTransitions order).filter
      (fun transition => model.isInitial transition.source)).getLast? with
  | none =>
      rw [List.getLast?_eq_none_iff] at found
      rw [found] at kept
      cases kept
  | some transition => exact ⟨transition.dataGuard, rfl⟩

/-- The composition is made at the only transition that carries the action. -/
theorem exists_junction_of_single {entry transition : Transition}
    (wellFormed1 : model1.WellFormed) (wellFormed2 : model2.WellFormed)
    (hasEntry : HasEntry order model2 entry)
    (only : carrying model1 entry.action.name = [transition]) :
    ∃ junction, IsJunction order model1 model2 junction ∧ junction.t02 = entry ∧
      junction.tc1 = model1.copied transition := by
  obtain ⟨tiosts2, start, init, copied2, initial, first, second⟩ := hasEntry.found
  obtain ⟨tiosts1, copied1, isCopy1⟩ := TIOSTS.clone_isExactCopy order wellFormed1
  obtain ⟨other, otherCopied, isCopy2⟩ := TIOSTS.clone_isExactCopy order wellFormed2
  obtain rfl : tiosts2 = other := Except.ok.inj (copied2.symm.trans otherCopied)
  have merged := getCompositionTransition_of_single isCopy1 only
  obtain ⟨initialCondition, condition⟩ := exists_initialCondition wellFormed2 isCopy2 initial first
  have entered : ∃ start2, tiosts2.firstIn entry.source = .ok start2 := by
    have leaves := mem_getTransitions_of_outOf isCopy2 (firstOut_mem first)
    have target := (copy_transition isCopy2 leaves.1).2.1
    rw [← (mem_getTransitions_of_outOf isCopy2 (firstOut_mem second)).2] at target
    cases listed : tiosts2.inOf entry.source with
    | nil =>
        rw [listed] at target
        cases target
    | cons first rest => exact ⟨first, firstIn_eq_ok.mpr ⟨rest, listed⟩⟩
  obtain ⟨start2, firstIn⟩ := entered
  let found : Junction := ⟨tiosts1, tiosts2, init, entry, model1.copied transition, start2,
    initialCondition, (model1.copied transition).action⟩
  have recovered : ∃ action,
      (found.located order).recoverAction (model1.copied transition).action = .ok action := by
    apply TIOSTS.recoverAction_isOk.mpr
    have member : model1.copied transition ∈ tiosts1.getTransitions order := by
      rw [getCompositionTransition, recoverTransition_eq] at merged
      exact (List.mem_filter.mp (List.mem_of_getLast? merged)).1
    obtain ⟨action, declared⟩ :=
      isCopy1.wellFormed.action_declared (copy_transition isCopy1 member).1
    obtain ⟨listed, _, name⟩ := TIOSTS.getAction_eq_some declared
    refine ⟨action, ?_, name⟩
    rw [found.located_actionsOf]
    cases type : (model1.copied transition).action.type with
    | input =>
        rw [type] at listed
        exact List.mem_append_left _ listed
    | output =>
        rw [type] at listed
        exact List.mem_append_left _ listed
    | internal =>
        rw [type] at listed
        exact listed
  obtain ⟨action, recovered⟩ := recovered
  refine ⟨{ found with action := action }, ?_, rfl, rfl⟩
  exact ⟨copied1, copied2, ⟨start, initial, first⟩, second, merged, firstIn, condition, recovered⟩

theorem Junction.labels_merged (junction : Junction) (order : IterationOrder) :
    junction.source ∈ junction.labels order ∧ junction.target ∈ junction.labels order := by
  constructor
  · exact List.mem_append_left _ (List.mem_append_right _ List.mem_cons_self)
  · exact List.mem_append_right _ List.mem_cons_self

theorem Junction.rewired1_joins_iff (junction : Junction) (transition : Transition) :
    ((junction.rewired1 transition).source ∈ junction.labels order ∧
      (junction.rewired1 transition).target ∈ junction.labels order) ↔
      (transition.target = junction.tc1.source → transition.source ∈ junction.labels order) ∧
        (transition.target ≠ junction.tc1.source →
          transition.target ∈ junction.labels order ∧
            (transition.source ≠ junction.tc1.source →
              transition.source ∈ junction.labels order)) := by
  have inLabels := (junction.labels_merged order).1
  rw [rewired1]
  generalize isChanged : transition.changeParameters junction.action
    junction.t02.action.parameters = changed
  have source : changed.source = transition.source := by
    rw [← isChanged]
    rfl
  have target : changed.target = transition.target := by
    rw [← isChanged]
    rfl
  rw [rewireFirst, source, target]
  by_cases into : transition.target = junction.tc1.source
  · simp [into, inLabels]
  · by_cases outOf : transition.source = junction.tc1.source
    · simp [into, outOf, inLabels]
    · simp [into, outOf, source, target, and_comm]

theorem Junction.rewired2_joins_iff (junction : Junction) (transition : Transition) :
    ((junction.rewired2 transition).source ∈ junction.labels order ∧
      (junction.rewired2 transition).target ∈ junction.labels order) ↔
      (transition.source = junction.t02.target → transition.target ∈ junction.labels order) ∧
        (transition.source ≠ junction.t02.target →
          transition.source ∈ junction.labels order ∧
            (transition.target ≠ junction.t02.target →
              transition.target ∈ junction.labels order)) := by
  have inLabels := (junction.labels_merged order).2
  rw [rewired2, rewireSecond]
  by_cases outOf : transition.source = junction.t02.target
  · rw [if_pos outOf]
    simp [outOf, inLabels]
  · rw [if_neg outOf]
    by_cases into : transition.target = junction.t02.target
    · rw [if_pos into]
      simp [outOf, into, inLabels]
    · rw [if_neg into]
      simp [outOf, into]

/-- The composition returns exactly if the other transitions join locations of the result. -/
theorem returned_iff_connects {junction : Junction}
    (isJunction : IsJunction order model1 model2 junction) :
    (∃ result, sequentialComposition order model1 model2 = .ok result) ↔
      junction.Connects order := by
  rw [returned_iff isJunction, Junction.created, List.forall_mem_append, List.forall_mem_cons,
    List.forall_mem_map, List.forall_mem_map]
  simp only [junction.rewired1_joins_iff, junction.rewired2_joins_iff]
  constructor
  · rintro ⟨⟨_, first⟩, second⟩
    constructor
    · exact fun transition member => (first transition member).1
    · exact fun transition member => (first transition member).2
    · exact fun transition member => (second transition member).1
    · exact fun transition member => (second transition member).2
  · rintro ⟨intoFirst, first, fromSecond, second⟩
    refine ⟨⟨junction.labels_merged order, ?_⟩, ?_⟩
    · exact fun transition member => ⟨intoFirst transition member, first transition member⟩
    · exact fun transition member => ⟨fromSecond transition member, second transition member⟩

end Search

/-- The rule about the junction is kept exactly if one transition of the first model
carries the action of the entry transition, and the other transitions join locations of the
result. -/
theorem checksJunction_iff {order : IterationOrder} {model1 model2 : TIOSTS}
    {entry : Transition} (wellFormed1 : model1.WellFormed) (wellFormed2 : model2.WellFormed)
    (hasEntry : HasEntry order model2 entry) :
    ChecksJunction order model1 model2 entry ↔
      (carrying model1 entry.action.name).length = 1 ∧
        ∃ junction, IsJunction order model1 model2 junction ∧ junction.Connects order := by
  constructor
  · intro checks
    have one : (carrying model1 entry.action.name).length = 1 := by
      by_contra several
      obtain ⟨message, thrown⟩ := checks.rejects several
      exact sequentialComposition_notIncompatible model1 model2 message thrown
    obtain ⟨transition, only⟩ := List.length_eq_one_iff.mp one
    obtain ⟨junction, result, isJunction, _, _, returned, _⟩ := checks.composes transition only
    exact ⟨one, junction, isJunction, (returned_iff_connects isJunction).mp ⟨result, returned⟩⟩
  · rintro ⟨one, found, isFound, connects⟩
    constructor
    · exact fun several => absurd one several
    · intro transition only
      obtain ⟨junction, isJunction, isEntry, isMerged⟩ :=
        exists_junction_of_single wellFormed1 wellFormed2 hasEntry only
      obtain ⟨result, returned⟩ := (returned_iff_connects isFound).mpr connects
      refine ⟨junction, result, isJunction, isEntry, isMerged, returned, ?_⟩
      rw [returned_outOf isJunction returned]
      exact List.mem_filter.mpr ⟨List.mem_cons_self, decide_eq_true rfl⟩

namespace JunctionInstance

def ok (source target : String) : Transition := .bare source ⟨"ok", .output, ["p"]⟩ target

/-- A model whose answer may lead to two locations. -/
def twice : List Transition := [ok "a" "e"]

/-- The entry transition of the second model. -/
def entry : Transition := .bare "c" ⟨"ok", .input, ["q"]⟩ "d"

def findEntry (order : IterationOrder) (model2 : TIOSTS) : Except Failure Transition := do
  let tiosts2 ← model2.clone order
  let start ← deref tiosts2.initialLocation
  let init ← tiosts2.firstOut start
  tiosts2.firstOut init.target

theorem hasEntry : HasEntry order model2 entry := by
  have ran : (findEntry order model2).toOption.map (fun found => decide (found = entry)) =
      some true := by decide
  obtain ⟨found, searched, checked⟩ := exists_checked ran
  obtain rfl := of_decide_eq_true checked
  obtain ⟨tiosts2, copied, rest⟩ := Symbolrt.bind_eq_ok.mp searched
  obtain ⟨start, initial, rest⟩ := Symbolrt.bind_eq_ok.mp rest
  obtain ⟨init, first, second⟩ := Symbolrt.bind_eq_ok.mp rest
  exact ⟨tiosts2, start, init, copied, deref_eq_ok.mp initial, first, second⟩

end JunctionInstance

open JunctionInstance in
/-- A model that answers once is composed where it answers. -/
theorem checksJunction_once : ChecksJunction order (model1 roundTrip) model2 entry := by
  have ran : (findJunction order (model1 roundTrip) model2).toOption.map (fun junction =>
      decide (junction.Connects order)) = some true := by decide
  obtain ⟨junction, found, checked⟩ := exists_checked ran
  apply (checksJunction_iff (wellFormed1 roundTrip (by decide)) wellFormed2 hasEntry).mpr
  exact ⟨by decide, junction, isJunction_of_findJunction found, of_decide_eq_true checked⟩

open JunctionInstance in
/-- A model whose answer may lead to two locations is composed instead of rejected. -/
theorem sequentialComposition_not_rejected :
    HasEntry order model2 entry ∧ (carrying (model1 twice) entry.action.name).length = 2 ∧
      (∃ result, sequentialComposition order (model1 twice) model2 = .ok result) ∧
      ¬ ChecksJunction order (model1 twice) model2 entry := by
  have two : (carrying (model1 twice) entry.action.name).length = 2 := by decide
  refine ⟨hasEntry, two, exists_ok (by decide), ?_⟩
  intro checks
  obtain ⟨message, thrown⟩ := checks.rejects (by rw [two]; decide)
  exact sequentialComposition_notIncompatible _ _ message thrown

end SequentialComposition

end Symbolrt
