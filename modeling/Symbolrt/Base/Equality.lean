import Mathlib.Data.List.Sort
import Symbolrt.Base.Views

/-!
# What the comparison of two models sees

Two models are compared by their declarations, by their initial locations with all
transitions that leave and enter these, and for the rest by the printed collections of
their locations and transitions.  A printed location is its label and a printed transition
has no source and no target.
-/

namespace Symbolrt

/-- The text of a collection. -/
def printCollection (items : List String) : String :=
  "[" ++ ", ".intercalate items ++ "]"

/-- The name of the deadline. -/
def Deadline.text : Deadline → String
  | .lazy => "lazy"
  | .delayable => "delayable"
  | .eager => "eager"

namespace Action

/-- The parameter names with commas between them. -/
def parametersToString (action : Action) : String := ",".intercalate action.parameters

/-- The name with the sign of its direction and the parameters; an internal action has
neither. -/
def toString (action : Action) : String :=
  match action.type with
  | .input => action.name ++ "?(" ++ action.parametersToString ++ ")"
  | .output => action.name ++ "!(" ++ action.parametersToString ++ ")"
  | .internal => action.name

end Action

namespace Transition

/-- Both assignment texts as one. -/
def getAllAssignments (transition : Transition) : String :=
  match transition.clockAssignments, transition.dataAssignments with
  | none, none => ""
  | some clockAssignments, some dataAssignments =>
      dataAssignments ++ Constants.assignmentSeparator ++ clockAssignments
  | none, some dataAssignments => dataAssignments
  | some clockAssignments, none => clockAssignments

/-- The four lines of a printed transition. -/
def toString (transition : Transition) : String :=
  "[" ++ transition.getAllGuard ++ "]\n" ++
    "sync " ++ transition.action.toString ++ "\n" ++
    "do \x7b" ++ transition.getAllAssignments ++ "\x7d\n" ++
    transition.deadline.text

end Transition

/-- A location is printed as its label. -/
def Location.toString (location : Location) : String := location.label

namespace TIOSTS

/-- The object behind the reference to the initial location. -/
def getInitialLocation (model : TIOSTS) : Option Location :=
  model.initialLocation.bind model.getLocation

/-- Compares the names, then what each of the two models holds; a model without initial
condition or location throws. -/
def equals (order : IterationOrder) (model other : TIOSTS) : Except Failure Bool :=
  if model.name = other.name then do
    let initialCondition ← deref model.initialCondition
    if other.initialCondition.any initialCondition.equals then do
      let initialLocation ← deref model.getInitialLocation
      return other.getInitialLocation.any initialLocation.equals &&
        Location.equalLists TypedData.equals model.modelVariables other.modelVariables &&
        Location.equalLists TypedData.equals model.actionParameters other.actionParameters &&
        model.clocks == other.clocks &&
        Location.equalLists Action.equals model.inputActions other.inputActions &&
        Location.equalLists Action.equals model.outputActions other.outputActions &&
        Location.equalLists Action.equals model.internalActions other.internalActions &&
        printCollection ((model.getLocations order).map Location.toString) ==
          printCollection ((other.getLocations order).map Location.toString) &&
        printCollection ((model.getTransitions order).map Transition.toString) ==
          printCollection ((other.getTransitions order).map Transition.toString)
    else return false
  else return false

end TIOSTS

/-- Two transitions agree in everything that a transition is made of, where actions are
compared by their names. -/
structure Transition.Agrees (transition other : Transition) : Prop where
  source : transition.source = other.source
  dataGuard : transition.dataGuard.text = other.dataGuard.text
  clockGuard : transition.clockGuard = other.clockGuard
  action : transition.action.name = other.action.name
  dataAssignments : transition.dataAssignments = other.dataAssignments
  clockAssignments : transition.clockAssignments = other.clockAssignments
  deadline : transition.deadline = other.deadline
  target : transition.target = other.target

theorem Transition.equals_iff_agrees {transition other : Transition} :
    transition.equals other = true ↔ transition.Agrees other := by
  constructor
  · intro equal
    simp only [Transition.equals, Bool.and_eq_true, beq_iff_eq, DataGuard.equals,
      Action.equals] at equal
    obtain ⟨⟨⟨⟨⟨⟨⟨source, dataGuard⟩, clockGuard⟩, action⟩, deadline⟩, dataAssignments⟩,
      clockAssignments⟩, target⟩ := equal
    exact ⟨source, dataGuard, clockGuard, action, dataAssignments, clockAssignments, deadline,
      target⟩
  · intro agrees
    simp [Transition.equals, DataGuard.equals, Action.equals, agrees.source, agrees.dataGuard,
      agrees.clockGuard, agrees.action, agrees.deadline, agrees.dataAssignments,
      agrees.clockAssignments, agrees.target]

theorem Transition.Agrees.symm {transition other : Transition}
    (agrees : transition.Agrees other) : other.Agrees transition :=
  ⟨agrees.source.symm, agrees.dataGuard.symm, agrees.clockGuard.symm, agrees.action.symm,
    agrees.dataAssignments.symm, agrees.clockAssignments.symm, agrees.deadline.symm,
    agrees.target.symm⟩

namespace TIOSTS

/-- Every transition of the model that is selected occurs in the other model. -/
def Covers (selected : Transition → Prop) (model other : TIOSTS) : Prop :=
  ∀ label, ∀ transition ∈ model.outOf label, selected transition →
    ∃ further, further ∈ other.outOf label ∧ transition.Agrees further

/-- The two models have the same set of transitions. -/
def SameTransitions (model other : TIOSTS) : Prop :=
  Covers (fun _ => True) model other ∧ Covers (fun _ => True) other model

/-- The transition neither leaves nor enters the initial location. -/
def AwayFromInitial (model : TIOSTS) (transition : Transition) : Prop :=
  model.initialLocation ≠ some transition.source ∧
    model.initialLocation ≠ some transition.target

/-- The two models have the same transitions among those that neither leave nor enter the
initial location. -/
def SameAway (model other : TIOSTS) : Prop :=
  Covers model.AwayFromInitial model other ∧ Covers other.AwayFromInitial other model

/-- The lists of the locations hold the same transitions, each at its ends. -/
structure Linked (model : TIOSTS) : Prop where
  labelled : model.Labelled
  source_eq : ∀ {label transition}, transition ∈ model.outOf label →
    transition.source = label
  target_eq : ∀ {label transition}, transition ∈ model.inOf label →
    transition.target = label
  inOf_iff : ∀ {transition}, transition ∈ model.inOf transition.target ↔
    transition ∈ model.outOf transition.source

theorem Stores.linked {created : List Transition} {model : TIOSTS}
    (stores : Stores created model) : model.Linked := by
  constructor
  · exact stores.labelled
  · intro label transition member
    rw [stores.outOf] at member
    exact (of_decide_eq_true (List.mem_filter.mp member).2).symm
  · intro label transition member
    rw [stores.inOf] at member
    exact (of_decide_eq_true (List.mem_filter.mp member).2).symm
  · intro transition
    rw [stores.inOf, stores.outOf]
    simp

end TIOSTS

theorem Location.exists_of_equalLists {α : Type} {equal : α → α → Bool} {items others : List α}
    (same : Location.equalLists equal items others = true) :
    (∀ item ∈ items, ∃ other, other ∈ others ∧ equal item other = true) ∧
      ∀ other ∈ others, ∃ item, item ∈ items ∧ equal item other = true := by
  induction items generalizing others with
  | nil =>
      cases others with
      | nil => exact ⟨by simp, by simp⟩
      | cons other others => cases same
  | cons item items induction =>
      cases others with
      | nil => cases same
      | cons other others =>
          obtain ⟨here, rest⟩ := (Bool.and_eq_true _ _).mp same
          obtain ⟨forward, backward⟩ := induction rest
          constructor
          · intro further member
            rcases List.mem_cons.mp member with rfl | later
            · exact ⟨other, List.mem_cons_self, here⟩
            · obtain ⟨image, imageMember, equalImage⟩ := forward further later
              exact ⟨image, List.mem_cons_of_mem _ imageMember, equalImage⟩
          · intro further member
            rcases List.mem_cons.mp member with rfl | later
            · exact ⟨item, List.mem_cons_self, here⟩
            · obtain ⟨origin, originMember, equalOrigin⟩ := backward further later
              exact ⟨origin, List.mem_cons_of_mem _ originMember, equalOrigin⟩

namespace TIOSTS

section Equal

variable {order : IterationOrder} {model other : TIOSTS}

/-- Equal models have initial locations that are equal with all their transitions. -/
theorem initialLocations_of_equals (equal : model.equals order other = .ok true) :
    ∃ location further, model.getInitialLocation = some location ∧
      other.getInitialLocation = some further ∧ location.equals further = true := by
  unfold equals at equal
  split at equal
  · obtain ⟨initialCondition, _, rest⟩ := Symbolrt.bind_eq_ok.mp equal
    split at rest
    · obtain ⟨location, found, compared⟩ := Symbolrt.bind_eq_ok.mp rest
      have all := Except.ok.inj compared
      simp only [Bool.and_eq_true] at all
      obtain ⟨further, otherFound, same⟩ := (Option.any_eq_true _ _).mp all.1.1.1.1.1.1.1.1
      exact ⟨location, further, deref_eq_ok.mp found, otherFound, same⟩
    · cases rest
  · cases equal

/-- Equal models begin in locations of the same label, with the same transitions. -/
theorem initial_of_equals (linked : model.Linked) (otherLinked : other.Linked)
    (equal : model.equals order other = .ok true) :
    ∃ initial, model.initialLocation = some initial ∧ other.initialLocation = some initial ∧
      Location.equalLists Transition.equals (model.inOf initial) (other.inOf initial) = true ∧
      Location.equalLists Transition.equals (model.outOf initial) (other.outOf initial) =
        true := by
  obtain ⟨location, further, found, otherFound, same⟩ := initialLocations_of_equals equal
  obtain ⟨initial, isInitial, registered⟩ := Option.bind_eq_some_iff.mp found
  obtain ⟨otherInitial, isOtherInitial, otherRegistered⟩ := Option.bind_eq_some_iff.mp otherFound
  simp only [Location.equals, Bool.and_eq_true, beq_iff_eq] at same
  obtain ⟨⟨⟨_, labels⟩, incoming⟩, outgoing⟩ := same
  rw [linked.labelled registered, otherLinked.labelled otherRegistered] at labels
  subst labels
  refine ⟨initial, isInitial, isOtherInitial, ?_, ?_⟩
  · simpa [inOf, registered, otherRegistered] using incoming
  · simpa [outOf, registered, otherRegistered] using outgoing

/-- The transitions of the initial location occur in the other model. -/
theorem covers_of_away {initial : String} (linked : model.Linked)
    (otherLinked : other.Linked) (isInitial : model.initialLocation = some initial)
    (incoming : ∀ transition ∈ model.inOf initial,
      ∃ further, further ∈ other.inOf initial ∧ transition.Agrees further)
    (outgoing : ∀ transition ∈ model.outOf initial,
      ∃ further, further ∈ other.outOf initial ∧ transition.Agrees further)
    (away : Covers model.AwayFromInitial model other) :
    Covers (fun _ => True) model other := by
  intro label transition member _
  have source := linked.source_eq member
  by_cases leaves : transition.source = initial
  · rw [← source, leaves] at member ⊢
    exact outgoing transition member
  · by_cases enters : transition.target = initial
    · have listed : transition ∈ model.inOf initial := by
        rw [← enters, linked.inOf_iff, source]
        exact member
      obtain ⟨further, furtherMember, agrees⟩ := incoming transition listed
      refine ⟨further, ?_, agrees⟩
      rw [← otherLinked.target_eq furtherMember, otherLinked.inOf_iff, ← agrees.source,
        source] at furtherMember
      exact furtherMember
    · apply away label transition member
      rw [AwayFromInitial, isInitial]
      constructor
      · exact fun same => leaves (Option.some.inj same).symm
      · exact fun same => enters (Option.some.inj same).symm

/-- Models that are equal have the same transitions exactly if they have the same
transitions away from the initial location. -/
theorem sameTransitions_iff_of_equals (linked : model.Linked) (otherLinked : other.Linked)
    (equal : model.equals order other = .ok true) :
    SameTransitions model other ↔ SameAway model other := by
  constructor
  · intro same
    constructor
    · exact fun label transition member _ => same.1 label transition member trivial
    · exact fun label transition member _ => same.2 label transition member trivial
  · intro away
    obtain ⟨initial, isInitial, isOtherInitial, incoming, outgoing⟩ :=
      initial_of_equals linked otherLinked equal
    obtain ⟨incomingForward, incomingBackward⟩ := Location.exists_of_equalLists incoming
    obtain ⟨outgoingForward, outgoingBackward⟩ := Location.exists_of_equalLists outgoing
    constructor
    · apply covers_of_away linked otherLinked isInitial _ _ away.1
      · intro transition member
        obtain ⟨further, furtherMember, same⟩ := incomingForward transition member
        exact ⟨further, furtherMember, Transition.equals_iff_agrees.mp same⟩
      · intro transition member
        obtain ⟨further, furtherMember, same⟩ := outgoingForward transition member
        exact ⟨further, furtherMember, Transition.equals_iff_agrees.mp same⟩
    · apply covers_of_away otherLinked linked isOtherInitial _ _ away.2
      · intro transition member
        obtain ⟨further, furtherMember, same⟩ := incomingBackward transition member
        exact ⟨further, furtherMember, (Transition.equals_iff_agrees.mp same).symm⟩
      · intro transition member
        obtain ⟨further, furtherMember, same⟩ := outgoingBackward transition member
        exact ⟨further, furtherMember, (Transition.equals_iff_agrees.mp same).symm⟩

end Equal

namespace EqualityInstance

/-- A map that hands out its keys in alphabetical order. -/
def order : IterationOrder :=
  ⟨List.insertionSort (fun key other => decide (key ≤ other)), List.perm_insertionSort _⟩

/-- An input that leaves the idle location. -/
def push (last : String) : Transition := Transition.bare "Idle" ⟨"push", .input, []⟩ last

/-- A machine that is switched on and then pushed, which leads it into the given
location. -/
def machineCalls (last : String) : List Call :=
  [.addLocation "START" false, .addLocation "Idle" false, .addLocation "Busy" false,
    .setInitialLocation "START",
    .createTransition (Transition.bare "START" ⟨"init", .internal, []⟩ "Idle"),
    .createTransition (push last)]

/-- The machine that becomes busy and the machine that stays idle. -/
def machines : Except Failure (TIOSTS × TIOSTS) := do
  let busy ← (machineCalls "Busy").foldlM Call.run (TIOSTS.new "M")
  let idle ← (machineCalls "Idle").foldlM Call.run (TIOSTS.new "M")
  return (busy, idle)

theorem exists_machines : ∃ busy idle,
    (machineCalls "Busy").foldlM Call.run (TIOSTS.new "M") = .ok busy ∧
    (machineCalls "Idle").foldlM Call.run (TIOSTS.new "M") = .ok idle ∧ busy.Linked ∧ idle.Linked ∧
    busy.equals order idle = .ok true ∧ busy.outOf "Idle" = [push "Busy"] ∧
    idle.outOf "Idle" = [push "Idle"] := by
  have ran : machines.toOption.map (fun pair =>
      decide (pair.1.equals order pair.2 = .ok true ∧ pair.1.outOf "Idle" = [push "Busy"] ∧
        pair.2.outOf "Idle" = [push "Idle"])) = some true := by decide +kernel
  obtain ⟨⟨busy, idle⟩, returned, checked⟩ := exists_checked ran
  obtain ⟨first, busyReturned, rest⟩ := Symbolrt.bind_eq_ok.mp returned
  obtain ⟨second, idleReturned, pair⟩ := Symbolrt.bind_eq_ok.mp rest
  obtain ⟨rfl, rfl⟩ := Prod.mk.inj (Except.ok.inj pair)
  have blank : (TIOSTS.new "M").IsBlank := ⟨rfl, rfl, rfl⟩
  exact ⟨first, second, busyReturned, idleReturned, (stores_of_calls blank busyReturned).linked,
    (stores_of_calls blank idleReturned).linked, of_decide_eq_true checked⟩

end EqualityInstance

open EqualityInstance in
theorem sameTransitions_iff_of_equals_machines : ∃ busy idle,
    (machineCalls "Busy").foldlM Call.run (TIOSTS.new "M") = .ok busy ∧
      (machineCalls "Idle").foldlM Call.run (TIOSTS.new "M") = .ok idle ∧
      (SameTransitions busy idle ↔ SameAway busy idle) := by
  obtain ⟨busy, idle, busyReturned, idleReturned, linked, otherLinked, equal, _⟩ :=
    exists_machines
  refine ⟨busy, idle, busyReturned, idleReturned, ?_⟩
  exact sameTransitions_iff_of_equals linked otherLinked equal

open EqualityInstance in
/-- The machine that becomes busy and the one that stays idle compare as equal. -/
theorem equals_not_sameTransitions : ∃ busy idle,
    (machineCalls "Busy").foldlM Call.run (TIOSTS.new "M") = .ok busy ∧
      (machineCalls "Idle").foldlM Call.run (TIOSTS.new "M") = .ok idle ∧
      busy.equals order idle = .ok true ∧ ¬ SameTransitions busy idle := by
  obtain ⟨busy, idle, busyReturned, idleReturned, _, _, equal, busyOut, idleOut⟩ :=
    exists_machines
  refine ⟨busy, idle, busyReturned, idleReturned, equal, ?_⟩
  intro same
  obtain ⟨further, member, agrees⟩ := same.1 "Idle" (push "Busy") (by simp [busyOut]) trivial
  rw [idleOut, List.mem_singleton] at member
  have target := agrees.target
  rw [member] at target
  exact absurd target (by decide)

end TIOSTS

end Symbolrt
