import Symbolrt.Compositions.CompletionConservation

/-!
# When the completion of the inputs throws

The clock guard of every guarded input transition is negated.  That fails for more than
one constraint, for an equality and for a relation that is none of the documented ones,
but also for no constraint: a transition with a data guard only is negated like the others.
-/

namespace Symbolrt

/-- A single constraint with one of the four negatable relations. -/
def ClockGuard.IsNegatable (guard : ClockGuard) : Prop :=
  ∃ simple, guard.clockGuard = [simple] ∧ simple.relation.IsNegatable

/-- A clock guard with several constraints or with an equality. -/
def ClockGuard.IsUnsupported (guard : ClockGuard) : Prop :=
  guard ≠ ClockGuard.empty ∧
    (1 < guard.clockGuard.length ∨ ∃ simple ∈ guard.clockGuard, simple.relation = .equal)

/-- A single constraint with a relation that is none of the documented ones. -/
def ClockGuard.IsForeign (guard : ClockGuard) : Prop :=
  ∃ simple, guard.clockGuard = [simple] ∧ ∃ signs, simple.relation = .unsupported signs

/-- An input transition that leaves a location other than the initial one. -/
def TIOSTS.HasInput (order : IterationOrder) (model : TIOSTS) (transition : Transition) :
    Prop :=
  transition ∈ model.getTransitions order ∧ model.isInitial transition.source = false ∧
    transition.action.type = .input

/-- A clock guard that cannot be negated has several constraints, an equality or a foreign
relation. -/
theorem ClockGuard.not_isNegatable_iff {guard : ClockGuard} (nonempty : guard ≠ empty) :
    ¬ guard.IsNegatable ↔ guard.IsUnsupported ∨ guard.IsForeign := by
  obtain ⟨guards⟩ := guard
  match guards with
  | [] => exact absurd rfl nonempty
  | first :: second :: rest =>
      apply iff_of_true
      · rintro ⟨simple, single, _⟩
        cases single
      · left
        exact ⟨nonempty, Or.inl (by simp)⟩
  | [simple] =>
      have negatable : (⟨[simple]⟩ : ClockGuard).IsNegatable ↔ simple.relation.IsNegatable := by
        simp [ClockGuard.IsNegatable]
      have unsupported : (⟨[simple]⟩ : ClockGuard).IsUnsupported ↔ simple.relation = .equal := by
        simp [ClockGuard.IsUnsupported, nonempty]
      have foreign : (⟨[simple]⟩ : ClockGuard).IsForeign ↔
          ∃ signs, simple.relation = .unsupported signs := by
        simp [ClockGuard.IsForeign]
      rw [negatable, unsupported, foreign]
      cases simple.relation <;> simp [Relation.IsNegatable]

theorem ClockGuard.empty_not_negatable : ¬ ClockGuard.empty.IsNegatable := by
  rintro ⟨simple, single, _⟩
  cases single

theorem ClockGuard.empty_not_unsupported : ¬ ClockGuard.empty.IsUnsupported :=
  fun unsupported => unsupported.1 rfl

theorem ClockGuard.empty_not_foreign : ¬ ClockGuard.empty.IsForeign := by
  rintro ⟨simple, single, _⟩
  cases single

theorem ClockGuard.isNegatable_renumber {guard : ClockGuard} {allClocks : List String} :
    (guard.renumber allClocks).IsNegatable ↔ guard.IsNegatable := by
  obtain ⟨guards⟩ := guard
  unfold ClockGuard.IsNegatable ClockGuard.renumber
  simp only [List.map_eq_singleton_iff]
  constructor
  · rintro ⟨renumbered, ⟨simple, single, rfl⟩, negatable⟩
    exact ⟨simple, single, negatable⟩
  · rintro ⟨simple, single, negatable⟩
    exact ⟨_, ⟨simple, single, rfl⟩, negatable⟩

theorem ClockGuard.renumber_eq_empty_iff {guard : ClockGuard} {allClocks : List String} :
    guard.renumber allClocks = ClockGuard.empty ↔ guard = ClockGuard.empty := by
  obtain ⟨guards⟩ := guard
  simp [ClockGuard.renumber, ClockGuard.empty]

namespace InputCompletion

open Completion (GrownAt)

/-- The transitions whose guards are to be negated and cannot be. -/
def IsStopping (transition : Transition) : Prop :=
  IsNegated transition ∧ ¬ transition.clockGuard.IsNegatable

def IsClockGuardException (failure : Failure) : Prop :=
  ∃ message, failure = .clockGuard message

theorem negateClockGuard_ok {guard : ClockGuard} (negatable : guard.IsNegatable) :
    ∃ negated, negateClockGuard guard = .ok negated := by
  obtain ⟨simple, single, isNegatable⟩ := negatable
  obtain ⟨negated, returned, _⟩ := @Completion.negateClockGuard_ok guard
    (by rintro rfl; cases single) (by simp [single]) (by simpa [single] using isNegatable)
  exact ⟨negated, returned⟩

theorem negateClockGuard_throws {guard : ClockGuard} (stops : ¬ guard.IsNegatable) :
    ∃ message, negateClockGuard guard = .error (.clockGuard message) := by
  match listed : guard.clockGuard with
  | [] => exact ⟨_, by rw [negateClockGuard, Completion.negateClockGuard, listed]⟩
  | [simple] =>
      cases relation : simple.relation with
      | equal =>
          refine ⟨Completion.equalityMessage, ?_⟩
          simp only [negateClockGuard, Completion.negateClockGuard, listed, relation]
      | unsupported signs =>
          refine ⟨Completion.notSupportedMessage guard, ?_⟩
          simp only [negateClockGuard, Completion.negateClockGuard, listed, relation]
      | _ =>
          refine absurd ⟨simple, listed, ?_⟩ stops
          rw [relation]
          decide
  | _ :: _ :: _ => exact ⟨_, by rw [negateClockGuard, Completion.negateClockGuard, listed]⟩

section Location

variable {base : TIOSTS} {label : String}

theorem addNegation_throws {model : TIOSTS} {transition : Transition}
    (stopping : IsStopping transition) :
    ∃ failure, addNegation label model transition = .error failure ∧
      IsClockGuardException failure := by
  obtain ⟨negated, stops⟩ := stopping
  obtain ⟨message, thrown⟩ := negateClockGuard_throws stops
  refine ⟨_, ?_, message, rfl⟩
  rw [addNegation, if_pos (show _ ∧ _ from negated), negatedGuards,
    if_neg (ClockGuard.toString_ne_false _), thrown]
  rfl

theorem addNegation_ok {model : TIOSTS} {added : List Transition}
    (grown : GrownAt label base added model) (registered : base.IsRegistered label)
    (everything : base.IsRegistered Constants.locationLabelDontCare)
    {transition : Transition} (passes : ¬ IsStopping transition)
    (declared : ∃ action, base.getAction transition.action.type transition.action.name =
      some action) :
    ∃ more next, addNegation label model transition = .ok next ∧
      GrownAt label base (added ++ more) next := by
  by_cases negated : IsNegated transition
  · have negatable : transition.clockGuard.IsNegatable := by
      by_contra stops
      exact passes ⟨negated, stops⟩
    obtain ⟨clockGuard, guardNegated⟩ := negateClockGuard_ok negatable
    have declaredHere : ∃ other,
        model.getAction transition.action.type transition.action.name = some other := by
      unfold TIOSTS.getAction at declared ⊢
      rw [TIOSTS.actionsOf_eq_of_alphabet grown.alphabet]
      exact declared
    obtain ⟨next, created, nextWellFormed, grows⟩ :=
      grown.wellFormed.createTransitionFromText
        ⟨label, .written (Constants.guardNegation ++ " (" ++ transition.dataGuard.text ++ ")"),
          clockGuard, transition.action, none, none, .lazy, Constants.locationLabelDontCare⟩
        ((grown.isRegistered label).mpr registered)
        ((grown.isRegistered _).mpr everything) declaredHere
    refine ⟨[_], next, ?_, grown.add nextWellFormed grows rfl⟩
    rw [addNegation, if_pos (show _ ∧ _ from negated), negatedGuards,
      if_neg (ClockGuard.toString_ne_false _), guardNegated]
    exact created
  · refine ⟨[], model, ?_, ?_⟩
    · rw [addNegation, if_neg (show ¬ (_ ∧ _) from negated)]
    · rw [List.append_nil]
      exact grown

/-- More transitions have been added to a location. -/
def GrownBy (base : TIOSTS) (label : String) (added : List Transition)
    (_ : List Transition) (model : TIOSTS) : Prop :=
  ∃ more, GrownAt label base (added ++ more) model

variable {model : TIOSTS} {added transitions : List Transition}

theorem addNegation_grownBy {done : List Transition} {transition : Transition}
    (registered : base.IsRegistered label)
    (everything : base.IsRegistered Constants.locationLabelDontCare)
    (declared : ∃ action, base.getAction transition.action.type transition.action.name =
      some action)
    (grownBy : GrownBy base label added done model) (passes : ¬ IsStopping transition) :
    ∃ next, addNegation label model transition = .ok next ∧
      GrownBy base label added (done ++ [transition]) next := by
  obtain ⟨more, grown⟩ := grownBy
  obtain ⟨new, next, returned, nextGrown⟩ :=
    addNegation_ok grown registered everything passes declared
  refine ⟨next, returned, more ++ new, ?_⟩
  rw [← List.append_assoc]
  exact nextGrown

theorem grownBy_nil (grown : GrownAt label base added model) :
    GrownBy base label added [] model := by
  refine ⟨[], ?_⟩
  rw [List.append_nil]
  exact grown

theorem foldlM_addNegation_ok (grown : GrownAt label base added model)
    (registered : base.IsRegistered label)
    (everything : base.IsRegistered Constants.locationLabelDontCare)
    (declared : ∀ transition ∈ transitions, ∃ action,
      base.getAction transition.action.type transition.action.name = some action)
    (passes : ∀ transition ∈ transitions, ¬ IsStopping transition) :
    ∃ next, transitions.foldlM (addNegation label) model = .ok next ∧
      GrownBy base label added transitions next := by
  apply Loops.foldlM_returns (GrownBy base label added) (grownBy_nil grown)
  intro done transition rest current whole grownBy
  have member : transition ∈ transitions := by simp [whole]
  exact addNegation_grownBy registered everything (declared transition member) grownBy
    (passes transition member)

theorem foldlM_addNegation_throws (grown : GrownAt label base added model)
    (registered : base.IsRegistered label)
    (everything : base.IsRegistered Constants.locationLabelDontCare)
    (declared : ∀ transition ∈ transitions, ∃ action,
      base.getAction transition.action.type transition.action.name = some action)
    (stopped : ∃ transition ∈ transitions, IsStopping transition) :
    ∃ failure, transitions.foldlM (addNegation label) model = .error failure ∧
      IsClockGuardException failure := by
  apply Loops.foldlM_throws (GrownBy base label added) IsStopping IsClockGuardException
    (grownBy_nil grown) _ _ stopped
  · intro done transition rest current whole grownBy passes
    exact addNegation_grownBy registered everything
      (declared transition (by simp [whole])) grownBy passes
  · intro done transition rest current _ _ stopping
    exact addNegation_throws stopping

/-- Some transition of the location stops its completion. -/
def Stops (base : TIOSTS) (label : String) : Prop :=
  base.isInitial label = false ∧ ∃ transition ∈ base.outOf label, IsStopping transition

theorem completeLocation_throws (wellFormed : base.WellFormed)
    (registered : base.IsRegistered label)
    (everything : base.IsRegistered Constants.locationLabelDontCare)
    (stops : Stops base label) :
    ∃ failure, completeLocation base label = .error failure ∧
      IsClockGuardException failure := by
  obtain ⟨notInitial, transition, member, stopping⟩ := stops
  obtain ⟨loops, looped, runs, grown, _, _⟩ :=
    completeLocation_eq wellFormed registered everything notInitial
  rw [runs]
  apply foldlM_addNegation_throws grown registered everything (declared_grown grown)
  exact ⟨transition, List.mem_append_left _ member, stopping⟩

theorem completeLocation_ok (wellFormed : base.WellFormed)
    (registered : base.IsRegistered label)
    (everything : base.IsRegistered Constants.locationLabelDontCare)
    (passes : ¬ Stops base label) :
    ∃ added next, completeLocation base label = .ok next ∧ GrownAt label base added next := by
  by_cases initial : base.isInitial label = true
  · refine ⟨[], base, ?_, GrownAt.refl wellFormed label⟩
    exact completeLocation_initial registered initial
  · have notInitial : base.isInitial label = false := Bool.eq_false_iff.mpr initial
    obtain ⟨loops, looped, runs, grown, _, unguarded⟩ :=
      completeLocation_eq wellFormed registered everything notInitial
    have eachPasses : ∀ transition ∈ base.outOf label ++ loops,
        ¬ IsStopping transition := by
      intro transition member stopping
      rcases List.mem_append.mp member with old | loop
      · exact passes ⟨notInitial, transition, old, stopping⟩
      · exact stopping.1.1 (unguarded transition loop)
    obtain ⟨next, returned, more, nextGrown⟩ := foldlM_addNegation_ok grown registered
      everything (declared_grown grown) eachPasses
    exact ⟨_, next, runs.trans returned, nextGrown⟩

end Location

/-- The locations that are left are as they were. -/
structure PendingFrom (start : TIOSTS) (done : List String) (model : TIOSTS) : Prop where
  wellFormed : model.WellFormed
  isRegistered : ∀ label, model.IsRegistered label ↔ start.IsRegistered label
  isInitial : ∀ label, model.isInitial label = start.isInitial label
  pending : ∀ label, label ∉ done → model.outOf label = start.outOf label

theorem PendingFrom.refl {start : TIOSTS} (wellFormed : start.WellFormed) :
    PendingFrom start [] start :=
  ⟨wellFormed, fun _ => Iff.rfl, fun _ => rfl, fun _ _ => rfl⟩

section Locations

variable {start model : TIOSTS} {done : List String} {label : String}

theorem PendingFrom.stops_iff (pendingFrom : PendingFrom start done model)
    (fresh : label ∉ done) : Stops model label ↔ Stops start label := by
  rw [Stops, Stops, pendingFrom.isInitial, pendingFrom.pending label fresh]

theorem PendingFrom.step (pendingFrom : PendingFrom start done model)
    (fresh : label ∉ done) (registered : start.IsRegistered label)
    (everything : start.IsRegistered Constants.locationLabelDontCare)
    (passes : ¬ Stops start label) :
    ∃ next, completeLocation model label = .ok next ∧
      PendingFrom start (done ++ [label]) next := by
  obtain ⟨added, next, returned, grown⟩ := completeLocation_ok pendingFrom.wellFormed
    ((pendingFrom.isRegistered label).mpr registered)
    ((pendingFrom.isRegistered _).mpr everything)
    (fun stops => passes ((pendingFrom.stops_iff fresh).mp stops))
  refine ⟨next, returned, ?_⟩
  constructor
  · exact grown.wellFormed
  · exact fun other => (grown.isRegistered other).trans (pendingFrom.isRegistered other)
  · exact fun other => (isInitial_grown grown other).trans (pendingFrom.isInitial other)
  · intro other notDone
    have different : other ≠ label := fun equal => notDone (by simp [equal])
    rw [grown.outOf, if_neg different]
    exact pendingFrom.pending other fun inDone => notDone (List.mem_append_left _ inDone)

end Locations

/-- The locations are completed unless one of them stops the loop. -/
theorem foldlM_completeLocation {start : TIOSTS} {labels : List String}
    (wellFormed : start.WellFormed) (nodup : labels.Nodup)
    (registered : ∀ label ∈ labels, start.IsRegistered label)
    (everything : start.IsRegistered Constants.locationLabelDontCare) :
    ((∃ label ∈ labels, Stops start label) → ∃ failure,
      labels.foldlM completeLocation start = .error failure ∧
        IsClockGuardException failure) ∧
    ((¬ ∃ label ∈ labels, Stops start label) → ∃ completed,
      labels.foldlM completeLocation start = .ok completed) := by
  have freshIn : ∀ {done label rest}, labels = done ++ label :: rest → label ∉ done := by
    intro done label rest whole inDone
    rw [whole] at nodup
    exact (List.nodup_append.mp nodup).2.2 label inDone label (by simp) rfl
  constructor
  · intro stopped
    apply Loops.foldlM_throws (PendingFrom start) (Stops start) IsClockGuardException
      (PendingFrom.refl wellFormed) _ _ stopped
    · intro done label rest model whole pendingFrom passes
      exact pendingFrom.step (freshIn whole) (registered label (by simp [whole])) everything
        passes
    · intro done label rest model whole pendingFrom stops
      apply completeLocation_throws pendingFrom.wellFormed
      · exact (pendingFrom.isRegistered label).mpr (registered label (by simp [whole]))
      · exact (pendingFrom.isRegistered _).mpr everything
      · exact (pendingFrom.stops_iff (freshIn whole)).mpr stops
  · intro passes
    have returned : ∃ completed, labels.foldlM completeLocation start = .ok completed ∧
        PendingFrom start labels completed := by
      apply Loops.foldlM_returns (PendingFrom start) (PendingFrom.refl wellFormed)
      intro done label rest model whole pendingFrom
      have member : label ∈ labels := by simp [whole]
      exact pendingFrom.step (freshIn whole) (registered label member) everything
        fun stops => passes ⟨label, member, stops⟩
    obtain ⟨completed, returned, _⟩ := returned
    exact ⟨completed, returned⟩

theorem isStopping_iff {transition : Transition} (isInput : transition.action.type = .input) :
    IsStopping transition ↔ transition.clockGuard.IsUnsupported ∨
      transition.clockGuard.IsForeign ∨
      transition.clockGuard = ClockGuard.empty ∧
        transition.dataGuard.text ≠ Constants.guardTrue := by
  rw [IsStopping, IsNegated, and_iff_left isInput, Ne, Completion.getAllGuard_eq_true_iff]
  by_cases noClocks : transition.clockGuard = ClockGuard.empty
  · rw [noClocks]
    simp [ClockGuard.empty_not_negatable, ClockGuard.empty_not_unsupported,
      ClockGuard.empty_not_foreign]
  · rw [ClockGuard.not_isNegatable_iff noClocks]
    simp [noClocks]

theorem isStopping_copied {tiosts : TIOSTS} {transition : Transition} :
    IsStopping (tiosts.copied transition) ↔ IsStopping transition := by
  have sameGuard : (tiosts.copied transition).getAllGuard = Constants.guardTrue ↔
      transition.getAllGuard = Constants.guardTrue := by
    rw [Completion.getAllGuard_eq_true_iff, Completion.getAllGuard_eq_true_iff]
    exact and_congr_right' ClockGuard.renumber_eq_empty_iff
  unfold IsStopping IsNegated
  rw [Ne, sameGuard, TIOSTS.copied_actionType]
  exact and_congr_right' (not_congr ClockGuard.isNegatable_renumber)

theorem IsStart.exists_out {order : IterationOrder} {tiosts start : TIOSTS}
    (isStart : IsStart order tiosts start) (label : String) :
    ∃ loops, start.outOf label =
        (tiosts.leaving order label).map tiosts.copied ++ loops ∧
      ∀ loop ∈ loops, loop.getAllGuard = Constants.guardTrue := by
  rw [← copiedTransitions_leaving]
  by_cases isEverything : label = Constants.locationLabelDontCare
  · subst isEverything
    obtain ⟨loops, out, _, unguarded⟩ := isStart.accepting
    exact ⟨loops, out, unguarded⟩
  · refine ⟨[], ?_, by simp⟩
    rw [List.append_nil]
    exact isStart.outOf label isEverything

theorem IsStart.stops_iff {order : IterationOrder} {tiosts start : TIOSTS}
    (isStart : IsStart order tiosts start) (wellFormed : tiosts.WellFormed) :
    (∃ label ∈ order.arrange start.locations.keys, Stops start label) ↔
      ∃ transition, tiosts.HasInput order transition ∧ IsStopping transition := by
  constructor
  · rintro ⟨label, _, notInitial, transition, member, stopping⟩
    obtain ⟨loops, out, unguarded⟩ := isStart.exists_out label
    rw [out] at member
    rcases List.mem_append.mp member with copied | isLoop
    · obtain ⟨original, left, rfl⟩ := List.mem_map.mp copied
      obtain ⟨listed, source⟩ := List.mem_filter.mp left
      have originalStops := isStopping_copied.mp stopping
      refine ⟨original, ⟨listed, ?_, originalStops.1.2⟩, originalStops⟩
      rw [← of_decide_eq_true source, ← isStart.isInitial]
      exact notInitial
    · exact absurd (unguarded transition isLoop) stopping.1.1
  · rintro ⟨transition, ⟨listed, notInitial, _⟩, stopping⟩
    obtain ⟨key, found⟩ := (TIOSTS.mem_getTransitions order tiosts).mp listed
    have inModel := TIOSTS.isRegistered_of_mem_outOf (wellFormed.stored found).2
    refine ⟨transition.source, ?_, ?_, tiosts.copied transition, ?_, ?_⟩
    · apply (order.arrange_perm _).mem_iff.mpr
      exact AList.mem_keys.mp ((isStart.isRegistered _).mpr (Or.inr inModel))
    · rw [isStart.isInitial]
      exact notInitial
    · obtain ⟨loops, out, _⟩ := isStart.exists_out transition.source
      rw [out]
      apply List.mem_append_left
      apply List.mem_map_of_mem
      exact List.mem_filter.mpr ⟨listed, by simp⟩
    · exact isStopping_copied.mpr stopping

/-- The completion throws exactly if some guard is to be negated and cannot be. -/
theorem complete_outcome {order : IterationOrder} {tiosts : TIOSTS}
    (wellFormed : tiosts.WellFormed) :
    ((∃ transition, tiosts.HasInput order transition ∧ IsStopping transition) →
      ∃ failure, complete order tiosts = .error failure ∧ IsClockGuardException failure) ∧
    ((¬ ∃ transition, tiosts.HasInput order transition ∧ IsStopping transition) →
      ∃ completed, complete order tiosts = .ok completed) := by
  obtain ⟨start, isStart, runs⟩ := exists_start order wellFormed
  rw [runs, ← isStart.stops_iff wellFormed]
  apply foldlM_completeLocation isStart.wellFormed
  · exact (order.arrange_perm _).nodup_iff.mpr start.locations.keys_nodup
  · intro label member
    exact AList.mem_keys.mpr ((order.arrange_perm _).mem_iff.mp member)
  · exact (isStart.isRegistered _).mpr (Or.inl rfl)

/-- Completion throws for clock guards that are not supported, and for them only; without
clock guards it returns. -/
structure ThrowsIfUnsupported (order : IterationOrder) (tiosts : TIOSTS) : Prop where
  throws : (∃ failure, complete order tiosts = .error failure ∧
      IsClockGuardException failure) ↔
    ∃ transition, tiosts.HasInput order transition ∧ transition.clockGuard.IsUnsupported
  returns : (∀ transition, tiosts.HasInput order transition →
      transition.clockGuard = ClockGuard.empty) →
    ∃ completed, complete order tiosts = .ok completed

/-- Completion throws for just the unsupported clock guards exactly if there is one, or if
no input transition from an ordinary location has a data guard without a clock guard or a
relation that is none of the documented ones. -/
theorem complete_throws_iff {order : IterationOrder} {tiosts : TIOSTS}
    (wellFormed : tiosts.WellFormed) :
    ThrowsIfUnsupported order tiosts ↔
      (∃ transition, tiosts.HasInput order transition ∧
        transition.clockGuard.IsUnsupported) ∨
      ∀ transition, tiosts.HasInput order transition → ¬ transition.clockGuard.IsForeign ∧
        (transition.clockGuard = ClockGuard.empty →
          transition.dataGuard.text = Constants.guardTrue) := by
  obtain ⟨throws, returns⟩ := @complete_outcome order tiosts wellFormed
  constructor
  · rintro ⟨exactly, _⟩
    by_cases unsupported : ∃ transition, tiosts.HasInput order transition ∧
        transition.clockGuard.IsUnsupported
    · exact Or.inl unsupported
    · right
      have passes : ∀ transition, tiosts.HasInput order transition →
          ¬ IsStopping transition := by
        intro transition isInput stopping
        exact unsupported (exactly.mp (throws ⟨transition, isInput, stopping⟩))
      intro transition isInput
      have passing := passes transition isInput
      rw [isStopping_iff isInput.2.2, not_or, not_or] at passing
      obtain ⟨_, notForeign, unguarded⟩ := passing
      exact ⟨notForeign, fun noClocks => by_contra fun guarded => unguarded ⟨noClocks, guarded⟩⟩
  · intro condition
    by_cases unsupported : ∃ transition, tiosts.HasInput order transition ∧
        transition.clockGuard.IsUnsupported
    · obtain ⟨transition, isInput, bad⟩ := unsupported
      have stopping : IsStopping transition := (isStopping_iff isInput.2.2).mpr (Or.inl bad)
      constructor
      · exact iff_of_true (throws ⟨transition, isInput, stopping⟩) ⟨transition, isInput, bad⟩
      · intro noClocks
        exact absurd (noClocks transition isInput) bad.1
    · have unguarded := condition.resolve_left unsupported
      obtain ⟨completed, returned⟩ := returns (by
        rintro ⟨transition, isInput, stopping⟩
        obtain ⟨notForeign, unguardedHere⟩ := unguarded transition isInput
        rcases (isStopping_iff isInput.2.2).mp stopping with bad | foreign | ⟨noClocks, guarded⟩
        · exact unsupported ⟨transition, isInput, bad⟩
        · exact notForeign foreign
        · exact guarded (unguardedHere noClocks))
      constructor
      · apply iff_of_false _ unsupported
        rintro ⟨failure, thrown, _⟩
        rw [returned] at thrown
        cases thrown
      · exact fun _ => ⟨completed, returned⟩

open ConservationInstance in
/-- A single bound can be negated. -/
theorem complete_throws_bound : ThrowsIfUnsupported order (model single) := by
  have uses : declared.Uses ["s", "a", "b", "c"] "s"
    (.bare "s" ⟨"i", .internal, []⟩ "a" :: single) := by decide
  apply (complete_throws_iff (model_wellFormed uses)).mpr
  right
  have listed : ∀ transition ∈ (model single).getTransitions order,
      transition.clockGuard.clockGuard.all (fun simple => simple.relation = .lt) = true ∧
        transition.dataGuard.text = Constants.guardTrue := by decide
  intro transition isInput
  obtain ⟨bounds, unguarded⟩ := listed transition isInput.1
  refine ⟨?_, fun _ => unguarded⟩
  rintro ⟨simple, isSingle, signs, relation⟩
  rw [isSingle] at bounds
  have isLt : simple.relation = .lt := by simpa using bounds
  rw [relation] at isLt
  cases isLt

namespace UnsupportedInstance

open ConservationInstance

/-- The input has a data guard only. -/
def dataOnly : List Transition :=
  [{ Transition.bare "a" press "b" with dataGuard := .written "k > 3" }]

end UnsupportedInstance

open ConservationInstance UnsupportedInstance in
/-- A data guard alone stops the completion. -/
theorem complete_throws_dataOnly :
    complete order (model dataOnly) =
        .error (.clockGuard Completion.onlyOneConstraintMessage) ∧
      ¬ ThrowsIfUnsupported order (model dataOnly) := by
  have thrown : complete order (model dataOnly) =
      .error (.clockGuard Completion.onlyOneConstraintMessage) := by
    have ran : (match complete order (model dataOnly) with
        | .error failure => failure == .clockGuard Completion.onlyOneConstraintMessage
        | .ok _ => false) = true := by decide
    split at ran
    · next failure outcome =>
        rw [outcome, eq_of_beq ran]
    · cases ran
  refine ⟨thrown, ?_⟩
  intro asDocumented
  obtain ⟨completed, returned⟩ := asDocumented.returns (by
    have listed : ∀ transition ∈ (model dataOnly).getTransitions order,
        transition.clockGuard = ClockGuard.empty := by decide
    exact fun transition isInput => listed transition isInput.1)
  rw [thrown] at returned
  cases returned

end InputCompletion

end Symbolrt
