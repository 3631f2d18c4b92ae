import Symbolrt.Lib.Glue
import Symbolrt.Lib.Items
import Symbolrt.SymbolicExecution.Execution
import Symbolrt.Compositions.Composition

/-!
# What an initial transition does

A composed transition that takes over an initial transition should conjoin its guard and
perform its assignments exactly once.
-/

namespace Symbolrt

/-- The assignments written in a text, as the symbolic execution splits them. -/
def performed (assignments : Option String) : List String :=
  match assignments with
  | none => []
  | some assignments => Text.items SymbolicExecution.assignmentBar assignments

theorem performed_createAssignments (assignments1 assignments2 : Option String) :
    performed (SynchronousProduct.createAssignments assignments1 assignments2) =
      performed assignments1 ++ performed assignments2 := by
  have single : SymbolicExecution.assignmentBar.toList = ['|'] := by decide
  cases assignments1 with
  | none =>
      cases assignments2 with
      | none => rfl
      | some assignments2 => rfl
  | some assignments1 =>
      cases assignments2 with
      | none => simp [SynchronousProduct.createAssignments, performed]
      | some assignments2 =>
          have joined : assignments1 ++ Constants.assignmentSeparator ++ assignments2 =
              assignments1 ++ " " ++ SymbolicExecution.assignmentBar ++ " " ++
                assignments2 := by
            apply String.toList_injective
            simp [Constants.assignmentSeparator, single]
          rw [SynchronousProduct.createAssignments, performed, performed, performed, joined]
          exact Text.items_append single (by decide) assignments1 assignments2

/-- The guard holds exactly if all parts do. -/
def Conjoins (guard : DataGuard) (parts : List DataGuard) : Prop :=
  ∀ atom : List String → Prop,
    Formula.holds atom guard.text ↔ ∀ part ∈ parts, Formula.holds atom part.text

theorem conjoins_self (guard : DataGuard) : Conjoins guard [guard] := by
  intro atom
  rw [List.forall_mem_singleton]

/-- The texts of the guards; the constant is left out. -/
def writtenTexts (guards : List DataGuard) : List String :=
  (guards.filter (fun guard => guard ≠ .constantTrue)).map DataGuard.text

theorem writtenTexts_hold_iff {guards : List DataGuard} {atom : List String → Prop} :
    (∀ text ∈ writtenTexts guards, Formula.holds atom text) ↔
      ∀ guard ∈ guards, Formula.holds atom guard.text := by
  rw [writtenTexts, List.forall_mem_map]
  constructor
  · intro each guard member
    by_cases constant : guard = .constantTrue
    · rw [constant]
      exact Formula.holds_true
    · exact each guard (List.mem_filter.mpr ⟨member, decide_eq_true constant⟩)
  · exact fun each guard member => each guard (List.mem_filter.mp member).1

/-- The guards that are written, joined by AND, mean the conjunction of the parts. -/
def JoinTo (guards parts : List DataGuard) : Prop :=
  Formula.Means (writtenTexts guards) (writtenTexts parts)

theorem createDataGuard_true_left (guard : DataGuard) :
    SynchronousProduct.createDataGuard .constantTrue guard = guard := by
  unfold SynchronousProduct.createDataGuard
  split
  · rename_i isTrue
    exact isTrue.symm
  · rfl

/-- The guards conjoined one after the other are the written ones joined by AND. -/
theorem foldl_createDataGuard (guards : List DataGuard) :
    (guards.foldl SynchronousProduct.createDataGuard .constantTrue).text =
        Formula.joined (writtenTexts guards) ∧
      (guards.foldl SynchronousProduct.createDataGuard .constantTrue = .constantTrue ↔
        writtenTexts guards = []) := by
  induction guards using List.reverseRecOn with
  | nil => exact ⟨rfl, iff_of_true rfl rfl⟩
  | append_singleton guards last induction =>
      obtain ⟨text, constant⟩ := induction
      rw [List.foldl_append, List.foldl_cons, List.foldl_nil]
      by_cases lastConstant : last = .constantTrue
      · have same : writtenTexts (guards ++ [last]) = writtenTexts guards := by
          simp [writtenTexts, lastConstant]
        rw [same, SynchronousProduct.createDataGuard, if_pos lastConstant]
        exact ⟨text, constant⟩
      · have more : writtenTexts (guards ++ [last]) = writtenTexts guards ++ [last.text] := by
          simp [writtenTexts, lastConstant]
        rw [more, SynchronousProduct.createDataGuard, if_neg lastConstant]
        by_cases noneBefore : writtenTexts guards = []
        · rw [if_pos (constant.mpr noneBefore), noneBefore]
          exact ⟨rfl, iff_of_false lastConstant (List.cons_ne_nil _ _)⟩
        · rw [if_neg (fun isConstant => noneBefore (constant.mp isConstant)),
            Formula.joined_append noneBefore, text]
          refine ⟨rfl, iff_of_false ?_ ?_⟩
          · intro impossible
            cases impossible
          · exact List.append_ne_nil_of_right_ne_nil _ (List.cons_ne_nil _ _)

theorem conjoins_foldl_iff {guards parts : List DataGuard} :
    Conjoins (guards.foldl SynchronousProduct.createDataGuard .constantTrue) parts ↔
      JoinTo guards parts := by
  apply forall_congr'
  intro atom
  rw [(foldl_createDataGuard guards).1, writtenTexts_hold_iff]

theorem conjoins_two_iff {first second : DataGuard} {parts : List DataGuard} :
    Conjoins (SynchronousProduct.createDataGuard first second) parts ↔
      JoinTo [first, second] parts := by
  rw [← conjoins_foldl_iff, List.foldl_cons, createDataGuard_true_left]
  rfl

theorem conjoins_three_iff {first second third : DataGuard} {parts : List DataGuard} :
    Conjoins (SynchronousProduct.createDataGuard
        (SynchronousProduct.createDataGuard first second) third) parts ↔
      JoinTo [first, second, third] parts := by
  rw [← conjoins_foldl_iff, List.foldl_cons, createDataGuard_true_left]
  rfl

theorem joinTo_of_plain {guards : List DataGuard}
    (plain : ∀ guard ∈ guards, Formula.BalancedText guard.text ∧
      Formula.IsDisjunct guard.text) : JoinTo guards guards := by
  have each : ∀ text ∈ writtenTexts guards, Formula.BalancedText text ∧
      Formula.IsDisjunct text := by
    intro text member
    obtain ⟨guard, kept, rfl⟩ := List.mem_map.mp member
    exact plain guard (List.mem_filter.mp kept).1
  exact Formula.means_of_plain (fun text member => (each text member).1)
    (fun text member => (each text member).2)

/-- The clock guards and assignments of the transition are those of its components, each
exactly once, and its data guard is their conjunction. -/
structure Initialises (composed : Transition) (components : List Transition) : Prop where
  dataGuard : Conjoins composed.dataGuard (components.map Transition.dataGuard)
  clockGuard : composed.clockGuard.clockGuard.Perm
    (components.flatMap fun component => component.clockGuard.clockGuard)
  dataAssignments : (performed composed.dataAssignments).Perm
    (components.flatMap fun component => performed component.dataAssignments)
  clockAssignments : (performed composed.clockAssignments).Perm
    (components.flatMap fun component => performed component.clockAssignments)

/-- The transition has no clock guard and no assignments. -/
structure OnlyGuarded (transition : Transition) : Prop where
  clockGuard : transition.clockGuard.clockGuard = []
  dataAssignments : performed transition.dataAssignments = []
  clockAssignments : performed transition.clockAssignments = []

theorem Initialises.of_ends {init composed : Transition}
    (same : composed = { init with
      source := composed.source, action := composed.action, target := composed.target }) :
    Initialises composed [init] := by
  rw [same]
  constructor
  · exact conjoins_self init.dataGuard
  · simp
  · simp
  · simp

theorem perm_rest_iff {α : Type} {items one two three : List α} (whole : items = one ++ two) :
    items.Perm (one ++ (two ++ three)) ↔ three = [] := by
  rw [whole, ← List.append_assoc]
  constructor
  · intro permutation
    have lengths := permutation.length_eq
    simp only [List.length_append] at lengths
    exact List.length_eq_zero_iff.mp (by omega)
  · intro empty
    simp [empty]

/-- A transition merged from two takes over an initial one that comes before the second if
that is the second itself or has nothing but its data guard. -/
theorem initialises_merged_iff {composed first second init : Transition}
    (clockGuard : composed.clockGuard =
      SynchronousProduct.createClockGuard first.clockGuard second.clockGuard)
    (dataAssignments : composed.dataAssignments =
      SynchronousProduct.createAssignments first.dataAssignments second.dataAssignments)
    (clockAssignments : composed.clockAssignments =
      SynchronousProduct.createAssignments first.clockAssignments second.clockAssignments) :
    Initialises composed (first :: [second, init].dedup) ↔
      Conjoins composed.dataGuard [first.dataGuard, second.dataGuard, init.dataGuard] ∧
        (second = init ∨ OnlyGuarded init) := by
  have clocks : composed.clockGuard.clockGuard =
      first.clockGuard.clockGuard ++ second.clockGuard.clockGuard := by
    rw [clockGuard]
    rfl
  have data : performed composed.dataAssignments =
      performed first.dataAssignments ++ performed second.dataAssignments := by
    rw [dataAssignments, performed_createAssignments]
  have resets : performed composed.clockAssignments =
      performed first.clockAssignments ++ performed second.clockAssignments := by
    rw [clockAssignments, performed_createAssignments]
  by_cases same : second = init
  · subst same
    have components : [second, second].dedup = [second] := by simp
    rw [components]
    have guards : Conjoins composed.dataGuard ([first, second].map Transition.dataGuard) ↔
        Conjoins composed.dataGuard [first.dataGuard, second.dataGuard, second.dataGuard] := by
      simp [Conjoins]
    constructor
    · exact fun initialises => ⟨guards.mp initialises.dataGuard, Or.inl rfl⟩
    · rintro ⟨guard, _⟩
      constructor
      · exact guards.mpr guard
      · simp [clocks]
      · simp [data]
      · simp [resets]
  · have components : [second, init].dedup = [second, init] := by
      simp [same]
    rw [components]
    constructor
    · intro initialises
      refine ⟨initialises.dataGuard, Or.inr ?_⟩
      constructor
      · exact (perm_rest_iff clocks).mp (by simpa using initialises.clockGuard)
      · exact (perm_rest_iff data).mp (by simpa using initialises.dataAssignments)
      · exact (perm_rest_iff resets).mp (by simpa using initialises.clockAssignments)
    · rintro ⟨guard, impossible | only⟩
      · exact absurd impossible same
      · constructor
        · exact guard
        · simpa using (perm_rest_iff clocks).mpr only.clockGuard
        · simpa using (perm_rest_iff data).mpr only.dataAssignments
        · simpa using (perm_rest_iff resets).mpr only.clockAssignments

/-- The transition is the only one that leaves the only location marked as initial. -/
structure HasInitial (model : TIOSTS) (init : Transition) : Prop where
  location : model.initialLocation = some init.source
  only : model.outOf init.source = [init]
  flagged : ∀ label, model.isInitial label = true ↔ label = init.source
  stored : model.transitions.lookup init.key = some init

section Copies

variable {order : IterationOrder} {model copy : TIOSTS} {init : Transition}

theorem HasInitial.leaving (has : HasInitial model init) (wellFormed : model.WellFormed) :
    (model.getTransitions order).filter (fun transition => init.source = transition.source) =
      [init] := by
  apply List.perm_singleton.mp
  rw [List.perm_ext_iff_of_nodup ((getTransitions_nodup wellFormed).filter _)
    (List.nodup_singleton _)]
  intro transition
  rw [List.mem_filter, TIOSTS.mem_getTransitions, List.mem_singleton, decide_eq_true_iff]
  constructor
  · rintro ⟨⟨key, found⟩, source⟩
    obtain ⟨_, leaves⟩ := wellFormed.stored found
    rw [← source, has.only] at leaves
    exact List.mem_singleton.mp leaves
  · rintro rfl
    exact ⟨⟨_, has.stored⟩, rfl⟩

/-- A copy has the copied transition as its only initial one. -/
theorem HasInitial.copied (has : HasInitial model init) (wellFormed : model.WellFormed)
    (isCopy : TIOSTS.IsExactCopy order model copy) :
    HasInitial copy (model.copied init) := by
  constructor
  · obtain ⟨location, found, flagged⟩ := wellFormed.initial_registered has.location
    have member : location ∈ (model.getLocations order).filter Location.isInitialLocation :=
      List.mem_filter.mpr ⟨(TIOSTS.mem_getLocations order model).mpr ⟨_, found⟩, flagged⟩
    rw [isCopy.initialLocation, TIOSTS.copied_source]
    cases last : ((model.getLocations order).filter
        Location.isInitialLocation).getLast? with
    | none =>
        rw [List.getLast?_eq_none_iff.mp last] at member
        cases member
    | some other =>
        obtain ⟨listed, otherFlagged⟩ := List.mem_filter.mp (List.mem_of_getLast? last)
        obtain ⟨label, otherFound⟩ := (TIOSTS.mem_getLocations order model).mp listed
        have isInitial : model.isInitial label = true := by
          rw [TIOSTS.isInitial, otherFound]
          exact otherFlagged
        rw [Option.map_some, wellFormed.label_eq otherFound,
          (has.flagged label).mp isInitial]
  · rw [isCopy.outOf, TIOSTS.copiedTransitions, List.filter_map]
    have leaving : (model.getTransitions order).filter
        (fun transition => init.source = transition.source) = [init] :=
      has.leaving wellFormed
    exact congrArg (List.map model.copied) leaving
  · intro label
    rw [isCopy.isInitial]
    exact has.flagged label
  · rw [isCopy.lookup, TIOSTS.copied_key, has.stored]
    rfl

theorem HasInitial.eq_of_source (has : HasInitial copy init)
    (isCopy : TIOSTS.IsExactCopy order model copy) {transition : Transition}
    (member : transition ∈ copy.getTransitions order)
    (source : transition.source = init.source) : transition = init := by
  obtain ⟨listed, _⟩ := copy_transition isCopy member
  rw [source, has.only] at listed
  exact List.mem_singleton.mp listed

theorem HasInitial.mem (has : HasInitial copy init) : init ∈ copy.getTransitions order :=
  (TIOSTS.mem_getTransitions order copy).mpr ⟨_, has.stored⟩

theorem HasInitial.initialCondition (has : HasInitial copy init)
    (isCopy : TIOSTS.IsExactCopy order model copy) :
    copy.initialCondition = some init.dataGuard := by
  have leaving : (model.copiedTransitions order).filter
      (fun transition => model.isInitial transition.source) = [init] := by
    rw [← has.only, isCopy.outOf]
    apply List.filter_congr
    intro transition _
    rw [← isCopy.isInitial, Bool.eq_iff_iff, has.flagged, decide_eq_true_iff]
    exact eq_comm
  rw [isCopy.initialCondition, leaving]
  rfl

end Copies

end Symbolrt
