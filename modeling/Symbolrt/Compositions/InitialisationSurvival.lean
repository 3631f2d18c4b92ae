import Symbolrt.Lib.Glue
import Symbolrt.Base.Assembly
import Symbolrt.Compositions.Initialisation
import Symbolrt.Compositions.ParallelLegality
import Symbolrt.Compositions.SequentialResult
import Symbolrt.Compositions.InterruptionResult

/-!
# What the compositions keep of the initial transitions

Each of the three compositions dissolves the initial transition of the second model in its
own way, and only its data guard is carried over.
-/

namespace Symbolrt

theorem initTransition_eq {order : IterationOrder} {model copy : TIOSTS}
    {init found : Transition} (has : HasInitial model init) (wellFormed : model.WellFormed)
    (isCopy : TIOSTS.IsExactCopy order model copy)
    (initial : ParallelComposition.initTransition copy = .ok found) :
    found = model.copied init := by
  have copied := has.copied wellFormed isCopy
  rw [ParallelComposition.initTransition, copied.location, deref_some, ok_bind] at initial
  obtain ⟨rest, whole⟩ := firstOut_eq_ok.mp initial
  rw [copied.only] at whole
  exact (List.cons.inj whole).1.symm

theorem Initialises.of_plain {composed other : Transition} {components : List Transition}
    (same : composed.plain = other.plain) (initialises : Initialises other components) :
    Initialises composed components := by
  have dataGuard : composed.dataGuard = other.dataGuard := congrArg (·.dataGuard) same
  have clockGuard : composed.clockGuard = other.clockGuard := congrArg (·.clockGuard) same
  have dataAssignments : composed.dataAssignments = other.dataAssignments :=
    congrArg (·.dataAssignments) same
  have clockAssignments : composed.clockAssignments = other.clockAssignments :=
    congrArg (·.clockAssignments) same
  constructor
  · rw [dataGuard]
    exact initialises.dataGuard
  · rw [clockGuard]
    exact initialises.clockGuard
  · rw [dataAssignments]
    exact initialises.dataAssignments
  · rw [clockAssignments]
    exact initialises.clockAssignments

theorem TIOSTS.create_initialLocation {model next : TIOSTS} {transition : Transition}
    (created : model.create transition = .ok next) :
    next.initialLocation = model.initialLocation := by
  obtain ⟨source, _, created⟩ := bind_eq_ok.mp created
  obtain ⟨target, _, created⟩ := bind_eq_ok.mp created
  rw [← Except.ok.inj created, TIOSTS.register_initialLocation]
  rfl

namespace ParallelComposition

/-- The two transitions have the same assignments, in whatever order. -/
def SameAssignments (init1 init2 : Transition) : Prop :=
  (performed init1.dataAssignments).Perm (performed init2.dataAssignments) ∧
    (performed init1.clockAssignments).Perm (performed init2.clockAssignments)

instance (init1 init2 : Transition) : Decidable (SameAssignments init1 init2) :=
  inferInstanceAs (Decidable (_ ∧ _))

/-- The merged initial transition has the assignments of the first one twice. -/
theorem initialTransition_initialises_iff (init1 init2 : Transition) :
    Initialises (initialTransition init1 init2) [init1, init2] ↔
      SameAssignments init1 init2 ∧
        JoinTo [init1.dataGuard, init2.dataGuard] [init1.dataGuard, init2.dataGuard] := by
  have data : performed (initialTransition init1 init2).dataAssignments =
      performed init1.dataAssignments ++ performed init1.dataAssignments :=
    performed_createAssignments _ _
  have resets : performed (initialTransition init1 init2).clockAssignments =
      performed init1.clockAssignments ++ performed init1.clockAssignments :=
    performed_createAssignments _ _
  have clocks : (initialTransition init1 init2).clockGuard.clockGuard =
      [init1, init2].flatMap (fun component => component.clockGuard.clockGuard) := by
    simp [initialTransition, SynchronousProduct.createClockGuard]
  have guards : Conjoins (initialTransition init1 init2).dataGuard
      ([init1, init2].map Transition.dataGuard) ↔ _ := conjoins_two_iff
  constructor
  · intro initialises
    have dataPerm := initialises.dataAssignments
    have resetsPerm := initialises.clockAssignments
    rw [data] at dataPerm
    rw [resets] at resetsPerm
    refine ⟨⟨?_, ?_⟩, guards.mp initialises.dataGuard⟩
    · simpa [List.perm_append_left_iff] using dataPerm
    · simpa [List.perm_append_left_iff] using resetsPerm
  · rintro ⟨⟨sameData, sameResets⟩, join⟩
    have dataPerm : (performed (initialTransition init1 init2).dataAssignments).Perm
        ([init1, init2].flatMap fun component => performed component.dataAssignments) := by
      rw [data]
      simpa [List.perm_append_left_iff] using sameData
    have resetsPerm : (performed (initialTransition init1 init2).clockAssignments).Perm
        ([init1, init2].flatMap fun component => performed component.clockAssignments) := by
      rw [resets]
      simpa [List.perm_append_left_iff] using sameResets
    exact ⟨guards.mpr join, clocks ▸ List.Perm.refl _, dataPerm, resetsPerm⟩

theorem Move.create_initialLocation {pc next : TIOSTS} {move : Move}
    (created : move.create pc = .ok next) : next.initialLocation = pc.initialLocation := by
  have ends : ∀ source target,
      (addEnds pc source target).initialLocation = pc.initialLocation := by
    intro source target
    rw [addEnds, TIOSTS.addLocation_initialLocation, TIOSTS.addLocation_initialLocation]
  cases move with
  | first loc1 loc2 t1 =>
      obtain ⟨newAction, _, attached⟩ := bind_eq_ok.mp created
      exact (TIOSTS.create_initialLocation attached).trans (ends _ _)
  | second loc1 loc2 t2 =>
      obtain ⟨newAction, _, attached⟩ := bind_eq_ok.mp created
      exact (TIOSTS.create_initialLocation attached).trans (ends _ _)
  | both loc1 loc2 t1 t2 =>
      obtain ⟨newAction, _, attached⟩ := bind_eq_ok.mp created
      exact (TIOSTS.create_initialLocation attached).trans (ends _ _)

/-- What a parallel composition should keep: its initial transition does what both initial
transitions do, and its initial condition is their conjunction. -/
structure Survives (parts : Parts) (result : TIOSTS) : Prop where
  starts : ∃ initial composed, result.initialLocation = some initial ∧
    result.firstOut initial = .ok composed ∧
    Initialises composed [parts.init1, parts.init2]
  condition : ∃ condition, result.initialCondition = some condition ∧
    Formula.IsConjunction condition.text (shown parts.tiosts1.initialCondition)
      (shown parts.tiosts2.initialCondition)

/-- The two guards can be written one after the other with nothing but AND between
them. -/
def CanBeGlued (guard1 guard2 : String) : Prop :=
  Formula.EndsDelimited guard1 ∧ Formula.StartsDelimited guard2 ∧ Formula.Joins guard1 guard2

/-- The guards that are written are joined in any case; a constant one is left out. -/
theorem CanBeGlued.joinTo {guard1 guard2 : DataGuard}
    (glued : CanBeGlued guard1.text guard2.text) : JoinTo [guard1, guard2] [guard1, guard2] := by
  by_cases constant1 : guard1 = .constantTrue
  · by_cases constant2 : guard2 = .constantTrue
    · rw [constant1, constant2]
      exact Formula.means_of_plain (by simp [writtenTexts]) (by simp [writtenTexts])
    · have only : writtenTexts [guard1, guard2] = [guard2.text] := by
        simp [writtenTexts, constant1, constant2]
      rw [JoinTo, only]
      exact Formula.means_singleton _
  · by_cases constant2 : guard2 = .constantTrue
    · have only : writtenTexts [guard1, guard2] = [guard1.text] := by
        simp [writtenTexts, constant1, constant2]
      rw [JoinTo, only]
      exact Formula.means_singleton _
    · have both : writtenTexts [guard1, guard2] = [guard1.text, guard2.text] := by
        simp [writtenTexts, constant1, constant2]
      rw [JoinTo, both]
      exact (Formula.means_pair_iff _ _).mpr glued.2.2

section Input

variable {order : IterationOrder} {model1 model2 : TIOSTS} {parts : Parts}

variable (input : IsParallelInput order model1 model2 parts)

include input

theorem IsParallelInput.starts_iff {init1 init2 : Transition}
    (initial1 : HasInitial model1 init1) (initial2 : HasInitial model2 init2)
    {depth : Nat} {visited after : List String} {result : TIOSTS}
    (returned : (parallelComposition order depth model1 model2).outcome visited =
      (.ok result, after)) :
    (∃ initial composed, result.initialLocation = some initial ∧
      result.firstOut initial = .ok composed ∧
      Initialises composed [parts.init1, parts.init2]) ↔
        SameAssignments init1 init2 ∧
          JoinTo [init1.dataGuard, init2.dataGuard] [init1.dataGuard, init2.dataGuard] := by
  obtain ⟨followed, follows, created, _⟩ := input.returned_followed returned
  have initialLocation : result.initialLocation = some parts.initial.source := by
    apply Loops.foldlM_returned (fun _ (state : TIOSTS) =>
      state.initialLocation = some parts.initial.source) created parts.base_initialLocation
    intro done move rest state next _ before stepped
    exact (Move.create_initialLocation stepped).trans before
  have first : ∃ composed rest, result.outOf parts.initial.source = composed :: rest ∧
      composed.plain = parts.initial.plain := by
    have whole := follows.outOf parts.initial.source
    rw [parts.base_outOf, List.filter_cons_of_pos (by simp)] at whole
    obtain ⟨composed, rest, listed, plain, _⟩ := List.map_eq_cons_iff.mp whole
    exact ⟨composed, rest, listed, plain⟩
  obtain ⟨composed, rest, listed, plain⟩ := first
  have isFirst : result.firstOut parts.initial.source = .ok composed :=
    firstOut_eq_ok.mpr ⟨rest, listed⟩
  have found1 := initTransition_eq initial1 input.wellFormed1 input.exactCopy1
    input.isParts.init1
  have found2 := initTransition_eq initial2 input.wellFormed2 input.exactCopy2
    input.isParts.init2
  have same : Initialises (initialTransition parts.init1 parts.init2)
      [parts.init1, parts.init2] ↔ SameAssignments init1 init2 ∧
        JoinTo [init1.dataGuard, init2.dataGuard] [init1.dataGuard, init2.dataGuard] := by
    rw [initialTransition_initialises_iff, found1, found2]
    exact Iff.rfl
  rw [← same]
  constructor
  · rintro ⟨initial, other, location, otherFirst, initialises⟩
    obtain rfl := Option.some.inj (initialLocation.symm.trans location)
    obtain rfl := Except.ok.inj (isFirst.symm.trans otherFirst)
    exact initialises.of_plain plain.symm
  · intro initialises
    exact ⟨_, composed, initialLocation, isFirst, initialises.of_plain plain⟩

theorem IsParallelInput.condition_iff {init1 init2 : Transition}
    (initial1 : HasInitial model1 init1) (initial2 : HasInitial model2 init2)
    (apart : ∀ pair, parts.LegallyReaches model1 model2 pair →
      pairLabel pair ≠ parts.initial.source)
    {depth : Nat} {visited after : List String} {result : TIOSTS}
    (returned : (parallelComposition order depth model1 model2).outcome visited =
      (.ok result, after)) :
    (∃ condition, result.initialCondition = some condition ∧
      Formula.IsConjunction condition.text (shown parts.tiosts1.initialCondition)
        (shown parts.tiosts2.initialCondition)) ↔
      CanBeGlued init1.dataGuard.text init2.dataGuard.text := by
  obtain ⟨followed, follows, _, reached⟩ := input.returned_followed returned
  have found1 := (initial1.copied input.wellFormed1 input.exactCopy1).initialCondition
    input.exactCopy1
  have found2 := (initial2.copied input.wellFormed2 input.exactCopy2).initialCondition
    input.exactCopy2
  have none : (followed.filter fun move =>
      parts.base.isInitial (pairLabel move.source)) = [] := by
    rw [List.filter_eq_nil_iff]
    intro move member flagged
    rw [parts.base_isInitial, decide_eq_true_iff] at flagged
    apply apart move.source _ flagged
    exact input.legallyReaches (reached move member).1
  have kept : result.initialCondition =
      some (initialCondition parts.tiosts1 parts.tiosts2) := by
    rw [follows.initialCondition, none, parts.base_initialCondition]
    rfl
  have glued := Formula.isConjunction_glued_iff (shown parts.tiosts1.initialCondition)
    (shown parts.tiosts2.initialCondition)
  have shown1 : shown parts.tiosts1.initialCondition = init1.dataGuard.text := by
    rw [found1]
    rfl
  have shown2 : shown parts.tiosts2.initialCondition = init2.dataGuard.text := by
    rw [found2]
    rfl
  rw [CanBeGlued, ← shown1, ← shown2, ← glued]
  constructor
  · rintro ⟨condition, isCondition, conjunction⟩
    obtain rfl := Option.some.inj (kept.symm.trans isCondition)
    exact conjunction
  · intro conjunction
    exact ⟨_, kept, conjunction⟩

/-- Without commas in the labels, and if nothing leads back to the first model's initial
location, no pair has the label of the initial location. -/
theorem IsParallelInput.initial_apart (avoid1 : model1.LabelsAvoid [','])
    (unentered : parts.tiosts1.inOf parts.init1.source = []) :
    ∀ pair, parts.LegallyReaches model1 model2 pair →
      pairLabel pair ≠ parts.initial.source := by
  have target_ne : ∀ label, ∀ transition ∈ parts.tiosts1.outOf label,
      transition.target ≠ parts.init1.source := by
    intro label transition member same
    have listed := (mem_getTransitions_of_outOf input.exactCopy1 member).1
    have enters := (copy_transition input.exactCopy1 listed).2.1
    rw [same, unentered] at enters
    cases enters
  obtain ⟨start, _, isInit⟩ := input.init1_mem
  have left : ∀ pair, parts.LegallyReaches model1 model2 pair →
      pair.1 ≠ parts.init1.source := by
    intro pair reaches
    induction reaches with
    | refl => exact target_ne start parts.init1 isInit
    | tail _ step induction =>
        obtain ⟨move, legal, rfl, rfl⟩ := step
        cases move with
        | first loc1 loc2 t1 => exact target_ne loc1 t1 legal.1
        | second loc1 loc2 t2 => exact induction
        | both loc1 loc2 t1 t2 => exact target_ne loc1 t1 legal.1
  intro pair reaches same
  apply left pair reaches
  have plain : ∀ label, parts.tiosts1.IsRegistered label → ',' ∉ label.toList := by
    intro label registered
    rw [input.exactCopy1.isRegistered] at registered
    exact avoid1 label registered ',' List.mem_cons_self
  have source : parts.tiosts1.IsRegistered parts.init1.source := by
    have whole := (mem_getTransitions_of_outOf input.exactCopy1 isInit).2
    rw [whole]
    exact TIOSTS.isRegistered_of_mem_outOf isInit
  exact (composedLabel_inj (plain _ (input.reached_inside reaches).1) (plain _ source) same).1

/-- What survives a parallel composition. -/
theorem IsParallelInput.survives_iff {init1 init2 : Transition}
    (initial1 : HasInitial model1 init1) (initial2 : HasInitial model2 init2)
    {depth : Nat} {visited after : List String} {result : TIOSTS}
    (returned : (parallelComposition order depth model1 model2).outcome visited =
      (.ok result, after)) :
    (Survives parts result → SameAssignments init1 init2 ∧
      JoinTo [init1.dataGuard, init2.dataGuard] [init1.dataGuard, init2.dataGuard]) ∧
      ((∀ pair, parts.LegallyReaches model1 model2 pair →
        pairLabel pair ≠ parts.initial.source) →
          (Survives parts result ↔ SameAssignments init1 init2 ∧
            CanBeGlued init1.dataGuard.text init2.dataGuard.text)) := by
  constructor
  · intro survives
    exact (input.starts_iff initial1 initial2 returned).mp survives.starts
  · intro apart
    rw [← input.condition_iff initial1 initial2 apart returned]
    constructor
    · intro survives
      have starts := (input.starts_iff initial1 initial2 returned).mp survives.starts
      exact ⟨starts.1, survives.condition⟩
    · rintro ⟨same, condition⟩
      have glued := (input.condition_iff initial1 initial2 apart returned).mp condition
      exact ⟨(input.starts_iff initial1 initial2 returned).mpr ⟨same, glued.joinTo⟩,
        condition⟩

end Input

end ParallelComposition

/-- The initial location of a model is copied unless it is excluded. -/
theorem HasInitial.lastFlagged {order : IterationOrder} {copy : TIOSTS} {init : Transition}
    (has : HasInitial copy init) (wellFormed : copy.WellFormed) (excluded : List String) :
    (((copy.getLocations order).filter (fun location => location.label ∉ excluded ∧
      location.isInitialLocation = true)).getLast?).map Location.label =
        if init.source ∈ excluded then none else some init.source := by
  have isSource : ∀ location ∈ copy.getLocations order, location.isInitialLocation = true →
      location.label = init.source := by
    intro location member flagged
    obtain ⟨label, found⟩ := (TIOSTS.mem_getLocations order copy).mp member
    rw [wellFormed.label_eq found]
    apply (has.flagged label).mp
    rw [TIOSTS.isInitial, found]
    exact flagged
  split
  · rename_i isExcluded
    have none : (copy.getLocations order).filter (fun location =>
        location.label ∉ excluded ∧ location.isInitialLocation = true) = [] := by
      rw [List.filter_eq_nil_iff]
      intro location member kept
      obtain ⟨outside, flagged⟩ := of_decide_eq_true kept
      rw [isSource location member flagged] at outside
      exact outside isExcluded
    rw [none]
    rfl
  · rename_i notExcluded
    obtain ⟨location, found, flagged⟩ := wellFormed.initial_registered has.location
    have listed : location ∈ copy.getLocations order :=
      (TIOSTS.mem_getLocations order copy).mpr ⟨_, found⟩
    have label := wellFormed.label_eq found
    have member : location ∈ (copy.getLocations order).filter (fun location =>
        location.label ∉ excluded ∧ location.isInitialLocation = true) := by
      apply List.mem_filter.mpr
      simp [listed, label, notExcluded, flagged]
    cases last : ((copy.getLocations order).filter (fun location =>
        location.label ∉ excluded ∧ location.isInitialLocation = true)).getLast? with
    | none =>
        rw [List.getLast?_eq_none_iff.mp last] at member
        cases member
    | some other =>
        obtain ⟨otherListed, kept⟩ := List.mem_filter.mp (List.mem_of_getLast? last)
        rw [Option.map_some, isSource other otherListed (of_decide_eq_true kept).2]

namespace SequentialComposition

theorem source_eq_of_equals {transition other : Transition}
    (same : transition.equals other = true) : transition.source = other.source := by
  simp only [Transition.equals, Bool.and_eq_true, beq_iff_eq] at same
  exact same.1.1.1.1.1.1.1

theorem Junction.rewired1_source (junction : Junction) {transition : Transition}
    (apart : transition.source ≠ junction.tc1.source) :
    (junction.rewired1 transition).source = transition.source := by
  rw [rewired1, rewireFirst]
  split
  · rfl
  · split
    · rename_i same
      exact absurd same apart
    · rfl

theorem Junction.rewired1_fields (junction : Junction) (transition : Transition) :
    junction.rewired1 transition = { transition with
      source := (junction.rewired1 transition).source
      action := (junction.rewired1 transition).action
      target := (junction.rewired1 transition).target } := by
  rw [rewired1, rewireFirst]
  split
  · rfl
  · split <;> rfl

/-- What a sequential composition should keep: a transition that leaves its initial
location does what the first initial transition does, and the merged transition also does
what the second one does. -/
structure Survives (junction : Junction) (init1 : Transition) (result : TIOSTS) : Prop where
  starts : ∃ initial, result.initialLocation = some initial ∧
    ∃ composed ∈ result.outOf initial, Initialises composed [init1]
  merged : junction.merged ∈ result.outOf junction.source ∧
    Initialises junction.merged (junction.tc1 :: [junction.t02, junction.init2].dedup)

/-- The guards that the merged transition conjoins. -/
def Junction.guards (junction : Junction) : List DataGuard :=
  [junction.tc1.dataGuard, junction.t02.dataGuard, junction.init2.dataGuard]

section Input

variable {order : IterationOrder} {model1 model2 result : TIOSTS} {junction : Junction}

theorem Junction.base_initialLocation (junction : Junction) :
    (junction.base order).initialLocation =
      (((junction.tiosts1.getLocations order).filter (fun location =>
        location.label ∉ [junction.tc1.target, junction.tc1.source] ∧
          location.isInitialLocation = true)).getLast?).map Location.label := by
  have blank := junction.declared_isBlank
  obtain ⟨first, initial⟩ := (AddsLocations.refl blank.wellFormed.label_eq).foldl_addFirstLocation
    [junction.tc1.target, junction.tc1.source] (junction.tiosts1.getLocations order)
  obtain ⟨_, same⟩ := first.foldl_addSecondLocation
    [junction.t02.source, junction.t02.target, junction.start2.source]
    (junction.tiosts2.getLocations order)
  have located : (junction.base order).initialLocation =
      ((junction.initialized order).addLocation (Location.new junction.source false)
        |>.addLocation (Location.new junction.target false)).initialLocation := rfl
  rw [located, TIOSTS.addLocation_initialLocation, TIOSTS.addLocation_initialLocation]
  refine Eq.trans ?_ (same.trans ?_)
  · rfl
  · rw [initial, blank.initialLocation, Option.or_none]

theorem survives_iff (wellFormed1 : model1.WellFormed) (wellFormed2 : model2.WellFormed)
    (isJunction : IsJunction order model1 model2 junction) {init1 init2 : Transition}
    (initial1 : HasInitial model1 init1) (initial2 : HasInitial model2 init2)
    (returned : sequentialComposition order model1 model2 = .ok result) :
    Survives junction (model1.copied init1) result ↔
      init1.source ∉ [junction.tc1.target, junction.tc1.source] ∧
        JoinTo junction.guards junction.guards ∧
        (junction.t02 = junction.init2 ∨ OnlyGuarded junction.init2) := by
  have copy1 := exactCopy wellFormed1 isJunction.copy1
  have copy2 := exactCopy wellFormed2 isJunction.copy2
  have copied1 := initial1.copied wellFormed1 copy1
  have copied2 := initial2.copied wellFormed2 copy2
  have initialLocation : result.initialLocation =
      if init1.source ∈ [junction.tc1.target, junction.tc1.source] then none
      else some init1.source := by
    rw [(returned_grows isJunction returned).stores]
    exact junction.base_initialLocation.trans (copied1.lastFlagged copy1.wellFormed _)
  have found2 : junction.init2 = model2.copied init2 := by
    obtain ⟨start2, initial, first⟩ := isJunction.init2
    apply initTransition_eq initial2 wellFormed2 copy2
    rw [ParallelComposition.initTransition, initial, deref_some, ok_bind]
    exact first
  have condition : junction.initialCondition = junction.init2.dataGuard := by
    have isCondition := copied2.initialCondition copy2
    rw [isJunction.initialCondition] at isCondition
    rw [found2]
    exact Option.some.inj isCondition
  have merged : junction.merged ∈ result.outOf junction.source := by
    rw [returned_outOf isJunction returned]
    apply List.mem_filter.mpr
    exact ⟨List.mem_cons_self, by simp [Junction.merged, syncTransition, Junction.source]⟩
  have conjoins : Conjoins junction.merged.dataGuard junction.guards ↔
      JoinTo junction.guards junction.guards := by
    have written : junction.merged.dataGuard = SynchronousProduct.createDataGuard
        (SynchronousProduct.createDataGuard junction.tc1.dataGuard junction.t02.dataGuard)
        junction.initialCondition := rfl
    rw [written, condition]
    exact conjoins_three_iff
  have initialises : Initialises junction.merged
      (junction.tc1 :: [junction.t02, junction.init2].dedup) ↔
        JoinTo junction.guards junction.guards ∧
          (junction.t02 = junction.init2 ∨ OnlyGuarded junction.init2) := by
    rw [← conjoins]
    exact initialises_merged_iff rfl rfl rfl
  constructor
  · intro survives
    constructor
    · intro isExcluded
      obtain ⟨initial, isInitial, _⟩ := survives.starts
      rw [initialLocation, if_pos isExcluded] at isInitial
      cases isInitial
    · exact initialises.mp survives.merged.2
  · rintro ⟨notExcluded, keeps⟩
    constructor
    · refine ⟨init1.source, by rw [initialLocation, if_neg notExcluded], ?_⟩
      have other : model1.copied init1 ∈ junction.others1 order := by
        apply List.mem_filter.mpr
        refine ⟨copied1.mem, ?_⟩
        have apart : ¬ (model1.copied init1).equals junction.tc1 = true := by
          intro same
          apply notExcluded
          rw [← TIOSTS.copied_source model1 init1, source_eq_of_equals same]
          simp
        simpa using apart
      refine ⟨junction.rewired1 (model1.copied init1), ?_, ?_⟩
      · rw [returned_outOf isJunction returned]
        apply List.mem_filter.mpr
        constructor
        · exact List.mem_append_left _ (List.mem_cons_of_mem _ (List.mem_map_of_mem other))
        · rw [decide_eq_true_iff, junction.rewired1_source]
          · rfl
          · intro same
            apply notExcluded
            rw [← TIOSTS.copied_source model1 init1, same]
            simp
      · exact Initialises.of_ends (junction.rewired1_fields _)
    · exact ⟨merged, initialises.mpr keeps⟩

end Input

end SequentialComposition

namespace InterruptionComposition

/-- What an interruption composition should keep: a transition that leaves its initial
location does what the first initial transition does, and every merged transition from the
second model's entry also does what the second one does. -/
structure Survives (parts : Parts) (init1 init2 : Transition) (result : TIOSTS) : Prop where
  starts : ∃ initial, result.initialLocation = some initial ∧
    ∃ composed ∈ result.outOf initial, Initialises composed [init1]
  merged : ∀ point ∈ parts.points, point.t2Sync.source = init2.target →
    parts.merged point ∈ result.outOf point.source ∧
      Initialises (parts.merged point) (point.t1Sync :: [point.t2Sync, init2].dedup)

/-- The transition that enters a point first in the second model. -/
def Parts.entering (parts : Parts) (point : Point) : Option Transition :=
  (parts.tiosts2.inOf point.t2Sync.source).head?

/-- The guards that the merged transition of a point conjoins: the initial one only if the
first transition that enters the point is initial. -/
def Parts.conjoined (parts : Parts) (init2 : Transition) (point : Point) : List DataGuard :=
  if (parts.entering point).any (fun first => parts.tiosts2.isInitial first.source) then
    [point.t1Sync.dataGuard, point.t2Sync.dataGuard, init2.dataGuard]
  else
    [point.t1Sync.dataGuard, point.t2Sync.dataGuard]

/-- The initial location is no end of a synchronising transition and leads to no end that
is not looked for; at the second model's entry, the conjoined guards mean the two
synchronised ones and the initial one, which has nothing else. -/
structure Keeps (order : IterationOrder) (parts : Parts) (init1 init2 : Transition) : Prop where
  source : init1.source ∉ parts.excluded1 order
  target : init1.target ∈ parts.excluded1 order → ∃ point ∈ parts.points,
    init1.target = point.t1Sync.source ∨ init1.target = point.t1Sync.target
  guard : ∀ point ∈ parts.points, point.t2Sync.source = init2.target →
    JoinTo (parts.conjoined init2 point)
      [point.t1Sync.dataGuard, point.t2Sync.dataGuard, init2.dataGuard]
  assignments : ∀ point ∈ parts.points, point.t2Sync.source = init2.target →
    point.t2Sync = init2 ∨ OnlyGuarded init2

theorem Parts.base_initialLocation (parts : Parts) (order : IterationOrder) :
    (parts.base order).initialLocation =
      (((parts.tiosts1.getLocations order).filter (fun location =>
        location.label ∉ parts.excluded1 order ∧
          location.isInitialLocation = true)).getLast?).map Location.label := by
  have blank := parts.declared_isBlank
  obtain ⟨first, initial⟩ := (AddsLocations.refl blank.wellFormed.label_eq).foldl_addFirstLocation
    (parts.excluded1 order) (parts.tiosts1.getLocations order)
  obtain ⟨_, same⟩ := first.foldl_addSecondLocation (parts.excluded2 order)
    (parts.tiosts2.getLocations order)
  rw [Parts.base, same, initial, blank.initialLocation, Option.or_none]

section Input

variable {order : IterationOrder} {model1 model2 result : TIOSTS} {parts : Parts}

/-- When the merged guard of a point is the conjunction of the three. -/
theorem guard_conjoins_iff {init2 : Transition} (initial2 : HasInitial parts.tiosts2 init2)
    (copy2 : TIOSTS.IsExactCopy order model2 parts.tiosts2) (point : Point)
    {guards : List DataGuard} :
    Conjoins (parts.guard point) guards ↔ JoinTo (parts.conjoined init2 point) guards := by
  cases entering : parts.tiosts2.inOf point.t2Sync.source with
  | nil =>
      have merged : parts.guard point =
          createDataGuard point.t1Sync.dataGuard point.t2Sync.dataGuard := by
        rw [Parts.guard, entering]
      have conjoined : parts.conjoined init2 point =
          [point.t1Sync.dataGuard, point.t2Sync.dataGuard] := by
        rw [Parts.conjoined, Parts.entering, entering]
        rfl
      rw [merged, conjoined]
      exact conjoins_two_iff
  | cons first rest =>
      have isFirst : parts.entering point = some first := by
        rw [Parts.entering, entering]
        rfl
      by_cases flagged : parts.tiosts2.isInitial first.source = true
      · have member : first ∈ parts.tiosts2.inOf point.t2Sync.source := by simp [entering]
        have isInit : first = init2 := initial2.eq_of_source copy2
          (mem_getTransitions_of_inOf copy2 member).1 ((initial2.flagged _).mp flagged)
        have merged : parts.guard point = createDataGuard
            (createDataGuard point.t1Sync.dataGuard point.t2Sync.dataGuard)
              first.dataGuard := by
          rw [Parts.guard, entering]
          exact if_pos flagged
        have conjoined : parts.conjoined init2 point =
            [point.t1Sync.dataGuard, point.t2Sync.dataGuard, init2.dataGuard] := by
          rw [Parts.conjoined, isFirst]
          exact if_pos flagged
        rw [merged, conjoined, isInit]
        exact conjoins_three_iff
      · have merged : parts.guard point =
            createDataGuard point.t1Sync.dataGuard point.t2Sync.dataGuard := by
          rw [Parts.guard, entering]
          exact if_neg flagged
        have conjoined : parts.conjoined init2 point =
            [point.t1Sync.dataGuard, point.t2Sync.dataGuard] := by
          rw [Parts.conjoined, isFirst]
          exact if_neg flagged
        rw [merged, conjoined]
        exact conjoins_two_iff

/-- A merged transition takes over the second initial transition if its guard does and the
initial transition has nothing else. -/
theorem merged_initialises_iff {init2 : Transition}
    (initial2 : HasInitial parts.tiosts2 init2)
    (copy2 : TIOSTS.IsExactCopy order model2 parts.tiosts2) (point : Point) :
    Initialises (parts.merged point) (point.t1Sync :: [point.t2Sync, init2].dedup) ↔
      JoinTo (parts.conjoined init2 point)
        [point.t1Sync.dataGuard, point.t2Sync.dataGuard, init2.dataGuard] ∧
          (point.t2Sync = init2 ∨ OnlyGuarded init2) := by
  rw [← guard_conjoins_iff initial2 copy2 point]
  exact initialises_merged_iff rfl rfl rfl

theorem IsPoint.excluded1 {point : Point} (isPoint : IsPoint order parts point) :
    point.t1Sync.source ∈ parts.excluded1 order ∧
      point.t1Sync.target ∈ parts.excluded1 order := by
  have synchronises : point.t1Sync.action.name ∈ parts.eSync := by
    rw [isPoint.t1Sync.2]
    exact isPoint.actionSync
  constructor
  · apply mem_buildSynchronizationLocations.mpr
    exact ⟨point.t1Sync, isPoint.t1Sync.1, synchronises, Or.inl rfl⟩
  · apply mem_buildSynchronizationLocations.mpr
    exact ⟨point.t1Sync, isPoint.t1Sync.1, synchronises, Or.inr rfl⟩

theorem IsParts.result_initialLocation (isParts : IsParts order model1 model2 parts)
    (wellFormed1 : model1.WellFormed) {init1 : Transition}
    (initial1 : HasInitial model1 init1)
    (returned : interruptionComposition order model1 model2 = .ok result) :
    result.initialLocation =
      if init1.source ∈ parts.excluded1 order then none else some init1.source := by
  have copy1 := exactCopy wellFormed1 isParts.copy1
  obtain ⟨_, rewired, holds, _⟩ := isParts.returned_holds returned
  rw [holds.initialLocation, parts.base_initialLocation]
  exact (initial1.copied wellFormed1 copy1).lastFlagged copy1.wellFormed _

theorem survives_of_keeps (wellFormed1 : model1.WellFormed) (wellFormed2 : model2.WellFormed)
    (isParts : IsParts order model1 model2 parts) {init1 init2 : Transition}
    (initial1 : HasInitial model1 init1) (initial2 : HasInitial model2 init2)
    (returned : interruptionComposition order model1 model2 = .ok result)
    (keeps : Keeps order parts init1 (model2.copied init2)) :
    Survives parts (model1.copied init1) (model2.copied init2) result := by
  have copy1 := exactCopy wellFormed1 isParts.copy1
  have copy2 := exactCopy wellFormed2 isParts.copy2
  have copied1 := initial1.copied wellFormed1 copy1
  have copied2 := initial2.copied wellFormed2 copy2
  obtain ⟨_, rewired, holds, _, covered⟩ := isParts.returned_holds returned
  constructor
  · refine ⟨init1.source, ?_, ?_⟩
    · rw [isParts.result_initialLocation wellFormed1 initial1 returned, if_neg keeps.source]
    · by_cases touched : init1.target ∈ parts.excluded1 order
      · obtain ⟨point, inPoints, ends⟩ := keeps.target touched
        have other : model1.copied init1 ∈ parts.others1 order := by
          apply mem_others1.mpr
          refine ⟨copied1.mem, ?_⟩
          intro synchronises
          apply keeps.source
          apply mem_buildSynchronizationLocations.mpr
          exact ⟨_, copied1.mem, synchronises, Or.inl rfl⟩
        have touches : point.TouchesFirst (model1.copied init1) := by
          rcases ends with source | target
          · exact Or.inl source
          · exact Or.inr (Or.inl target)
        obtain ⟨made, member, rewires⟩ := (covered point inPoints).1 _ other touches
        have excluded := (isParts.isPoint inPoints).excluded1
        have source : made.source = init1.source := by
          cases rewires with
          | toSource _ => rfl
          | toTarget _ => rfl
          | fromTarget same => exact absurd (same ▸ excluded.2) keeps.source
          | fromSource same => exact absurd (same ▸ excluded.1) keeps.source
        refine ⟨made, ?_, ?_⟩
        · rw [holds.outOf]
          apply List.mem_filter.mpr
          exact ⟨List.mem_append_right _ member, decide_eq_true source.symm⟩
        · have fields := rewires.fields
          apply Initialises.of_ends
          rw [fields]
      · refine ⟨model1.copied init1, ?_, ?_⟩
        · have kept : model1.copied init1 ∈ parts.kept1 order :=
            mem_keptTransitions.mpr ⟨copied1.mem, keeps.source, touched⟩
          rw [holds.outOf]
          apply List.mem_filter.mpr
          constructor
          · exact List.mem_append_left _ (List.mem_append_left _ (List.mem_append_left _ kept))
          · exact decide_eq_true rfl
        · exact Initialises.of_ends rfl
  · intro point inPoints entry
    constructor
    · rw [holds.outOf]
      apply List.mem_filter.mpr
      constructor
      · exact List.mem_append_left _ (List.mem_append_right _ (List.mem_map_of_mem inPoints))
      · exact decide_eq_true rfl
    · apply (merged_initialises_iff copied2 copy2 point).mpr
      exact ⟨keeps.guard point inPoints entry, keeps.assignments point inPoints entry⟩

/-- When every synchronising action is on one transition, the conditions are necessary. -/
theorem keeps_of_survives (wellFormed1 : model1.WellFormed) (wellFormed2 : model2.WellFormed)
    (isParts : IsParts order model1 model2 parts) {init1 init2 : Transition}
    (initial1 : HasInitial model1 init1) (initial2 : HasInitial model2 init2)
    (single : ∀ transition ∈ parts.tiosts1.getTransitions order,
      transition.action.name ∈ parts.eSync → ∃ point ∈ parts.points,
        transition = point.t1Sync)
    (returned : interruptionComposition order model1 model2 = .ok result)
    (survives : Survives parts (model1.copied init1) (model2.copied init2) result) :
    Keeps order parts init1 (model2.copied init2) := by
  have copy2 := exactCopy wellFormed2 isParts.copy2
  have copied2 := initial2.copied wellFormed2 copy2
  constructor
  · intro isExcluded
    obtain ⟨initial, isInitial, _⟩ := survives.starts
    rw [isParts.result_initialLocation wellFormed1 initial1 returned,
      if_pos isExcluded] at isInitial
    cases isInitial
  · intro touched
    obtain ⟨transition, listed, synchronises, ends⟩ :=
      mem_buildSynchronizationLocations.mp touched
    obtain ⟨point, inPoints, same⟩ := single transition listed synchronises
    rw [same] at ends
    exact ⟨point, inPoints, ends⟩
  · intro point inPoints entry
    have initialises := (survives.merged point inPoints entry).2
    exact ((merged_initialises_iff copied2 copy2 point).mp initialises).1
  · intro point inPoints entry
    have initialises := (survives.merged point inPoints entry).2
    exact ((merged_initialises_iff copied2 copy2 point).mp initialises).2

end Input

end InterruptionComposition

namespace InitialInstance

def order : IterationOrder := ⟨id, IterationOrder.id_perm⟩

def init1 : Transition :=
  { Transition.bare "s" ⟨"i", .internal, []⟩ "a" with dataGuard := .written "(m > 0)" }

/-- A model that starts and makes a call. -/
def model1 : TIOSTS :=
  .assemble (.declare "M" [⟨"i", .internal, []⟩, ⟨"call", .output, []⟩] [⟨"m", .integer⟩] [] [])
    ["s", "a", "b"] "s" [init1, .bare "a" ⟨"call", .output, []⟩ "b"]

def init2 (assignments : Option String) : Transition :=
  { Transition.bare "t" ⟨"j", .internal, []⟩ "c" with
    dataGuard := .written "(n > 0)"
    dataAssignments := assignments }

/-- A model that initialises its variable and is then called. -/
def model2 (assignments : Option String) : TIOSTS :=
  .assemble (.declare "N" [⟨"j", .internal, []⟩, ⟨"call", .input, []⟩] [⟨"n", .integer⟩] [] [])
    ["t", "c", "d"] "t" [init2 assignments, .bare "c" ⟨"call", .input, []⟩ "d"]

instance (transition : Transition) : Decidable (OnlyGuarded transition) :=
  decidable_of_iff (_ ∧ _ ∧ _)
    ⟨fun ⟨clockGuard, data, resets⟩ => ⟨clockGuard, data, resets⟩,
      fun ⟨clockGuard, data, resets⟩ => ⟨clockGuard, data, resets⟩⟩

/-- Guards that can be joined by AND without further ado. -/
def Plain (guards : List DataGuard) : Prop :=
  ∀ guard ∈ guards, Formula.BalancedText guard.text ∧ Formula.IsDisjunct guard.text

instance (guards : List DataGuard) : Decidable (Plain guards) :=
  inferInstanceAs (Decidable (∀ guard ∈ guards, _))

/-- What is checked of the junction of a sequential composition. -/
def JunctionChecked (junction : SequentialComposition.Junction) : Prop :=
  init1.source ∉ [junction.tc1.target, junction.tc1.source] ∧ Plain junction.guards ∧
    (junction.t02 = junction.init2 ∨ OnlyGuarded junction.init2)

instance (junction : SequentialComposition.Junction) : Decidable (JunctionChecked junction) :=
  inferInstanceAs (Decidable (_ ∧ _))

/-- What is checked of the parts of an interruption. -/
def KeepsChecked (parts : InterruptionComposition.Parts) (init1 init2 : Transition) : Prop :=
  init1.source ∉ parts.excluded1 order ∧
    (∃ point ∈ parts.points,
      init1.target = point.t1Sync.source ∨ init1.target = point.t1Sync.target) ∧
    (∀ point ∈ parts.points, parts.conjoined init2 point =
      [point.t1Sync.dataGuard, point.t2Sync.dataGuard, init2.dataGuard] ∧
        Plain (parts.conjoined init2 point)) ∧ OnlyGuarded init2

instance (parts : InterruptionComposition.Parts) (init1 init2 : Transition) :
    Decidable (KeepsChecked parts init1 init2) :=
  inferInstanceAs (Decidable (_ ∧ _))

theorem keeps_of_checked {parts : InterruptionComposition.Parts} {init1 init2 : Transition}
    (checked : KeepsChecked parts init1 init2) :
    InterruptionComposition.Keeps order parts init1 init2 := by
  obtain ⟨source, target, guards, only⟩ := checked
  constructor
  · exact source
  · exact fun _ => target
  · intro point inPoints _
    obtain ⟨conjoined, plain⟩ := guards point inPoints
    rw [conjoined] at plain ⊢
    exact joinTo_of_plain plain
  · exact fun _ _ _ => Or.inr only

/-- What is checked of the initial transition of a model. -/
def Checks (model : TIOSTS) (labels : List String) (init : Transition) : Prop :=
  model.initialLocation = some init.source ∧ model.outOf init.source = [init] ∧
    (∀ label ∈ labels, (model.isInitial label = true ↔ label = init.source)) ∧
    init.source ∈ labels ∧ model.transitions.lookup init.key = some init

instance (model : TIOSTS) (labels : List String) (init : Transition) :
    Decidable (Checks model labels init) :=
  inferInstanceAs (Decidable (_ ∧ _))

theorem hasInitial {model : TIOSTS} {labels : List String} {init : Transition}
    (registered : ∀ label, model.IsRegistered label ↔ label ∈ labels)
    (checked : Checks model labels init) : HasInitial model init := by
  obtain ⟨location, only, flagged, inLabels, stored⟩ := checked
  refine ⟨location, only, ?_, stored⟩
  intro label
  constructor
  · intro isInitial
    have inModel : model.IsRegistered label := by
      rw [TIOSTS.isRegistered_iff]
      unfold TIOSTS.isInitial at isInitial
      cases found : model.getLocation label with
      | none =>
          rw [found] at isInitial
          cases isInitial
      | some other => exact ⟨other, rfl⟩
    exact (flagged label ((registered label).mp inModel)).mp isInitial
  · rintro rfl
    exact (flagged _ inLabels).mpr rfl

theorem wellFormed1 : model1.WellFormed :=
  TIOSTS.assemble_wellFormed (TIOSTS.declare_isBlank _ _ _ _ _) (by decide)

theorem initial1 : HasInitial model1 init1 :=
  hasInitial (TIOSTS.assemble_isRegistered (TIOSTS.declare_isBlank _ _ _ _ _)) (by decide)

theorem avoid1 : model1.LabelsAvoid [','] := by
  have blank : (TIOSTS.declare "M" [⟨"i", .internal, []⟩, ⟨"call", .output, []⟩]
      [⟨"m", .integer⟩] [] []).IsBlank := TIOSTS.declare_isBlank _ _ _ _ _
  exact TIOSTS.assemble_labelsAvoid blank (by decide)

theorem guards_glued :
    ParallelComposition.CanBeGlued init1.dataGuard.text (init2 none).dataGuard.text :=
  ⟨by decide, by decide, (Formula.means_pair_iff _ _).mp
    (Formula.means_of_plain (by decide) (by decide))⟩

end InitialInstance

end Symbolrt
