import Symbolrt.Base.Assembly
import Symbolrt.Algorithms.ProductClocks
import Symbolrt.Compositions.SequentialResult
import Symbolrt.Compositions.InterruptionResult
import Symbolrt.Compositions.ParallelInterleaving

/-!
# Clock numbers in the compositions

The compositions take over the clock guards of both models with the numbers they have.
Parallel and interruption declare the first model's clocks only, and the sequential
composition appends the second model's, so a guard of the second model is right only where
both lists have its clock at the same place.
-/

namespace Symbolrt

/-- The simple guards name clocks of the list and carry their numbers. -/
def ClockGuard.DeclaredBy (allClocks : List String) (guard : ClockGuard) : Prop :=
  ∀ simple ∈ guard.clockGuard,
    simple.clock ∈ allClocks ∧ simple.clockId = clockIdIn allClocks simple.clock

/-- The first list has the clock, at the number the second gives it. -/
def SamePlace (clocks1 clocks2 : List String) (clock : String) : Prop :=
  clock ∈ clocks1 ∧ clockIdIn clocks1 clock = clockIdIn clocks2 clock

instance (clocks1 clocks2 : List String) (clock : String) :
    Decidable (SamePlace clocks1 clocks2 clock) :=
  inferInstanceAs (Decidable (_ ∧ _))

section Guards

variable {clocks1 clocks2 : List String} {guard guard1 guard2 : ClockGuard}

theorem declaredBy_createClockGuard_iff :
    (SynchronousProduct.createClockGuard guard1 guard2).DeclaredBy clocks1 ↔
      guard1.DeclaredBy clocks1 ∧ guard2.DeclaredBy clocks1 := by
  constructor
  · intro declared
    constructor
    · exact fun simple member => declared simple (List.mem_append_left _ member)
    · exact fun simple member => declared simple (List.mem_append_right _ member)
  · rintro ⟨declared1, declared2⟩ simple member
    rcases List.mem_append.mp member with one | two
    · exact declared1 simple one
    · exact declared2 simple two

theorem declaredBy_first_iff (declared : guard.DeclaredBy clocks2) :
    guard.DeclaredBy clocks1 ↔
      ∀ simple ∈ guard.clockGuard, SamePlace clocks1 clocks2 simple.clock := by
  apply forall₂_congr
  intro simple member
  rw [(declared simple member).2, SamePlace]
  exact and_congr_right fun _ => eq_comm

theorem declaredBy_append_first (declared : guard.DeclaredBy clocks1) :
    guard.DeclaredBy (clocks1 ++ clocks2) := by
  intro simple member
  obtain ⟨inFirst, number⟩ := declared simple member
  constructor
  · exact List.mem_append_left _ inFirst
  · rw [number, clockIdIn_append inFirst]

/-- A guard of the second list is one of the concatenation where the places agree, or if
the first list is empty. -/
theorem declaredBy_append_second_iff (declared : guard.DeclaredBy clocks2) :
    guard.DeclaredBy (clocks1 ++ clocks2) ↔ ∀ simple ∈ guard.clockGuard,
      clocks1 = [] ∨ SamePlace clocks1 clocks2 simple.clock := by
  apply forall₂_congr
  intro simple member
  obtain ⟨inSecond, number⟩ := declared simple member
  have inBoth : simple.clock ∈ clocks1 ++ clocks2 := List.mem_append_right _ inSecond
  by_cases inFirst : simple.clock ∈ clocks1
  · have nonempty : clocks1 ≠ [] := List.ne_nil_of_mem inFirst
    rw [number, clockIdIn_append inFirst]
    constructor
    · rintro ⟨_, same⟩
      exact Or.inr ⟨inFirst, same.symm⟩
    · rintro (empty | ⟨_, same⟩)
      · exact absurd empty nonempty
      · exact ⟨inBoth, same.symm⟩
  · rw [number, clockIdIn_append_right inFirst inSecond]
    constructor
    · rintro ⟨_, shifted⟩
      have noLength : clocks1.length = 0 := by omega
      exact Or.inl (List.length_eq_zero_iff.mp noLength)
    · rintro (empty | ⟨impossible, _⟩)
      · refine ⟨inBoth, ?_⟩
        rw [empty, List.length_nil, Nat.zero_add]
      · exact absurd impossible inFirst

end Guards

theorem declaredBy_of_copy {order : IterationOrder} {model copy : TIOSTS}
    (wellFormed : model.WellFormed) (numbered : model.NumberedClocks)
    (isCopy : TIOSTS.IsExactCopy order model copy) {transition : Transition}
    (member : transition ∈ copy.getTransitions order) :
    transition.clockGuard.DeclaredBy copy.clocks := by
  have listed := (copy_transitions_perm isCopy).mem_iff.mp member
  obtain ⟨original, stored, rfl⟩ := List.mem_map.mp listed
  obtain ⟨key, found⟩ := (TIOSTS.mem_getTransitions order model).mp stored
  have leaves := (wellFormed.stored found).2
  rw [isCopy.clocks]
  intro simple renumbered
  obtain ⟨before, inGuard, rfl⟩ := List.mem_map.mp renumbered
  exact ⟨(numbered _ original leaves before inGuard).1, rfl⟩

namespace SequentialComposition

theorem Junction.rewired1_clockGuard (junction : Junction) (transition : Transition) :
    (junction.rewired1 transition).clockGuard = transition.clockGuard := by
  rw [Junction.rewired1, rewireFirst]
  split
  · rfl
  · split <;> rfl

theorem Junction.rewired2_clockGuard (junction : Junction) (transition : Transition) :
    (junction.rewired2 transition).clockGuard = transition.clockGuard := by
  rw [Junction.rewired2, rewireSecond]
  split
  · rfl
  · split <;> rfl

theorem numberedClocks_iff {order : IterationOrder} {model1 model2 result : TIOSTS}
    {junction : Junction} (wellFormed1 : model1.WellFormed) (wellFormed2 : model2.WellFormed)
    (numbered1 : model1.NumberedClocks) (numbered2 : model2.NumberedClocks)
    (isJunction : IsJunction order model1 model2 junction)
    (returned : sequentialComposition order model1 model2 = .ok result) :
    result.NumberedClocks ↔ ∀ transition ∈ junction.t02 :: junction.others2 order,
      ∀ simple ∈ transition.clockGuard.clockGuard,
        model1.clocks = [] ∨ SamePlace model1.clocks model2.clocks simple.clock := by
  have copy1 := exactCopy wellFormed1 isJunction.copy1
  have copy2 := exactCopy wellFormed2 isJunction.copy2
  have clocks : result.clocks = model1.clocks ++ model2.clocks := by
    rw [(returned_grows isJunction returned).stores, ← copy1.clocks, ← copy2.clocks]
    exact junction.base_clocks order
  have first : ∀ transition ∈ junction.tiosts1.getTransitions order,
      transition.clockGuard.DeclaredBy result.clocks := by
    intro transition member
    have declared := declaredBy_of_copy wellFormed1 numbered1 copy1 member
    rw [copy1.clocks] at declared
    rw [clocks]
    exact declaredBy_append_first declared
  have second : ∀ transition ∈ junction.tiosts2.getTransitions order,
      (transition.clockGuard.DeclaredBy result.clocks ↔
        ∀ simple ∈ transition.clockGuard.clockGuard,
          model1.clocks = [] ∨ SamePlace model1.clocks model2.clocks simple.clock) := by
    intro transition member
    have declared := declaredBy_of_copy wellFormed2 numbered2 copy2 member
    rw [copy2.clocks] at declared
    rw [clocks]
    exact declaredBy_append_second_iff declared
  have tc1 : junction.tc1 ∈ junction.tiosts1.getTransitions order := by
    have found := isJunction.tc1
    rw [getCompositionTransition, recoverTransition_eq] at found
    exact (List.mem_filter.mp (List.mem_of_getLast? found)).1
  have t02 : junction.t02 ∈ junction.tiosts2.getTransitions order :=
    (mem_getTransitions_of_outOf copy2 (firstOut_mem isJunction.t02)).1
  have others2 : ∀ transition ∈ junction.others2 order,
      transition ∈ junction.tiosts2.getTransitions order :=
    fun transition member => (List.mem_filter.mp member).1
  constructor
  · intro numbered transition member
    rcases List.mem_cons.mp member with rfl | other
    · obtain ⟨label, leaves⟩ := (exists_transition_iff isJunction returned
        junction.merged).mpr List.mem_cons_self
      have merged : (SynchronousProduct.createClockGuard junction.tc1.clockGuard
          junction.t02.clockGuard).DeclaredBy result.clocks := numbered label _ leaves
      exact (second _ t02).mp (declaredBy_createClockGuard_iff.mp merged).2
    · have created : junction.rewired2 transition ∈ junction.created order :=
        List.mem_append_right _ (List.mem_map_of_mem other)
      obtain ⟨label, leaves⟩ := (exists_transition_iff isJunction returned _).mpr created
      have declared : (junction.rewired2 transition).clockGuard.DeclaredBy result.clocks :=
        numbered label _ leaves
      rw [junction.rewired2_clockGuard] at declared
      exact (second _ (others2 transition other)).mp declared
  · intro places label transition leaves
    have created := (exists_transition_iff isJunction returned _).mp ⟨label, leaves⟩
    change transition.clockGuard.DeclaredBy result.clocks
    rcases List.mem_append.mp created with one | two
    · rcases List.mem_cons.mp one with rfl | rewired
      · have merged : (SynchronousProduct.createClockGuard junction.tc1.clockGuard
            junction.t02.clockGuard).DeclaredBy result.clocks := by
          apply declaredBy_createClockGuard_iff.mpr
          exact ⟨first _ tc1, (second _ t02).mpr (places _ List.mem_cons_self)⟩
        exact merged
      · obtain ⟨original, member, rfl⟩ := List.mem_map.mp rewired
        rw [junction.rewired1_clockGuard]
        exact first original (List.mem_filter.mp member).1
    · obtain ⟨original, member, rfl⟩ := List.mem_map.mp two
      rw [junction.rewired2_clockGuard]
      apply (second original (others2 original member)).mpr
      exact places original (List.mem_cons_of_mem _ member)

end SequentialComposition

namespace InterruptionComposition

theorem numberedClocks_iff {order : IterationOrder} {model1 model2 result : TIOSTS}
    {parts : Parts} (wellFormed1 : model1.WellFormed) (wellFormed2 : model2.WellFormed)
    (numbered1 : model1.NumberedClocks) (numbered2 : model2.NumberedClocks)
    (isParts : IsParts order model1 model2 parts)
    (returned : interruptionComposition order model1 model2 = .ok result) :
    result.NumberedClocks ↔ ∀ transition,
      (Taken order parts transition ∨ ∃ point ∈ parts.points, transition = point.t2Sync) →
        ∀ simple ∈ transition.clockGuard.clockGuard,
          SamePlace model1.clocks model2.clocks simple.clock := by
  have copy1 := exactCopy wellFormed1 isParts.copy1
  have copy2 := exactCopy wellFormed2 isParts.copy2
  obtain ⟨origins, held, merged⟩ := isParts.returned_origins returned
  have clocks : result.clocks = model1.clocks := by
    obtain ⟨_, rewired, holds, _⟩ := isParts.returned_holds returned
    rw [holds.clocks, (parts.base_adds order).stores]
    exact copy1.clocks
  have first : ∀ transition ∈ parts.tiosts1.getTransitions order,
      transition.clockGuard.DeclaredBy result.clocks := by
    intro transition member
    have declared := declaredBy_of_copy wellFormed1 numbered1 copy1 member
    rw [copy1.clocks] at declared
    rw [clocks]
    exact declared
  have second : ∀ transition ∈ parts.tiosts2.getTransitions order,
      (transition.clockGuard.DeclaredBy result.clocks ↔
        ∀ simple ∈ transition.clockGuard.clockGuard,
          SamePlace model1.clocks model2.clocks simple.clock) := by
    intro transition member
    have declared := declaredBy_of_copy wellFormed2 numbered2 copy2 member
    rw [copy2.clocks] at declared
    rw [clocks]
    exact declaredBy_first_iff declared
  constructor
  · rintro numbered transition (taken | ⟨point, inPoints, rfl⟩)
    · obtain ⟨label, made, leaves, fields⟩ := held transition taken
      have declared : made.clockGuard.DeclaredBy result.clocks := numbered label made leaves
      rw [fields.clockGuard] at declared
      exact (second transition taken.mem.1).mp declared
    · have declared : (createClockGuard point.t1Sync.clockGuard
          point.t2Sync.clockGuard).DeclaredBy result.clocks :=
        numbered _ _ (merged point inPoints)
      exact (second _ (isParts.isPoint inPoints).t2Sync.1).mp
        (declaredBy_createClockGuard_iff.mp declared).2
  · intro places label transition leaves
    change transition.clockGuard.DeclaredBy result.clocks
    rcases origins label transition leaves with
      ⟨_, origin, listed, fields⟩ | ⟨point, inPoints, _, rfl⟩ | ⟨origin, taken, fields⟩
    · rw [fields.clockGuard]
      exact first origin listed
    · have isPoint := isParts.isPoint inPoints
      have declared : (createClockGuard point.t1Sync.clockGuard
          point.t2Sync.clockGuard).DeclaredBy result.clocks := by
        apply declaredBy_createClockGuard_iff.mpr
        constructor
        · exact first _ isPoint.t1Sync.1
        · exact (second _ isPoint.t2Sync.1).mpr (places _ (Or.inr ⟨point, inPoints, rfl⟩))
      exact declared
    · rw [fields.clockGuard]
      exact (second origin taken.mem.1).mpr (places origin (Or.inl taken))

end InterruptionComposition

namespace ParallelComposition

/-- The transition of the second component that takes part in a move. -/
def Move.t2 : Move → Option Transition
  | .first _ _ _ => none
  | .second _ _ t2 => some t2
  | .both _ _ _ t2 => some t2

/-- The second model's transition is its initial one or takes part in a move the search
can reach. -/
def TakesPart (model1 model2 : TIOSTS) (parts : Parts) (transition : Transition) : Prop :=
  transition = parts.init2 ∨ ∃ move : Move,
    (parts.search model1 model2).Reaches parts.root move.source ∧
      move ∈ (parts.search model1 model2).moves move.source ∧ move.t2 = some transition

section Input

variable {order : IterationOrder} {model1 model2 result : TIOSTS} {parts : Parts}

/-- What a move creates has right numbers exactly if the second component's guard has. -/
theorem Move.transition_declaredBy_iff {clocks : List String} (move : Move)
    (first : ∀ t1 ∈ parts.tiosts1.getTransitions order, t1.clockGuard.DeclaredBy clocks)
    (legal : parts.IsLegal model1 model2 move)
    (copy1 : TIOSTS.IsExactCopy order model1 parts.tiosts1) :
    move.transition.clockGuard.DeclaredBy clocks ↔
      ∀ t2, move.t2 = some t2 → t2.clockGuard.DeclaredBy clocks := by
  cases move with
  | first loc1 loc2 t1 =>
      have listed := (mem_getTransitions_of_outOf copy1 legal.1).1
      constructor
      · intro _ t2 impossible
        cases impossible
      · intro _
        exact first t1 listed
  | second loc1 loc2 t2 =>
      constructor
      · intro declared other same
        rw [← Option.some.inj same]
        exact declared
      · exact fun declared => declared t2 rfl
  | both loc1 loc2 t1 t2 =>
      have listed := (mem_getTransitions_of_outOf copy1 legal.1).1
      have merged : (Move.transition (.both loc1 loc2 t1 t2)).clockGuard.DeclaredBy clocks ↔
          t1.clockGuard.DeclaredBy clocks ∧ t2.clockGuard.DeclaredBy clocks :=
        declaredBy_createClockGuard_iff
      rw [merged]
      constructor
      · rintro ⟨_, declared⟩ other same
        rw [← Option.some.inj same]
        exact declared
      · exact fun declared => ⟨first t1 listed, declared t2 rfl⟩

/-- What holds of all transitions holds of the initial one and of those followed. -/
theorem Follows.forall_outOf_iff {followed : List Move}
    (follows : Follows parts.base followed result) (holds : Transition → Prop) :
    (∀ label, ∀ transition ∈ result.outOf label, holds transition.plain) ↔
      holds parts.initial.plain ∧ ∀ move ∈ followed, holds move.transition.plain := by
  have inResult : ∀ label plain, (∃ transition ∈ result.outOf label, transition.plain = plain) ↔
      (label = parts.initial.source ∧ plain = parts.initial.plain) ∨
        ∃ move ∈ followed, plain = move.transition.plain ∧ label = plain.source := by
    intro label plain
    rw [← List.mem_map, follows.outOf, parts.base_outOf, List.mem_append, List.mem_map,
      List.mem_filter, List.mem_map]
    apply or_congr
    · simp only [List.mem_filter, List.mem_singleton, decide_eq_true_iff]
      constructor
      · rintro ⟨transition, ⟨rfl, source⟩, rfl⟩
        exact ⟨source, rfl⟩
      · rintro ⟨source, rfl⟩
        exact ⟨parts.initial, ⟨rfl, source⟩, rfl⟩
    · rw [decide_eq_true_iff]
      constructor
      · rintro ⟨⟨move, member, same⟩, source⟩
        exact ⟨move, member, same.symm, source⟩
      · rintro ⟨move, member, same, source⟩
        exact ⟨⟨move, member, same.symm⟩, source⟩
  constructor
  · intro all
    constructor
    · obtain ⟨transition, leaves, same⟩ :=
        (inResult _ _).mpr (Or.inl ⟨rfl, rfl⟩)
      rw [← same]
      exact all _ transition leaves
    · intro move member
      obtain ⟨transition, leaves, same⟩ :=
        (inResult _ _).mpr (Or.inr ⟨move, member, rfl, rfl⟩)
      rw [← same]
      exact all _ transition leaves
  · rintro ⟨initial, moves⟩ label transition leaves
    rcases (inResult label transition.plain).mp ⟨transition, leaves, rfl⟩ with
      ⟨_, same⟩ | ⟨move, member, same, _⟩
    · rw [same]
      exact initial
    · rw [same]
      exact moves move member

variable (input : IsParallelInput order model1 model2 parts)

include input

theorem IsParallelInput.takesPart_mem {transition : Transition}
    (takesPart : TakesPart model1 model2 parts transition) :
    transition ∈ parts.tiosts2.getTransitions order := by
  rcases takesPart with rfl | ⟨move, _, listed, same⟩
  · obtain ⟨_, _, in2⟩ := input.init2_mem
    exact (mem_getTransitions_of_outOf input.exactCopy2 in2).1
  · obtain ⟨_, legal, _⟩ := input.mem_moves.mp listed
    cases move with
    | first loc1 loc2 t1 => cases same
    | second loc1 loc2 t2 =>
        rw [← Option.some.inj same]
        exact (mem_getTransitions_of_outOf input.exactCopy2 legal.1).1
    | both loc1 loc2 t1 t2 =>
        rw [← Option.some.inj same]
        exact (mem_getTransitions_of_outOf input.exactCopy2 legal.2.1).1

/-- Where the search has followed some moves, the numbers are right exactly if those of
the second component are. -/
theorem IsParallelInput.numberedClocks_of_followed (numbered1 : model1.NumberedClocks)
    (numbered2 : model2.NumberedClocks) {followed : List Move}
    (follows : Follows parts.base followed result)
    (sound : ∀ move ∈ followed, (parts.search model1 model2).Reaches parts.root move.source ∧
      move ∈ (parts.search model1 model2).moves move.source) :
    result.NumberedClocks ↔ ∀ transition,
      (transition = parts.init2 ∨ ∃ move ∈ followed, move.t2 = some transition) →
        ∀ simple ∈ transition.clockGuard.clockGuard,
          SamePlace model1.clocks model2.clocks simple.clock := by
  have copy1 := input.exactCopy1
  have copy2 := input.exactCopy2
  have clocks : result.clocks = model1.clocks := by
    rw [follows.clocks, parts.base_clocks]
    exact copy1.clocks
  have first : ∀ transition ∈ parts.tiosts1.getTransitions order,
      transition.clockGuard.DeclaredBy result.clocks := by
    intro transition member
    have declared := declaredBy_of_copy input.wellFormed1 numbered1 copy1 member
    rw [copy1.clocks] at declared
    rw [clocks]
    exact declared
  have second : ∀ transition ∈ parts.tiosts2.getTransitions order,
      (transition.clockGuard.DeclaredBy result.clocks ↔
        ∀ simple ∈ transition.clockGuard.clockGuard,
          SamePlace model1.clocks model2.clocks simple.clock) := by
    intro transition member
    have declared := declaredBy_of_copy input.wellFormed2 numbered2 copy2 member
    rw [copy2.clocks] at declared
    rw [clocks]
    exact declaredBy_first_iff declared
  obtain ⟨_, _, in1⟩ := input.init1_mem
  have init1 := first _ (mem_getTransitions_of_outOf copy1 in1).1
  have listed2 := input.takesPart_mem (Or.inl rfl)
  have initial : parts.initial.clockGuard.DeclaredBy result.clocks ↔
      parts.init2.clockGuard.DeclaredBy result.clocks := by
    have merged : parts.initial.clockGuard.DeclaredBy result.clocks ↔
        parts.init1.clockGuard.DeclaredBy result.clocks ∧
          parts.init2.clockGuard.DeclaredBy result.clocks := declaredBy_createClockGuard_iff
    rw [merged]
    exact and_iff_right init1
  have made : ∀ move ∈ followed, (move.transition.clockGuard.DeclaredBy result.clocks ↔
      ∀ t2, move.t2 = some t2 → t2.clockGuard.DeclaredBy result.clocks) := by
    intro move member
    obtain ⟨_, legal, _⟩ := input.mem_moves.mp (sound move member).2
    exact move.transition_declaredBy_iff first legal copy1
  have taken : ∀ move ∈ followed, ∀ t2, move.t2 = some t2 →
      t2 ∈ parts.tiosts2.getTransitions order := by
    intro move member t2 same
    obtain ⟨reaches, listed⟩ := sound move member
    exact input.takesPart_mem (Or.inr ⟨move, reaches, listed, same⟩)
  have all := follows.forall_outOf_iff
    (fun transition => transition.clockGuard.DeclaredBy result.clocks)
  refine (Iff.trans all ?_ : result.NumberedClocks ↔ _)
  constructor
  · rintro ⟨atStart, moves⟩ transition (rfl | ⟨move, member, same⟩)
    · exact (second _ listed2).mp (initial.mp atStart)
    · apply (second _ (taken move member _ same)).mp
      exact (made move member).mp (moves move member) _ same
  · intro places
    constructor
    · exact initial.mpr ((second _ listed2).mpr (places _ (Or.inl rfl)))
    · intro move member
      apply (made move member).mpr
      intro t2 same
      exact (second _ (taken move member t2 same)).mpr
        (places t2 (Or.inr ⟨move, member, same⟩))

theorem IsParallelInput.numberedClocks_iff (numbered1 : model1.NumberedClocks)
    (numbered2 : model2.NumberedClocks) {depth : Nat} {visited after : List String}
    (returned : (parallelComposition order depth model1 model2).outcome visited =
      (.ok result, after)) :
    ((∀ transition, TakesPart model1 model2 parts transition →
      ∀ simple ∈ transition.clockGuard.clockGuard,
        SamePlace model1.clocks model2.clocks simple.clock) → result.NumberedClocks) ∧
    (visited = [] → model1.LabelsAvoid [','] →
      (result.NumberedClocks ↔ ∀ transition, TakesPart model1 model2 parts transition →
        ∀ simple ∈ transition.clockGuard.clockGuard,
          SamePlace model1.clocks model2.clocks simple.clock)) := by
  have enough : (∀ transition, TakesPart model1 model2 parts transition →
      ∀ simple ∈ transition.clockGuard.clockGuard,
        SamePlace model1.clocks model2.clocks simple.clock) → result.NumberedClocks := by
    intro places
    obtain ⟨followed, follows, _, sound⟩ := input.returned_followed returned
    apply (input.numberedClocks_of_followed numbered1 numbered2 follows sound).mpr
    rintro transition (isInit | ⟨move, member, same⟩)
    · exact places transition (Or.inl isInit)
    · obtain ⟨reaches, listed⟩ := sound move member
      exact places transition (Or.inr ⟨move, reaches, listed, same⟩)
  refine ⟨enough, ?_⟩
  rintro rfl avoid1
  constructor
  · intro numbered
    obtain ⟨followed, follows, _, isFollowed⟩ := input.fresh_followed avoid1 returned
    have places := (input.numberedClocks_of_followed numbered1 numbered2 follows
      (fun move => (isFollowed move).mp)).mp numbered
    rintro transition (isInit | ⟨move, reaches, listed, same⟩)
    · exact places transition (Or.inl isInit)
    · exact places transition (Or.inr ⟨move, (isFollowed move).mpr ⟨reaches, listed⟩, same⟩)
  · exact enough

end Input

end ParallelComposition

/-- The clock guards of a composition carry right numbers exactly if those it takes from
the second model name clocks which the first has at the same place, or, in a sequential
composition, if the first has no clocks.  For the parallel composition that is necessary
on a fresh instance when no label of the first model contains a comma. -/
theorem compositions_numberedClocks_iff {order : IterationOrder} {model1 model2 : TIOSTS}
    (wellFormed1 : model1.WellFormed) (wellFormed2 : model2.WellFormed)
    (numbered1 : model1.NumberedClocks) (numbered2 : model2.NumberedClocks) :
    (∀ parts depth visited after result,
      ParallelComposition.IsParts order model1 model2 parts →
      (ParallelComposition.parallelComposition order depth model1 model2).outcome visited =
        (.ok result, after) →
      ((∀ transition, ParallelComposition.TakesPart model1 model2 parts transition →
        ∀ simple ∈ transition.clockGuard.clockGuard,
          SamePlace model1.clocks model2.clocks simple.clock) → result.NumberedClocks) ∧
      (visited = [] → model1.LabelsAvoid [','] →
        (result.NumberedClocks ↔
          ∀ transition, ParallelComposition.TakesPart model1 model2 parts transition →
            ∀ simple ∈ transition.clockGuard.clockGuard,
              SamePlace model1.clocks model2.clocks simple.clock))) ∧
    (∀ junction result, SequentialComposition.IsJunction order model1 model2 junction →
      SequentialComposition.sequentialComposition order model1 model2 = .ok result →
      (result.NumberedClocks ↔ ∀ transition ∈ junction.t02 :: junction.others2 order,
        ∀ simple ∈ transition.clockGuard.clockGuard,
          model1.clocks = [] ∨ SamePlace model1.clocks model2.clocks simple.clock)) ∧
    (∀ parts result, InterruptionComposition.IsParts order model1 model2 parts →
      InterruptionComposition.interruptionComposition order model1 model2 = .ok result →
      (result.NumberedClocks ↔ ∀ transition,
        (InterruptionComposition.Taken order parts transition ∨
          ∃ point ∈ parts.points, transition = point.t2Sync) →
            ∀ simple ∈ transition.clockGuard.clockGuard,
              SamePlace model1.clocks model2.clocks simple.clock)) := by
  refine ⟨?_, ?_, ?_⟩
  · intro parts depth visited after result isParts returned
    have input : ParallelComposition.IsParallelInput order model1 model2 parts :=
      ⟨wellFormed1, wellFormed2, isParts⟩
    exact input.numberedClocks_iff numbered1 numbered2 returned
  · intro junction result isJunction returned
    exact SequentialComposition.numberedClocks_iff wellFormed1 wellFormed2 numbered1 numbered2
      isJunction returned
  · intro parts result isParts returned
    exact InterruptionComposition.numberedClocks_iff wellFormed1 wellFormed2 numbered1
      numbered2 isParts returned

namespace ClockedInstance

def order : IterationOrder := ⟨id, IterationOrder.id_perm⟩

/-- A model with the clock `x` that makes a call. -/
def model1 : TIOSTS :=
  .assemble (.declare "M" [⟨"i", .internal, []⟩, ⟨"call", .output, []⟩] [] [] ["x"])
    ["s", "a", "b"] "s"
    [.bare "s" ⟨"i", .internal, []⟩ "a", .bare "a" ⟨"call", .output, []⟩ "b"]

def declarations2 (clock : String) : TIOSTS :=
  .declare "N" [⟨"j", .internal, []⟩, ⟨"call", .input, []⟩] [] [] [clock]

def transitions2 (clock : String) : List Transition :=
  [.bare "t" ⟨"j", .internal, []⟩ "c",
    { Transition.bare "c" ⟨"call", .input, []⟩ "d" with
      clockGuard := ClockInstances.below 1 clock }]

/-- A model that has to be called while its only clock is below 5. -/
def model2 (clock : String) : TIOSTS :=
  .assemble (declarations2 clock) ["t", "c", "d"] "t" (transitions2 clock)

theorem wellFormed1 : model1.WellFormed :=
  TIOSTS.assemble_wellFormed (TIOSTS.declare_isBlank _ _ _ _ _) (by decide)

theorem numbered1 : model1.NumberedClocks :=
  TIOSTS.assemble_numberedClocks (TIOSTS.declare_isBlank _ _ _ _ _) (by decide) (by decide)

/-- What is checked of a result. -/
def Misnumbered (result : TIOSTS) (label : String) : Prop :=
  ∃ transition ∈ result.outOf label, ∃ simple ∈ transition.clockGuard.clockGuard,
    ¬ (simple.clock ∈ result.clocks ∧ simple.clockId = result.getClockId simple.clock)

instance (result : TIOSTS) (label : String) : Decidable (Misnumbered result label) :=
  inferInstanceAs (Decidable (∃ transition ∈ result.outOf label, _))

theorem not_numbered {result : TIOSTS} {label : String} (checked : Misnumbered result label) :
    ¬ result.NumberedClocks := by
  obtain ⟨transition, leaves, simple, inGuard, wrong⟩ := checked
  exact fun numbered => wrong (numbered label transition leaves simple inGuard)

end ClockedInstance

open ClockedInstance in
/-- A guard on a clock that both models have at the same place is right everywhere. -/
theorem compositions_numberedClocks_shared :
    (∃ parts after result, ParallelComposition.IsParts order model1 (model2 "x") parts ∧
      (ParallelComposition.parallelComposition order 5 model1 (model2 "x")).outcome [] =
        (.ok result, after) ∧ result.NumberedClocks) ∧
    (∃ junction result,
      SequentialComposition.IsJunction order model1 (model2 "x") junction ∧
        SequentialComposition.sequentialComposition order model1 (model2 "x") = .ok result ∧
          result.NumberedClocks) ∧
    ∃ parts result, InterruptionComposition.IsParts order model1 (model2 "x") parts ∧
      InterruptionComposition.interruptionComposition order model1 (model2 "x") =
        .ok result ∧ result.NumberedClocks := by
  have wellFormed2 : (model2 "x").WellFormed :=
    TIOSTS.assemble_wellFormed (TIOSTS.declare_isBlank _ _ _ _ _) (by decide)
  have numbered2 : (model2 "x").NumberedClocks :=
    TIOSTS.assemble_numberedClocks (TIOSTS.declare_isBlank _ _ _ _ _) (by decide) (by decide)
  obtain ⟨parallel, sequential, interruption⟩ :=
    @compositions_numberedClocks_iff order _ _ wellFormed1 wellFormed2 numbered1 numbered2
  refine ⟨?_, ?_, ?_⟩
  · have found : (ParallelComposition.findParts order model1 (model2 "x")).toOption.map
        (fun parts => decide (∀ transition ∈ parts.tiosts2.getTransitions order,
          ∀ simple ∈ transition.clockGuard.clockGuard,
            SamePlace model1.clocks (model2 "x").clocks simple.clock)) = some true := by
      decide
    have ran : ((ParallelComposition.parallelComposition order 5 model1
        (model2 "x")).outcome []).1.toOption.isSome = true := by decide +kernel
    obtain ⟨parts, isFound, places⟩ := exists_checked found
    have isParts := ParallelComposition.isParts_of_findParts isFound
    have input : ParallelComposition.IsParallelInput order model1 (model2 "x") parts :=
      ⟨wellFormed1, wellFormed2, isParts⟩
    obtain ⟨result, returned⟩ := exists_ok ran
    obtain ⟨after, outcome⟩ := ParallelComposition.Visits.exists_returned _ _ returned
    refine ⟨parts, after, result, isParts, outcome, ?_⟩
    apply (parallel parts 5 [] after result isParts outcome).1
    intro transition takesPart
    exact of_decide_eq_true places transition (input.takesPart_mem takesPart)
  · have found : (SequentialComposition.findJunction order model1
        (model2 "x")).toOption.map (fun junction => decide (
          ∀ transition ∈ junction.t02 :: junction.others2 order,
            ∀ simple ∈ transition.clockGuard.clockGuard, model1.clocks = [] ∨
              SamePlace model1.clocks (model2 "x").clocks simple.clock)) = some true := by
      decide
    have ran : (SequentialComposition.sequentialComposition order model1
        (model2 "x")).toOption.isSome = true := by decide
    obtain ⟨junction, isFound, places⟩ := exists_checked found
    have isJunction := SequentialComposition.isJunction_of_findJunction isFound
    obtain ⟨result, returned⟩ := exists_ok ran
    exact ⟨junction, result, isJunction, returned,
      (sequential junction result isJunction returned).mpr (of_decide_eq_true places)⟩
  · have found : (InterruptionComposition.findParts order model1
        (model2 "x")).toOption.map (fun parts => decide (
          ∀ transition ∈ parts.tiosts2.getTransitions order,
            ∀ simple ∈ transition.clockGuard.clockGuard,
              SamePlace model1.clocks (model2 "x").clocks simple.clock)) = some true := by
      decide
    have ran : (InterruptionComposition.interruptionComposition order model1
        (model2 "x")).toOption.isSome = true := by decide
    obtain ⟨parts, isFound, places⟩ := exists_checked found
    have isParts := InterruptionComposition.isParts_of_findParts isFound
    obtain ⟨result, returned⟩ := exists_ok ran
    refine ⟨parts, result, isParts, returned, ?_⟩
    apply (interruption parts result isParts returned).mpr
    rintro transition (taken | ⟨point, inPoints, rfl⟩)
    · exact of_decide_eq_true places transition taken.mem.1
    · exact of_decide_eq_true places _ (isParts.isPoint inPoints).t2Sync.1

open ClockedInstance in
/-- A guard on a clock of the second model only is wrong in all three compositions. -/
theorem compositions_misnumber_second_clock :
    model1.NumberedClocks ∧ (model2 "y").NumberedClocks ∧
      (∃ after result, (ParallelComposition.parallelComposition order 5 model1
        (model2 "y")).outcome [] = (.ok result, after) ∧ ¬ result.NumberedClocks) ∧
      (∃ result, SequentialComposition.sequentialComposition order model1 (model2 "y") =
        .ok result ∧ ¬ result.NumberedClocks) ∧
      ∃ result, InterruptionComposition.interruptionComposition order model1 (model2 "y") =
        .ok result ∧ ¬ result.NumberedClocks := by
  have numbered2 : (model2 "y").NumberedClocks :=
    TIOSTS.assemble_numberedClocks (TIOSTS.declare_isBlank _ _ _ _ _) (by decide) (by decide)
  have parallel : ((ParallelComposition.parallelComposition order 5 model1
      (model2 "y")).outcome []).1.toOption.map
        (fun result => decide (Misnumbered result "a,c")) = some true := by decide +kernel
  have sequential : (SequentialComposition.sequentialComposition order model1
      (model2 "y")).toOption.map (fun result => decide (Misnumbered result "a,c")) =
        some true := by decide
  have interruption : (InterruptionComposition.interruptionComposition order model1
      (model2 "y")).toOption.map (fun result => decide (Misnumbered result "a,c")) =
        some true := by decide
  obtain ⟨result1, returned1, checked1⟩ := exists_checked parallel
  obtain ⟨result2, returned2, checked2⟩ := exists_checked sequential
  obtain ⟨result3, returned3, checked3⟩ := exists_checked interruption
  obtain ⟨after, outcome⟩ := ParallelComposition.Visits.exists_returned _ _ returned1
  refine ⟨numbered1, numbered2, ⟨after, result1, outcome, ?_⟩,
    ⟨result2, returned2, ?_⟩, ⟨result3, returned3, ?_⟩⟩
  · exact not_numbered (of_decide_eq_true checked1)
  · exact not_numbered (of_decide_eq_true checked2)
  · exact not_numbered (of_decide_eq_true checked3)

end Symbolrt
