import Symbolrt.Compositions.Initialisation
import Symbolrt.Compositions.ParallelInterleaving

/-!
# Repeated moves of a parallel composition

The moves of one component are made inside two nested loops, once for every transition of
the other component.  The lists of the composed locations then hold a move as often as
its partner has transitions; the map of the result holds it once.
-/

namespace Symbolrt

namespace ParallelComposition

section Moves

variable {tiosts1 tiosts2 : TIOSTS} {actionsT1 actionsT2 : List String}

theorem mem_movesOf {loc1 loc2 : String} {t1 t2 : Transition} {move : Move} :
    move ∈ movesOf actionsT1 actionsT2 loc1 loc2 t1 t2 ↔
      (t1.action.name ∈ actionsT1 ∧ move = .first loc1 loc2 t1) ∨
        (t2.action.name ∈ actionsT2 ∧ move = .second loc1 loc2 t2) ∨
          (canSynchronize t1.action t2.action = true ∧ move = .both loc1 loc2 t1 t2) := by
  have one : ∀ (condition : Prop) [Decidable condition] (only : Move),
      move ∈ (if condition then [only] else []) ↔ condition ∧ move = only := by
    intro condition decided only
    by_cases holds : condition <;> simp [holds]
  rw [movesOf, List.mem_append, List.mem_append, one, one, one]

theorem movesOf_nodup (loc1 loc2 : String) (t1 t2 : Transition) :
    (movesOf actionsT1 actionsT2 loc1 loc2 t1 t2).Nodup := by
  unfold movesOf
  split <;> split <;> split <;> simp

theorem eq_of_short {α : Type} {items : List α} (short : items.length ≤ 1) {one other : α}
    (first : one ∈ items) (second : other ∈ items) : one = other := by
  match items, short with
  | [item], _ => exact (List.mem_singleton.mp first).trans (List.mem_singleton.mp second).symm

theorem short_of_clash {α : Type} {items : List α} {apart : α → α → Prop}
    (pairwise : items.Pairwise apart)
    (clash : ∀ one ∈ items, ∀ other ∈ items, ¬ apart one other) : items.length ≤ 1 := by
  match items, pairwise with
  | [], _ => exact Nat.zero_le 1
  | [_], _ => exact le_refl 1
  | one :: other :: _, pairwise =>
      have away := (List.pairwise_cons.mp pairwise).1 other List.mem_cons_self
      exact absurd away (clash one (by simp) other (by simp))

/-- A pair lists no move twice exactly if a component that can move alone there finds at
most one partner. -/
theorem moves_nodup_iff {pair : String × String} (nodup1 : (tiosts1.outOf pair.1).Nodup)
    (nodup2 : (tiosts2.outOf pair.2).Nodup) :
    (moves tiosts1 tiosts2 actionsT1 actionsT2 pair).Nodup ↔
      (∀ t1 ∈ tiosts1.outOf pair.1, t1.action.name ∈ actionsT1 →
        (tiosts2.outOf pair.2).length ≤ 1) ∧
      (∀ t2 ∈ tiosts2.outOf pair.2, t2.action.name ∈ actionsT2 →
        (tiosts1.outOf pair.1).length ≤ 1) := by
  rw [moves, List.nodup_flatMap]
  constructor
  · rintro ⟨each, apart⟩
    constructor
    · intro t1 in1 alone
      apply short_of_clash (List.nodup_flatMap.mp (each t1 in1)).2
      intro t2 _ other _ disjoint
      have here : ∀ partner, Move.first pair.1 pair.2 t1 ∈
          movesOf actionsT1 actionsT2 pair.1 pair.2 t1 partner :=
        fun partner => mem_movesOf.mpr (Or.inl ⟨alone, rfl⟩)
      exact disjoint (here t2) (here other)
    · intro t2 in2 alone
      apply short_of_clash apart
      intro t1 _ other _ disjoint
      have here : ∀ partner, Move.second pair.1 pair.2 t2 ∈ (tiosts2.outOf pair.2).flatMap
          (movesOf actionsT1 actionsT2 pair.1 pair.2 partner) := by
        intro partner
        exact List.mem_flatMap.mpr ⟨t2, in2, mem_movesOf.mpr (Or.inr (Or.inl ⟨alone, rfl⟩))⟩
      exact disjoint (here t1) (here other)
  · rintro ⟨short2, short1⟩
    constructor
    · intro t1 in1
      rw [List.nodup_flatMap]
      refine ⟨fun t2 _ => movesOf_nodup _ _ t1 t2, ?_⟩
      apply nodup2.pairwise_of_forall_ne
      intro t2 in2 other inOther different move here there
      rcases mem_movesOf.mp here with ⟨alone, rfl⟩ | ⟨_, rfl⟩ | ⟨_, rfl⟩
      · exact different (eq_of_short (short2 t1 in1 alone) in2 inOther)
      · simp [mem_movesOf, different] at there
      · simp [mem_movesOf, different] at there
    · apply nodup1.pairwise_of_forall_ne
      intro t1 in1 other inOther different move here there
      obtain ⟨t2, in2, here⟩ := List.mem_flatMap.mp here
      obtain ⟨t2', _, there⟩ := List.mem_flatMap.mp there
      rcases mem_movesOf.mp here with ⟨_, rfl⟩ | ⟨alone, rfl⟩ | ⟨_, rfl⟩
      · simp [mem_movesOf, different] at there
      · exact different (eq_of_short (short1 t2 in2 alone) in1 inOther)
      · simp [mem_movesOf, different] at there

end Moves

section Copies

variable {order : IterationOrder} {model copy : TIOSTS}

/-- The lists of a copy are filled from the map, so they hold no transition twice. -/
theorem outOf_copy_nodup (wellFormed : model.WellFormed)
    (isCopy : TIOSTS.IsExactCopy order model copy) (label : String) :
    (copy.outOf label).Nodup := by
  rw [isCopy.outOf, TIOSTS.copiedTransitions]
  apply List.Nodup.filter
  apply List.Nodup.map_on _ (getTransitions_nodup wellFormed)
  intro transition member other otherMember same
  obtain ⟨key, found⟩ := (TIOSTS.mem_getTransitions order model).mp member
  obtain ⟨otherKey, otherFound⟩ := (TIOSTS.mem_getTransitions order model).mp otherMember
  have sameKey : transition.key = other.key := by
    rw [← TIOSTS.copied_key model transition, same, TIOSTS.copied_key]
  rw [← (wellFormed.stored found).1, sameKey, (wellFormed.stored otherFound).1,
    otherFound] at found
  exact (Option.some.inj found).symm

end Copies

/-- The moves for which the recursion creates transitions, in their order, and what the
composed locations then hold. -/
structure CreatesFor (model1 model2 : TIOSTS) (parts : Parts) (followed : List Move)
    (result : TIOSTS) : Prop where
  returns : ∃ entered, Returns model1 model2 parts followed entered result
  outTransitions : ∀ label, (result.outOf label).map Transition.plain =
    ((parts.initial :: followed.map Move.transition).filter
      (fun transition => label = transition.source)).map Transition.plain
  inTransitions : ∀ label, (result.inOf label).map Transition.plain =
    ((parts.initial :: followed.map Move.transition).filter
      (fun transition => label = transition.target)).map Transition.plain

/-- No two transitions of the composed locations come from one move. -/
def CreatesOnce (model1 model2 : TIOSTS) (parts : Parts) (result : TIOSTS) : Prop :=
  ∃ followed, CreatesFor model1 model2 parts followed result ∧ followed.Nodup

/-- Where a component can move alone, the other one has at most one transition. -/
structure SinglePartners (model1 model2 : TIOSTS) (parts : Parts) : Prop where
  first : ∀ loc1 loc2, (parts.search model1 model2).Reaches parts.root (loc1, loc2) →
    ∀ t1 ∈ parts.tiosts1.outOf loc1, t1.action.name ∉ model2.getActionNames →
      (parts.tiosts2.outOf loc2).length ≤ 1
  second : ∀ loc1 loc2, (parts.search model1 model2).Reaches parts.root (loc1, loc2) →
    ∀ t2 ∈ parts.tiosts2.outOf loc2, t2.action.name ∉ model1.getActionNames →
      (parts.tiosts1.outOf loc1).length ≤ 1

section Input

variable {order : IterationOrder} {model1 model2 result : TIOSTS} {parts : Parts}

theorem Returns.createsFor {followed : List Move} {entered : List (String × String)}
    (returns : Returns model1 model2 parts followed entered result) :
    CreatesFor model1 model2 parts followed result := by
  constructor
  · exact ⟨entered, returns⟩
  · intro label
    have later : ((followed.map Move.transition).filter
        (fun transition => label = transition.source)).map Transition.plain =
          (followed.map fun move => move.transition.plain).filter
            (fun other => label = other.source) := by
      rw [List.filter_map, List.filter_map, List.map_map]
      rfl
    rw [returns.follows.outOf, parts.base_outOf, ← later, ← List.map_append,
      ← List.filter_append]
    rfl
  · intro label
    have later : ((followed.map Move.transition).filter
        (fun transition => label = transition.target)).map Transition.plain =
          (followed.map fun move => move.transition.plain).filter
            (fun other => label = other.target) := by
      rw [List.filter_map, List.filter_map, List.map_map]
      rfl
    rw [returns.follows.inOf, parts.base_inOf, ← later, ← List.map_append,
      ← List.filter_append]
    rfl

variable (input : IsParallelInput order model1 model2 parts)

include input

theorem IsParallelInput.moves_nodup_iff {loc1 loc2 : String} :
    ((parts.search model1 model2).moves (loc1, loc2)).Nodup ↔
      (∀ t1 ∈ parts.tiosts1.outOf loc1, t1.action.name ∉ model2.getActionNames →
        (parts.tiosts2.outOf loc2).length ≤ 1) ∧
      (∀ t2 ∈ parts.tiosts2.outOf loc2, t2.action.name ∉ model1.getActionNames →
        (parts.tiosts1.outOf loc1).length ≤ 1) := by
  have nodup1 := outOf_copy_nodup input.wellFormed1 input.exactCopy1 loc1
  have nodup2 := outOf_copy_nodup input.wellFormed2 input.exactCopy2 loc2
  apply (@ParallelComposition.moves_nodup_iff _ _ _ _ (loc1, loc2) nodup1 nodup2).trans
  constructor
  · rintro ⟨short2, short1⟩
    constructor
    · intro t1 in1 outside
      exact short2 t1 in1 (mem_minusSet.mpr ⟨named_of_copy input.exactCopy1 in1, outside⟩)
    · intro t2 in2 outside
      exact short1 t2 in2 (mem_minusSet.mpr ⟨named_of_copy input.exactCopy2 in2, outside⟩)
  · rintro ⟨short2, short1⟩
    constructor
    · exact fun t1 in1 alone => short2 t1 in1 (mem_minusSet.mp alone).2
    · exact fun t2 in2 alone => short1 t2 in2 (mem_minusSet.mp alone).2

theorem IsParallelInput.followed_nodup_iff {followed : List Move}
    {entered : List (String × String)}
    (returns : Returns model1 model2 parts followed entered result) :
    followed.Nodup ↔ ∀ pair ∈ parts.root :: entered,
      ((parts.search model1 model2).moves pair).Nodup := by
  apply returns.explores.nodup_iff
  intro pair move listed
  exact (input.mem_moves.mp listed).1

theorem IsParallelInput.createsOnce_iff {depth : Nat} {after : List String}
    (returned : (parallelComposition order depth model1 model2).outcome [] =
      (.ok result, after)) :
    (SinglePartners model1 model2 parts → CreatesOnce model1 model2 parts result) ∧
      (model1.LabelsAvoid [','] →
        (CreatesOnce model1 model2 parts result ↔ SinglePartners model1 model2 parts)) := by
  have enough : SinglePartners model1 model2 parts →
      CreatesOnce model1 model2 parts result := by
    intro single
    obtain ⟨followed, entered, returns⟩ := input.isParts.fresh_returns returned
    refine ⟨followed, returns.createsFor, ?_⟩
    apply (input.followed_nodup_iff returns).mpr
    rintro ⟨loc1, loc2⟩ isEntered
    have reaches := returns.entered_reached isEntered
    apply input.moves_nodup_iff.mpr
    exact ⟨single.first loc1 loc2 reaches, single.second loc1 loc2 reaches⟩
  refine ⟨enough, fun avoid1 => ⟨?_, enough⟩⟩
  rintro ⟨followed, creates, nodup⟩
  obtain ⟨entered, returns⟩ := creates.returns
  have each : ∀ loc1 loc2, (parts.search model1 model2).Reaches parts.root (loc1, loc2) →
      ((parts.search model1 model2).moves (loc1, loc2)).Nodup := by
    intro loc1 loc2 reaches
    apply (input.followed_nodup_iff returns).mp nodup
    exact input.entered_of_reached avoid1 returns reaches
  constructor
  · exact fun loc1 loc2 reaches => (input.moves_nodup_iff.mp (each loc1 loc2 reaches)).1
  · exact fun loc1 loc2 reaches => (input.moves_nodup_iff.mp (each loc1 loc2 reaches)).2

end Input

/-- On a fresh instance the composed locations hold every move once if a component that
can move alone has at most one partner wherever the recursion comes, and, when no label of
the first model contains a comma, only then. -/
theorem parallelComposition_createsOnce_iff {order : IterationOrder}
    {model1 model2 result : TIOSTS} {parts : Parts}
    (input : IsParallelInput order model1 model2 parts) {depth : Nat} {after : List String}
    (returned : (parallelComposition order depth model1 model2).outcome [] =
      (.ok result, after)) :
    (SinglePartners model1 model2 parts → CreatesOnce model1 model2 parts result) ∧
      (model1.LabelsAvoid [','] →
        (CreatesOnce model1 model2 parts result ↔ SinglePartners model1 model2 parts)) :=
  input.createsOnce_iff returned

namespace RepetitionInstance

def order : IterationOrder := ⟨id, IterationOrder.id_perm⟩

/-- A component with one transition. -/
def model1 : TIOSTS :=
  .assemble (.declare "M" [⟨"i", .internal, []⟩, ⟨"x", .output, []⟩] [] [] [])
    ["s", "a", "b"] "s"
    [.bare "s" ⟨"i", .internal, []⟩ "a", .bare "a" ⟨"x", .output, []⟩ "b"]

def actions2 : List Action :=
  [⟨"j", .internal, []⟩, ⟨"y", .output, []⟩, ⟨"z", .output, []⟩]

/-- A component that chooses between the given actions. -/
def model2 (choices : List Action) : TIOSTS :=
  .assemble (.declare "N" actions2 [] [] []) ["t", "c", "d"] "t"
    (.bare "t" ⟨"j", .internal, []⟩ "c" ::
      choices.map (fun action => .bare "c" action "d"))

theorem wellFormed1 : model1.WellFormed :=
  TIOSTS.assemble_wellFormed (TIOSTS.declare_isBlank _ _ _ _ _) (by decide)

/-- No location has two transitions. -/
def Linear (model : TIOSTS) : Prop :=
  ∀ label ∈ model.locations.keys, (model.outOf label).length ≤ 1

instance (model : TIOSTS) : Decidable (Linear model) :=
  inferInstanceAs (Decidable (∀ label ∈ model.locations.keys, _))

theorem Linear.short {model : TIOSTS} (linear : Linear model) (label : String) :
    (model.outOf label).length ≤ 1 := by
  by_cases registered : model.IsRegistered label
  · exact linear label (AList.mem_keys.mp registered)
  · have none : model.outOf label = [] := by
      apply List.eq_nil_iff_forall_not_mem.mpr
      exact fun transition member => registered (TIOSTS.isRegistered_of_mem_outOf member)
    rw [none]
    exact Nat.zero_le 1

end RepetitionInstance

open RepetitionInstance in
/-- Components without choices are composed without repetitions. -/
theorem parallelComposition_createsOnce_linear :
    ∃ parts after result, IsParallelInput order model1 (model2 [⟨"y", .output, []⟩]) parts ∧
      (parallelComposition order 5 model1 (model2 [⟨"y", .output, []⟩])).outcome [] =
        (.ok result, after) ∧
      CreatesOnce model1 (model2 [⟨"y", .output, []⟩]) parts result := by
  have wellFormed2 : (model2 [⟨"y", .output, []⟩]).WellFormed :=
    TIOSTS.assemble_wellFormed (TIOSTS.declare_isBlank _ _ _ _ _) (by decide)
  have found : (findParts order model1 (model2 [⟨"y", .output, []⟩])).toOption.map
      (fun parts => decide (Linear parts.tiosts1 ∧ Linear parts.tiosts2)) = some true := by
    decide +kernel
  have ran : ((parallelComposition order 5 model1
      (model2 [⟨"y", .output, []⟩])).outcome []).1.toOption.isSome = true := by decide +kernel
  obtain ⟨parts, isFound, checked⟩ := exists_checked found
  obtain ⟨linear1, linear2⟩ := of_decide_eq_true checked
  obtain ⟨result, isOk⟩ := exists_ok ran
  obtain ⟨after, returned⟩ := Visits.exists_returned _ _ isOk
  have input : IsParallelInput order model1 (model2 [⟨"y", .output, []⟩]) parts :=
    ⟨wellFormed1, wellFormed2, isParts_of_findParts isFound⟩
  refine ⟨parts, after, result, input, returned, ?_⟩
  apply (parallelComposition_createsOnce_iff input returned).1
  constructor
  · exact fun _ loc2 _ _ _ _ => linear2.short loc2
  · exact fun loc1 _ _ _ _ _ => linear1.short loc1

open RepetitionInstance in
/-- Beside a choice of two the only transition of the first component is created twice,
which the map of the result does not show. -/
theorem parallelComposition_repeats_alone :
    ∃ parts after result,
      IsParallelInput order model1 (model2 [⟨"y", .output, []⟩, ⟨"z", .output, []⟩]) parts ∧
      (parallelComposition order 5 model1
        (model2 [⟨"y", .output, []⟩, ⟨"z", .output, []⟩])).outcome [] = (.ok result, after) ∧
      (result.outOf "a,c").count (.bare "a,c" ⟨"x", .output, []⟩ "b,c") = 2 ∧
      (result.inOf "b,c").count (.bare "a,c" ⟨"x", .output, []⟩ "b,c") = 2 ∧
      (result.getTransitions order).count (.bare "a,c" ⟨"x", .output, []⟩ "b,c") = 1 ∧
      ¬ CreatesOnce model1 (model2 [⟨"y", .output, []⟩, ⟨"z", .output, []⟩]) parts
        result := by
  have wellFormed2 : (model2 [⟨"y", .output, []⟩, ⟨"z", .output, []⟩]).WellFormed :=
    TIOSTS.assemble_wellFormed (TIOSTS.declare_isBlank _ _ _ _ _) (by decide)
  have found : (findParts order model1
      (model2 [⟨"y", .output, []⟩, ⟨"z", .output, []⟩])).toOption.map (fun parts => decide (
        parts.root = ("a", "c") ∧
          .bare "a" ⟨"x", .output, []⟩ "b" ∈ parts.tiosts1.outOf "a" ∧
            (parts.tiosts2.outOf "c").length = 2)) = some true := by decide +kernel
  have ran : ((parallelComposition order 5 model1 (model2
      [⟨"y", .output, []⟩, ⟨"z", .output, []⟩])).outcome []).1.toOption.map (fun result =>
        decide ((result.outOf "a,c").count (.bare "a,c" ⟨"x", .output, []⟩ "b,c") = 2 ∧
          (result.inOf "b,c").count (.bare "a,c" ⟨"x", .output, []⟩ "b,c") = 2 ∧
          (result.getTransitions order).count
            (.bare "a,c" ⟨"x", .output, []⟩ "b,c") = 1)) = some true := by decide +kernel
  obtain ⟨parts, isFound, checked⟩ := exists_checked found
  obtain ⟨root, in1, two⟩ := of_decide_eq_true checked
  obtain ⟨result, isOk, counted⟩ := exists_checked ran
  obtain ⟨leaves, enters, stored⟩ := of_decide_eq_true counted
  obtain ⟨after, returned⟩ := Visits.exists_returned _ _ isOk
  have input : IsParallelInput order model1
      (model2 [⟨"y", .output, []⟩, ⟨"z", .output, []⟩]) parts :=
    ⟨wellFormed1, wellFormed2, isParts_of_findParts isFound⟩
  have avoid : model1.LabelsAvoid [','] :=
    TIOSTS.assemble_labelsAvoid (TIOSTS.declare_isBlank _ _ _ _ _) (by decide)
  refine ⟨parts, after, result, input, returned, leaves, enters, stored, ?_⟩
  intro once
  have single := ((input.createsOnce_iff returned).2 avoid).mp once
  have short := single.first "a" "c" (by rw [root]; exact .refl) _ in1 (by decide)
  omega

end ParallelComposition

end Symbolrt
