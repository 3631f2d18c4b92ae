import Symbolrt.Compositions.ParallelInterleaving

/-!
# The search of a parallel composition

The recursion ends on all graphs, expands no pair twice and creates the transitions of legal
moves only.
-/

namespace Symbolrt

/-- The more urgent of two deadlines is the one with the greater number. -/
def Deadline.urgency : Deadline → Nat
  | .lazy => 0
  | .delayable => 1
  | .eager => 2

namespace ParallelComposition

theorem deadlineOperator_urgency (deadline1 deadline2 : Deadline) :
    (deadlineOperator deadline1 deadline2).urgency =
      max deadline1.urgency deadline2.urgency := by
  cases deadline1 <;> cases deadline2 <;> rfl

section Input

variable {order : IterationOrder} {model1 model2 : TIOSTS} {parts : Parts}

/-- The locations of the result are those of reachable pairs and the initial one, and the
transitions out of a pair are the initial one and those of legal moves. -/
structure IsSound (model1 model2 : TIOSTS) (parts : Parts) (result : TIOSTS) : Prop where
  locations : ∀ label, result.IsRegistered label → label = parts.initial.source ∨
    ∃ pair, parts.LegallyReaches model1 model2 pair ∧ label = pairLabel pair
  transitions : ∀ pair, parts.Inside pair → ∀ transition ∈ result.outOf (pairLabel pair),
    transition.plain = parts.initial.plain ∨
      parts.LegallyReaches model1 model2 pair ∧ ∃ move, parts.IsLegal model1 model2 move ∧
        move.source = pair ∧ transition.plain = move.transition.plain

variable (input : IsParallelInput order model1 model2 parts)

include input

theorem Returns.isSound (avoid1 : model1.LabelsAvoid [',']) {followed : List Move}
    {entered : List (String × String)} {result : TIOSTS}
    (returns : Returns model1 model2 parts followed entered result) :
    IsSound model1 model2 parts result := by
  have follows := returns.follows
  have origin : ∀ move ∈ followed, parts.LegallyReaches model1 model2 move.source ∧
      parts.IsLegal model1 model2 move := by
    intro move member
    obtain ⟨reaches, listed⟩ := input.origin_legal returns.explores.reached
      (returns.explores.sound move member)
    exact ⟨input.legallyReaches reaches, (input.mem_moves.mp listed).2.1⟩
  constructor
  · intro label registered
    rcases (follows.isRegistered label).mp registered with atBase | ⟨move, member, ends⟩
    · rcases (parts.base_isRegistered label).mp atBase with source | target
      · exact Or.inl source
      · exact Or.inr ⟨parts.root, .refl, target⟩
    · obtain ⟨reaches, legal⟩ := origin move member
      rcases ends with source | target
      · exact Or.inr ⟨move.source, reaches, source⟩
      · exact Or.inr ⟨move.target, .tail reaches ⟨move, legal, rfl, rfl⟩, target⟩
  · intro pair inside transition member
    have inPlain := List.mem_map_of_mem (f := Transition.plain) member
    rw [follows.outOf] at inPlain
    rcases List.mem_append.mp inPlain with atBase | atFollowed
    · obtain ⟨initial, isInitial, same⟩ := List.mem_map.mp atBase
      rw [parts.base_outOf] at isInitial
      rw [List.mem_singleton.mp (List.mem_filter.mp isInitial).1] at same
      exact Or.inl same.symm
    · obtain ⟨listed, source⟩ := List.mem_filter.mp atFollowed
      obtain ⟨move, isFollowed, same⟩ := List.mem_map.mp listed
      obtain ⟨reaches, legal⟩ := origin move isFollowed
      have label : pairLabel pair = pairLabel move.source := by
        rw [← move.transition_source, ← Transition.plain_source, same]
        exact of_decide_eq_true source
      have here := input.pairLabel_inj avoid1 inside (input.reached_inside reaches) label
      refine Or.inr ⟨here ▸ reaches, move, legal, here.symm, same.symm⟩

/-- A composition on a fresh instance ends on all graphs.  It expands no pair twice and
only reachable ones, it throws only if a reachable move has an action that the result does
not declare, and what it returns is sound. -/
theorem parallelComposition_terminates (avoid1 : model1.LabelsAvoid [',']) :
    ∃ (outcome : Except Failure TIOSTS) (expanded : List (String × String)),
      (∃ bound, ∀ depth, bound ≤ depth →
        (parallelComposition order depth model1 model2).outcome [] =
          (outcome, expanded.map fun pair => visitedKey pair.1 pair.2)) ∧
      expanded.Nodup ∧ (∀ pair ∈ expanded, parts.LegallyReaches model1 model2 pair) ∧
      (∀ failure, outcome = .error failure → failure = .indexOutOfBounds ∧
        ∃ move, parts.LegallyReaches model1 model2 move.source ∧
          parts.IsLegal model1 model2 move ∧ parts.Throws move) ∧
      (∀ result, outcome = .ok result → IsSound model1 model2 parts result) ∧
      ∀ deadline1 deadline2, (deadlineOperator deadline1 deadline2).urgency =
        max deadline1.urgency deadline2.urgency := by
  obtain ⟨followed, entered, outcome, explores, bound, ended⟩ :=
    input.exists_explores (List.not_mem_nil : _ ∉ ([] : List String))
  refine ⟨outcome, parts.root :: entered, ⟨bound, ended⟩, ?_, ?_, ?_, ?_,
    deadlineOperator_urgency⟩
  · exact explores.root_distinct (List.mem_singleton_self _)
  · intro pair member
    rcases List.mem_cons.mp member with rfl | inEntered
    · exact .refl
    · obtain ⟨move, listed, later⟩ := explores.reached pair inEntered
      exact input.legallyReaches (.head ⟨move, listed, rfl⟩ later)
  · intro failure failed
    obtain ⟨final, move, reached, fails, origin⟩ := explores.error_eq failure failed
    obtain ⟨reaches, listed⟩ := input.origin_legal explores.reached origin
    have follows := follows_of_foldlM parts.base_labelled reached
    refine ⟨?_, move, input.legallyReaches reaches, (input.mem_moves.mp listed).2.1, ?_⟩
    · exact move.create_error follows.labelled fails
    · intro declared
      obtain ⟨next, created⟩ := (create_isOk_iff follows move).mpr (not_not.mpr declared)
      rw [show move.create final = .error failure from fails] at created
      cases created
  · intro result returned
    subst returned
    exact Returns.isSound input avoid1 ⟨explores⟩

end Input

open InterleavingInstance in
/-- Two loops are composed although their runs never end. -/
theorem parallelComposition_terminates_loops :
    ∃ parts, IsParallelInput order (model1 "a") model2 parts ∧
      ∃ (outcome : Except Failure TIOSTS) (expanded : List (String × String)),
        (∃ bound, ∀ depth, bound ≤ depth →
          (parallelComposition order depth (model1 "a") model2).outcome [] =
            (outcome, expanded.map fun pair => visitedKey pair.1 pair.2)) ∧
        expanded.Nodup := by
  have ran : (findParts order (model1 "a") model2).toOption.map (fun _ => true) =
      some true := by decide
  obtain ⟨parts, input, _⟩ :=
    found_of_run (model1_wellFormed (by decide)) model2_wellFormed ran
  have avoid : (model1 "a").LabelsAvoid [','] := by
    have blank : (TIOSTS.declare "M" [⟨"i", .internal, []⟩, x] [] [] []).IsBlank :=
      TIOSTS.declare_isBlank _ _ _ _ _
    exact TIOSTS.assemble_labelsAvoid blank (by decide)
  obtain ⟨outcome, expanded, ended, nodup, _⟩ := parallelComposition_terminates input avoid
  exact ⟨parts, input, outcome, expanded, ended, nodup⟩

end ParallelComposition

end Symbolrt
