import Symbolrt.Compositions.ParallelInterleaving

/-!
# Composing several times on one instance

The visited pairs of earlier calls are still in the list when the next call starts, and the
search does not expand a pair that is found there.
-/

namespace Symbolrt

namespace ParallelComposition

/-- A call with the visited pairs before and after it and its outcome. -/
structure Call where
  visited : List String
  model1 : TIOSTS
  model2 : TIOSTS
  outcome : Except Failure TIOSTS
  after : List String

namespace Call

variable (order : IterationOrder) (call : Call)

/-- The call ends with its outcome and leaves its visited pairs. -/
def Ends : Prop :=
  ∃ bound, ∀ depth, bound ≤ depth →
    (parallelComposition order depth call.model1 call.model2).outcome call.visited =
      (call.outcome, call.after)

/-- The same call on a fresh instance has the same outcome. -/
def IsFresh : Prop :=
  ∃ bound, ∀ depth, bound ≤ depth →
    ((parallelComposition order depth call.model1 call.model2).outcome []).1 = call.outcome

/-- No pair that the search can reach and that has a move has been visited before. -/
def Unseen : Prop :=
  ∀ parts, IsParts order call.model1 call.model2 parts → ∀ pair,
    (parts.search call.model1 call.model2).Reaches parts.root pair →
      (parts.search call.model1 call.model2).moves pair ≠ [] →
        visitedKey pair.1 pair.2 ∉ call.visited

end Call

/-- The calls made one after the other on an instance that is fresh before the first. -/
inductive History (order : IterationOrder) : List Call → List String → Prop where
  | start : History order [] []
  | call {calls : List Call} {call : Call} :
      History order calls call.visited → call.Ends order →
        History order (calls ++ [call]) call.after

theorem History.ends {order : IterationOrder} {calls : List Call} {visited : List String}
    (history : History order calls visited) : ∀ call ∈ calls, call.Ends order := by
  induction history with
  | start =>
      intro call member
      cases member
  | call _ ends induction =>
      intro other member
      rcases List.mem_append.mp member with old | isNew
      · exact induction other old
      · rw [List.mem_singleton.mp isNew]
        exact ends

section Calls

variable {order : IterationOrder} {model1 model2 : TIOSTS}

/-- A call that finds no parts throws the same exception whatever has been visited. -/
theorem outcome_rejected (rejected : ∀ parts, ¬ IsParts order model1 model2 parts) :
    ∃ failure, ∀ depth visited,
      (parallelComposition order depth model1 model2).outcome visited =
        (.error failure, visited) := by
  cases copy1 : model1.clone order with
  | error failure =>
      refine ⟨failure, fun depth visited => ?_⟩
      simp only [parallelComposition, copy1, Visits.outcome_bind, Visits.outcome_lift]
  | ok tiosts1 =>
      cases copy2 : model2.clone order with
      | error failure =>
          refine ⟨failure, fun depth visited => ?_⟩
          simp only [parallelComposition, copy1, copy2, Visits.outcome_bind,
            Visits.outcome_lift]
      | ok tiosts2 =>
          by_cases compatible : isCompatible order tiosts1 tiosts2 = true
          · have accepted : (!isCompatible order tiosts1 tiosts2) = false := by
              rw [compatible]
              rfl
            cases init1 : initTransition tiosts1 with
            | error failure =>
                have failed : initializeResult tiosts1 tiosts2 = .error failure := by
                  rw [initializeResult, init1]
                  rfl
                refine ⟨failure, fun depth visited => ?_⟩
                simp only [parallelComposition, copy1, copy2, Visits.outcome_bind,
                  Visits.outcome_lift, accepted, Bool.false_eq_true, if_false, failed]
            | ok first1 =>
                cases init2 : initTransition tiosts2 with
                | error failure =>
                    have failed : initializeResult tiosts1 tiosts2 = .error failure := by
                      rw [initializeResult, init1, init2]
                      rfl
                    refine ⟨failure, fun depth visited => ?_⟩
                    simp only [parallelComposition, copy1, copy2, Visits.outcome_bind,
                      Visits.outcome_lift, accepted, Bool.false_eq_true, if_false, failed]
                | ok first2 =>
                    exact absurd ⟨copy1, copy2, compatible, init1, init2⟩
                      (rejected ⟨tiosts1, tiosts2, first1, first2⟩)
          · have refused : (!isCompatible order tiosts1 tiosts2) = true := by
              simpa using compatible
            refine ⟨.incompatibleCompositionalOperation incompatibleMessage,
              fun depth visited => ?_⟩
            simp only [parallelComposition, copy1, copy2, Visits.outcome_bind,
              Visits.outcome_lift, refused, if_true]
            exact Visits.outcome_throw _ _

/-- A call whose reachable pairs have not been visited does not depend on what has. -/
theorem Call.Unseen.isFresh {call : Call} (unseen : call.Unseen order)
    (ends : call.Ends order) : call.IsFresh order := by
  obtain ⟨bound, ended⟩ := ends
  refine ⟨bound, fun depth enough => ?_⟩
  have outcome := congrArg Prod.fst (ended depth enough)
  by_cases rejected : ∀ parts, ¬ IsParts order call.model1 call.model2 parts
  · obtain ⟨failure, same⟩ := outcome_rejected rejected
    rw [same] at outcome ⊢
    exact outcome
  · obtain ⟨parts, isParts⟩ := not_forall_not.mp rejected
    rw [isParts.outcome] at outcome ⊢
    refine Eq.trans ?_ outcome
    have congruent := (parts.search call.model1 call.model2).visit_congr
      ((parts.search call.model1 call.model2).Reaches parts.root)
      (fun pair reaches move member => .tail reaches ⟨move, member, rfl⟩) depth parts.root
      .refl parts.base [] call.visited
    apply (congruent _).1
    intro pair reaches hasMoves
    constructor
    · intro impossible
      cases impossible
    · intro member
      exact absurd member (unseen parts isParts pair reaches hasMoves)

end Calls

section Input

variable {order : IterationOrder} {model1 model2 : TIOSTS} {parts : Parts}

variable (input : IsParallelInput order model1 model2 parts)

/-- Two lists of moves that lead from the base to one result are of one length. -/
theorem length_of_follows {followed other : List Move} {result : TIOSTS}
    (follows : Follows parts.base followed result)
    (otherFollows : Follows parts.base other result) : followed.length = other.length := by
  have each : ∀ label, (followed.map fun move => move.transition.plain).filter
      (fun transition => label = transition.source) =
        (other.map fun move => move.transition.plain).filter
          (fun transition => label = transition.source) := by
    intro label
    exact List.append_cancel_left ((follows.outOf label).symm.trans (otherFollows.outOf label))
  have permutation : (followed.map fun move => move.transition.plain).Perm
      (other.map fun move => move.transition.plain) := by
    apply List.perm_iff_count.mpr
    intro transition
    have kept : ∀ transitions : List Transition, (transitions.filter
        (fun other => transition.source = other.source)).count transition =
          transitions.count transition := fun _ => List.count_filter (decide_eq_true rfl)
    rw [← kept, each, kept]
  have lengths := permutation.length_eq
  rwa [List.length_map, List.length_map] at lengths

include input

/-- A call that ends with the result of a fresh one has seen no pair with a move before: it
would have followed fewer moves. -/
theorem IsParallelInput.seen_of_fresh (divides : DividesKeys model1)
    {visited after : List String} {result : TIOSTS} {pair : String × String}
    (fresh : ∃ bound, ∀ depth, bound ≤ depth →
      ((parallelComposition order depth model1 model2).outcome []).1 = .ok result)
    (ended : ∃ bound, ∀ depth, bound ≤ depth →
      (parallelComposition order depth model1 model2).outcome visited = (.ok result, after))
    (reaches : (parts.search model1 model2).Reaches parts.root pair)
    (hasMoves : (parts.search model1 model2).moves pair ≠ []) :
    visitedKey pair.1 pair.2 ∉ visited := by
  intro seen
  -- the fresh call
  obtain ⟨freshBound, freshReturned⟩ := fresh
  obtain ⟨followed, entered, outcome, explores, bound, outcomeEq⟩ :=
    input.exists_explores (List.not_mem_nil : _ ∉ ([] : List String))
  have sameFresh : outcome = .ok result := by
    have one := freshReturned (max freshBound bound) (le_max_left _ _)
    rw [outcomeEq _ (le_max_right _ _)] at one
    exact one
  subst sameFresh
  have follows := follows_of_foldlM parts.base_labelled (explores.state_eq result rfl)
  -- the call with the marks of earlier ones
  obtain ⟨staleBound, staleEnded⟩ := ended
  obtain ⟨other, otherFollows, fewer⟩ : ∃ other, Follows parts.base other result ∧
      other.length < followed.length := by
    by_cases rootSeen : (parts.search model1 model2).key parts.root ∈ visited
    · have one := staleEnded (staleBound + 1) (Nat.le_succ _)
      rw [input.isParts.outcome, MarkedSearch.visit_marked rootSeen] at one
      have isBase : parts.base = result := Except.ok.inj (congrArg Prod.fst one)
      refine ⟨[], isBase ▸ follows_of_foldlM parts.base_labelled rfl, ?_⟩
      obtain ⟨move, isMove⟩ := List.exists_mem_of_ne_nil _ hasMoves
      apply List.length_pos_of_mem
      rw [(explores.followed_perm result rfl).mem_iff]
      have isEntered := explores.enters_reachable (input.keys_inj divides) reaches
      exact List.mem_flatMap.mpr ⟨pair, isEntered, isMove⟩
    · obtain ⟨other, _, stale, marks, otherBound, staleOutcome⟩ :=
        input.exists_explores rootSeen
      have sameStale : stale = .ok result := by
        have one := staleEnded (max staleBound otherBound) (le_max_left _ _)
        rw [staleOutcome _ (le_max_right _ _)] at one
        exact congrArg Prod.fst one
      subst sameStale
      refine ⟨other, follows_of_foldlM parts.base_labelled (marks.state_eq result rfl), ?_⟩
      exact explores.length_lt (input.keys_inj divides) marks rootSeen reaches seen hasMoves
  exact absurd (length_of_follows otherFollows follows) (Nat.ne_of_lt fewer)

end Input

theorem exists_ends (order : IterationOrder) {model1 model2 : TIOSTS}
    (wellFormed1 : model1.WellFormed) (wellFormed2 : model2.WellFormed)
    (visited : List String) :
    ∃ outcome after, (⟨visited, model1, model2, outcome, after⟩ : Call).Ends order := by
  by_cases rejected : ∀ parts, ¬ IsParts order model1 model2 parts
  · obtain ⟨failure, same⟩ := outcome_rejected rejected
    exact ⟨.error failure, visited, 0, fun depth _ => same depth visited⟩
  · obtain ⟨parts, isParts⟩ := not_forall_not.mp rejected
    by_cases rootSeen : (parts.search model1 model2).key parts.root ∈ visited
    · refine ⟨.ok parts.base, visited, 1, fun depth enough => ?_⟩
      obtain ⟨smaller, rfl⟩ : ∃ smaller, depth = smaller + 1 := ⟨depth - 1, by omega⟩
      exact (isParts.outcome _ _).trans (MarkedSearch.visit_marked rootSeen _ _)
    · have input : IsParallelInput order model1 model2 parts :=
        ⟨wellFormed1, wellFormed2, isParts⟩
      obtain ⟨_, entered, outcome, _, bound, ended⟩ := input.exists_explores rootSeen
      exact ⟨outcome, _, bound, ended⟩

/-- All sequences of calls have a history. -/
theorem exists_history (order : IterationOrder) (models : List (TIOSTS × TIOSTS))
    (wellFormed : ∀ pair ∈ models, pair.1.WellFormed ∧ pair.2.WellFormed) :
    ∃ calls visited, History order calls visited ∧
      calls.map (fun call => (call.model1, call.model2)) = models := by
  induction models using List.reverseRecOn with
  | nil => exact ⟨[], [], .start, rfl⟩
  | append_singleton models pair induction =>
      obtain ⟨calls, visited, history, same⟩ := induction fun other member =>
        wellFormed other (List.mem_append_left _ member)
      obtain ⟨wellFormed1, wellFormed2⟩ := wellFormed pair (by simp)
      obtain ⟨outcome, after, ends⟩ := exists_ends order wellFormed1 wellFormed2 visited
      refine ⟨calls ++ [⟨visited, pair.1, pair.2, outcome, after⟩], after,
        .call history ends, ?_⟩
      rw [List.map_append, same]
      rfl

/-- In every history of calls, each has the outcome it has on a fresh instance if no pair it
can reach has been visited before.  When fresh calls return and labels contain no comma with
a blank behind it, this happens only then. -/
theorem history_isFresh_iff {order : IterationOrder} {calls : List Call}
    {visited : List String} (history : History order calls visited) :
    ((∀ call ∈ calls, call.Unseen order) → ∀ call ∈ calls, call.IsFresh order) ∧
      ((∀ call ∈ calls, call.model1.WellFormed ∧ call.model2.WellFormed ∧
          DividesKeys call.model1 ∧ ∃ bound result, ∀ depth, bound ≤ depth →
            ((parallelComposition order depth call.model1 call.model2).outcome []).1 =
              .ok result) →
        ((∀ call ∈ calls, call.IsFresh order) ↔ ∀ call ∈ calls, call.Unseen order)) := by
  have enough : (∀ call ∈ calls, call.Unseen order) → ∀ call ∈ calls, call.IsFresh order :=
    fun unseen call member => (unseen call member).isFresh (history.ends call member)
  refine ⟨enough, ?_⟩
  intro regular
  refine ⟨?_, enough⟩
  intro fresh call member parts isParts pair reaches hasMoves
  obtain ⟨wellFormed1, wellFormed2, divides, bound, result, returned⟩ := regular call member
  obtain ⟨freshBound, sameOutcome⟩ := fresh call member
  have outcome : call.outcome = .ok result := by
    rw [← sameOutcome (max bound freshBound) (le_max_right _ _)]
    exact returned _ (le_max_left _ _)
  have ends := history.ends call member
  unfold Call.Ends at ends
  rw [outcome] at ends
  exact IsParallelInput.seen_of_fresh ⟨wellFormed1, wellFormed2, isParts⟩ divides
    ⟨bound, returned⟩ ends reaches hasMoves

namespace HistoryInstance

open InterleavingInstance

theorem model1_avoid : (model1 "a").LabelsAvoid [','] := by
  have blank : (TIOSTS.declare "M" [⟨"i", .internal, []⟩, x] [] [] []).IsBlank :=
    TIOSTS.declare_isBlank _ _ _ _ _
  exact TIOSTS.assemble_labelsAvoid blank (by decide)

theorem loops_input : ∃ parts, IsParallelInput order (model1 "a") model2 parts ∧
    Loops parts "a" "c" x y := by
  have ran : (findParts order (model1 "a") model2).toOption.map (fun parts =>
      decide (Loops parts "a" "c" x y)) = some true := by decide
  obtain ⟨parts, input, checked⟩ :=
    found_of_run (model1_wellFormed (by decide)) model2_wellFormed ran
  exact ⟨parts, input, of_decide_eq_true checked⟩

theorem swapped_input : ∃ parts, IsParallelInput order model2 (model1 "a") parts ∧
    Loops parts "c" "a" y x := by
  have ran : (findParts order model2 (model1 "a")).toOption.map (fun parts =>
      decide (Loops parts "c" "a" y x)) = some true := by decide
  obtain ⟨parts, input, checked⟩ :=
    found_of_run model2_wellFormed (model1_wellFormed (by decide)) ran
  exact ⟨parts, input, of_decide_eq_true checked⟩

/-- A first call visits the pair of the two loops only. -/
theorem first_call : ∃ call : Call, call.visited = [] ∧ call.model1 = model1 "a" ∧
    call.model2 = model2 ∧ call.Ends order ∧ "a, c" ∈ call.after ∧
      ∀ key ∈ call.after, key = "a, c" := by
  obtain ⟨parts, input, loops⟩ := loops_input
  obtain ⟨followed, entered, outcome, explores, bound, ended⟩ :=
    input.exists_explores (List.not_mem_nil : _ ∉ ([] : List String))
  refine ⟨⟨[], model1 "a", model2, outcome, _⟩, rfl, rfl, rfl, ⟨bound, ended⟩, ?_, ?_⟩
  · apply List.mem_append_right
    rw [List.map_cons, loops.1]
    exact List.mem_cons_self
  · intro key member
    obtain ⟨pair, visited, rfl⟩ := List.mem_map.mp member
    have reaches : parts.LegallyReaches (model1 "a") model2 pair := by
      rcases List.mem_cons.mp visited with rfl | inEntered
      · exact .refl
      · obtain ⟨move, listed, later⟩ := explores.reached pair inEntered
        exact input.legallyReaches (.head ⟨move, listed, rfl⟩ later)
    rw [loops.stays reaches]
    rfl

end HistoryInstance

open InterleavingInstance HistoryInstance in
/-- Composing the two models the other way round after composing them. -/
theorem history_isFresh_swapped :
    ∃ calls visited, History order calls visited ∧ calls.length = 2 ∧
      ∀ call ∈ calls, call.IsFresh order := by
  obtain ⟨call, before, isModel1, isModel2, ends, _, onlyKey⟩ := first_call
  obtain ⟨parts, input, loops⟩ := swapped_input
  have fresh : (parts.search model2 (model1 "a")).key parts.root ∉ call.after := by
    intro member
    have same := onlyKey _ member
    rw [loops.1] at same
    exact absurd (show visitedKey "c" "a" = "a, c" from same) (by decide)
  obtain ⟨followed, entered, outcome, _, bound, ended⟩ := input.exists_explores fresh
  let second : Call := ⟨call.after, model2, model1 "a", outcome,
    call.after ++ (parts.root :: entered).map (parts.search model2 (model1 "a")).key⟩
  have secondEnds : second.Ends order := ⟨bound, ended⟩
  have history : History order ([] ++ [call] ++ [second]) second.after := by
    apply History.call _ secondEnds
    apply History.call _ ends
    rw [before]
    exact .start
  refine ⟨_, _, history, rfl, ?_⟩
  apply (history_isFresh_iff history).1
  intro one member
  rcases List.mem_append.mp member with isCall | isSecond
  · obtain rfl := List.mem_singleton.mp isCall
    intro _ _ _ _ _ seen
    rw [before] at seen
    cases seen
  · rw [List.mem_singleton.mp isSecond]
    intro other isParts pair reaches _ seen
    obtain rfl := input.isParts.unique isParts
    have same := onlyKey _ seen
    rw [loops.stays (input.legallyReaches reaches)] at same
    exact absurd same (by decide)

open InterleavingInstance HistoryInstance in
/-- The second of two equal calls does not expand the pair that the first has visited. -/
theorem history_not_isFresh :
    ∃ calls visited, History order calls visited ∧ ¬ ∀ call ∈ calls, call.IsFresh order := by
  obtain ⟨call, before, isModel1, isModel2, ends, seen, _⟩ := first_call
  obtain ⟨parts, input, loops⟩ := loops_input
  have rootSeen : (parts.search (model1 "a") model2).key parts.root ∈ call.after := by
    rw [loops.1]
    exact seen
  let second : Call := ⟨call.after, model1 "a", model2, .ok parts.base, call.after⟩
  have secondEnds : second.Ends order := by
    refine ⟨1, fun depth enough => ?_⟩
    obtain ⟨smaller, rfl⟩ : ∃ smaller, depth = smaller + 1 := ⟨depth - 1, by omega⟩
    exact (input.isParts.outcome _ _).trans (MarkedSearch.visit_marked rootSeen _ _)
  have history : History order ([] ++ [call] ++ [second]) second.after := by
    apply History.call _ secondEnds
    apply History.call _ ends
    rw [before]
    exact .start
  refine ⟨_, _, history, ?_⟩
  intro fresh
  have secondFresh := fresh second (by simp)
  have isMove : Move.first "a" "c" (.bare "a" x "a") ∈
      (parts.search (model1 "a") model2).moves parts.root := by
    apply input.mem_moves.mpr
    refine ⟨loops.1.symm, ⟨?_, by decide⟩, ?_⟩
    · rw [loops.2.1]
      exact List.mem_cons_self
    · rw [Parts.HasPartner, loops.2.2]
      exact List.cons_ne_nil _ _
  exact input.seen_of_fresh (dividesKeys_of_labelsAvoid model1_avoid) secondFresh secondEnds .refl
    (List.ne_nil_of_mem isMove) rootSeen

end ParallelComposition

end Symbolrt
