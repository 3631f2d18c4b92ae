import Symbolrt.Compositions.ParallelHistory
import Symbolrt.Compositions.ParallelWalks

/-!
# Sessions of parallel compositions

A program composes models, and then composes the results with further models, all on the one
instance with its list of visited pairs.  However long this goes on, every result is a
well-formed model whose walks interleave those of the two models it was composed from.
-/

namespace Symbolrt

open Folding

namespace ParallelComposition

/-- The models of each call are well formed or results of earlier calls. -/
def IsSession (calls : List Call) : Prop :=
  ∀ before call after, calls = before ++ call :: after →
    ∀ model ∈ [call.model1, call.model2],
      model.WellFormed ∨ ∃ earlier ∈ before, earlier.outcome = .ok model

section Sessions

variable {order : IterationOrder} {calls : List Call} {call : Call} {result : TIOSTS}

theorem Call.Ends.exists_parts (ends : call.Ends order) (isOk : call.outcome = .ok result) :
    ∃ parts, IsParts order call.model1 call.model2 parts := by
  by_contra none
  obtain ⟨failure, rejected⟩ := outcome_rejected (not_exists.mp none)
  obtain ⟨bound, ended⟩ := ends
  have same := (rejected bound call.visited).symm.trans (ended bound (Nat.le_refl bound))
  rw [isOk] at same
  cases (Prod.mk.inj same).1

theorem Call.Ends.exists_input (ends : call.Ends order) (isOk : call.outcome = .ok result)
    (wellFormed1 : call.model1.WellFormed) (wellFormed2 : call.model2.WellFormed) :
    ∃ parts depth, IsParallelInput order call.model1 call.model2 parts ∧
      (parallelComposition order depth call.model1 call.model2).outcome call.visited =
        (.ok result, call.after) := by
  obtain ⟨parts, isParts⟩ := ends.exists_parts isOk
  obtain ⟨bound, ended⟩ := ends
  refine ⟨parts, bound, ⟨wellFormed1, wellFormed2, isParts⟩, ?_⟩
  rw [← isOk]
  exact ended bound (Nat.le_refl bound)

/-- A call that returns at some depth has its outcome at every greater depth. -/
theorem IsParts.ends_of_returned {model1 model2 : TIOSTS} {parts : Parts}
    (isParts : IsParts order model1 model2 parts) {depth : Nat} {visited after : List String}
    (returned : (parallelComposition order depth model1 model2).outcome visited =
      (.ok result, after)) : (⟨visited, model1, model2, .ok result, after⟩ : Call).Ends order := by
  rw [isParts.outcome] at returned
  cases depth with
  | zero => cases congrArg Prod.fst returned
  | succ depth =>
      by_cases marked : (parts.search model1 model2).key parts.root ∈ visited
      · rw [MarkedSearch.visit_marked marked] at returned
        refine ⟨1, fun depth enough => ?_⟩
        obtain ⟨smaller, rfl⟩ : ∃ smaller, depth = smaller + 1 := ⟨depth - 1, by omega⟩
        rw [isParts.outcome, MarkedSearch.visit_marked marked]
        exact returned
      · rw [MarkedSearch.visit_fresh marked] at returned
        have notCut : (.ok result : Except Failure TIOSTS) ≠
            .error (parts.search model1 model2).cutOff := by
          intro impossible
          cases impossible
        obtain ⟨followed, entered, explores, rfl⟩ :=
          MarkedSearch.explores_of_follow returned notCut
        obtain ⟨bound, outcome⟩ := explores.follow_eventually
        refine ⟨bound + 1, fun depth enough => ?_⟩
        obtain ⟨smaller, rfl⟩ : ∃ smaller, depth = smaller + 1 := ⟨depth - 1, by omega⟩
        rw [isParts.outcome, MarkedSearch.visit_fresh marked]
        exact outcome smaller (by omega)

theorem IsSession.nil : IsSession [] := by
  intro before call after split
  cases (List.append_ne_nil_of_right_ne_nil before (List.cons_ne_nil call after)) split.symm

theorem IsSession.concat (session : IsSession calls)
    (given : ∀ model ∈ [call.model1, call.model2],
      model.WellFormed ∨ ∃ earlier ∈ calls, earlier.outcome = .ok model) :
    IsSession (calls ++ [call]) := by
  intro before other after split
  rcases List.eq_nil_or_concat after with rfl | ⟨middle, last, rfl⟩
  · obtain ⟨same, isLast⟩ := List.append_inj' split rfl
    cases isLast
    rw [← same]
    exact given
  · rw [List.concat_eq_append, ← List.cons_append, ← List.append_assoc] at split
    exact session before other middle (List.append_inj' split rfl).1

theorem IsSession.init (session : IsSession (calls ++ [call])) : IsSession calls := by
  intro before other after split
  apply session before other (after ++ [call])
  rw [split, List.append_assoc]
  rfl

/-- All models of a session are well formed. -/
theorem History.wellFormed {visited : List String} (history : History order calls visited)
    (session : IsSession calls) : ∀ call ∈ calls,
      call.model1.WellFormed ∧ call.model2.WellFormed ∧
        ∀ result, call.outcome = .ok result → result.WellFormed := by
  induction history with
  | start =>
      intro call impossible
      cases impossible
  | @call calls last _ ends induction =>
      have earlier := induction session.init
      have given : ∀ model ∈ [last.model1, last.model2], model.WellFormed := by
        intro model member
        rcases session calls last [] rfl model member with wellFormed | ⟨call, inCalls, isOk⟩
        · exact wellFormed
        · exact (earlier call inCalls).2.2 model isOk
      have wellFormed1 := given last.model1 List.mem_cons_self
      have wellFormed2 := given last.model2 (List.mem_cons_of_mem _ List.mem_cons_self)
      intro call member
      rcases List.mem_append.mp member with old | isLast
      · exact earlier call old
      · rw [List.mem_singleton.mp isLast]
        refine ⟨wellFormed1, wellFormed2, ?_⟩
        intro result isOk
        obtain ⟨parts, depth, input, returned⟩ :=
          ends.exists_input isOk wellFormed1 wellFormed2
        exact (input.startsAt returned).wellFormed

/-- Every result of a session is well formed, and, when no label of the first of its models
contains a comma, its walks interleave walks through its two models. -/
theorem history_interleaves {visited : List String} (history : History order calls visited)
    (session : IsSession calls) : ∀ call ∈ calls, ∀ result, call.outcome = .ok result →
      result.WellFormed ∧ ∃ parts, IsParts order call.model1 call.model2 parts ∧
        result.initialLocation = some (pairLabel parts.start) ∧
        (call.model1.LabelsAvoid [','] →
          ∀ walk ∈ result.graph.chains (pairLabel parts.start),
            ∃ joints, parts.Interleaves call.model1 call.model2 joints ∧
              IsWalkOf parts call.model1 call.model2 result joints walk ∧
              (∃ walk1 ∈ call.model1.graph.chains parts.start.1,
                joints.filterMap Joint.edge1 = walk1.map call.model1.copied) ∧
              ∃ walk2 ∈ call.model2.graph.chains parts.start.2,
                joints.filterMap Joint.edge2 = walk2.map call.model2.copied) := by
  intro call member result isOk
  obtain ⟨wellFormed1, wellFormed2, _⟩ := history.wellFormed session call member
  obtain ⟨parts, depth, input, returned⟩ :=
    (history.ends call member).exists_input isOk wellFormed1 wellFormed2
  have startsAt := input.startsAt returned
  refine ⟨startsAt.wellFormed, parts, input.isParts, startsAt.initialLocation, ?_⟩
  intro avoid1 walk isWalk
  obtain ⟨joints, interleaves, isWalkOf⟩ := input.exists_interleaving avoid1 returned isWalk
  exact ⟨joints, interleaves, isWalkOf,
    input.exactCopy1.exists_walk input.wellFormed1 interleaves.walk1,
    input.exactCopy2.exists_walk input.wellFormed2 interleaves.walk2⟩

end Sessions

namespace SessionInstance

open InterleavingInstance (order model1 model2 model1_wellFormed model2_wellFormed)

def z : Action := ⟨"z", .output, []⟩

def third : TIOSTS :=
  .assemble (.declare "P" [⟨"k", .internal, []⟩, z] [] [] []) ["u", "d"] "u"
    [.bare "u" ⟨"k", .internal, []⟩ "d", .bare "d" z "d"]

theorem third_wellFormed : third.WellFormed :=
  TIOSTS.assemble_wellFormed (TIOSTS.declare_isBlank _ _ _ _ _) (by decide)

/-- A third model is composed with the composition of two. -/
def composed : Visits (TIOSTS × TIOSTS) := do
  let result ← parallelComposition order 4 (model1 "a") model2
  let next ← parallelComposition order 4 third result
  return (result, next)

theorem exists_composed : ∃ result visited next after,
    (parallelComposition order 4 (model1 "a") model2).outcome [] = (.ok result, visited) ∧
      (parallelComposition order 4 third result).outcome visited = (.ok next, after) ∧
        next.outOf "d,a,c" ≠ [] := by
  have ran : (composed.outcome []).1.toOption.map
      (fun models => decide (models.2.outOf "d,a,c" ≠ [])) = some true := by decide +kernel
  obtain ⟨models, returned, moves⟩ := exists_checked ran
  rw [composed, Visits.outcome_bind] at returned
  cases first : (parallelComposition order 4 (model1 "a") model2).outcome [] with
  | mk outcome visited =>
      rw [first] at returned
      cases outcome with
      | error failure => cases returned
      | ok result =>
          simp only [Visits.outcome_bind] at returned
          cases second : (parallelComposition order 4 third result).outcome visited with
          | mk outcome after =>
              rw [second] at returned
              cases outcome with
              | error failure => cases returned
              | ok next =>
                  cases returned
                  exact ⟨result, visited, next, after, rfl, second, of_decide_eq_true moves⟩

end SessionInstance

open InterleavingInstance SessionInstance in
/-- The composition of two loops is composed with a third one. -/
theorem history_interleaves_composed : ∃ (calls : List Call) (visited : List String)
    (result next : TIOSTS), History order calls visited ∧ IsSession calls ∧
      calls.map Call.model2 = [model2, result] ∧
      calls.map Call.outcome = [.ok result, .ok next] ∧ next.outOf "d,a,c" ≠ [] ∧
      ∀ call ∈ calls, ∀ result, call.outcome = .ok result →
        result.WellFormed ∧ ∃ parts, IsParts order call.model1 call.model2 parts ∧
          result.initialLocation = some (pairLabel parts.start) := by
  obtain ⟨result, visited, next, after, first, second, moves⟩ := exists_composed
  have firstRan : (findParts order (model1 "a") model2).toOption.map (fun _ => true) =
    some true := by decide
  obtain ⟨parts, input, _⟩ :=
    found_of_run (model1_wellFormed (by decide)) model2_wellFormed firstRan
  have firstEnds := input.isParts.ends_of_returned first
  have secondParts : ∃ parts, IsParts order third result parts := by
    by_contra none
    obtain ⟨failure, rejected⟩ := outcome_rejected (not_exists.mp none)
    cases (rejected 4 visited).symm.trans second
  obtain ⟨otherParts, isOtherParts⟩ := secondParts
  have secondEnds := isOtherParts.ends_of_returned second
  have history := History.call (History.call .start firstEnds) secondEnds
  have session : IsSession ([] ++ [⟨[], model1 "a", model2, .ok result, visited⟩] ++
      [⟨visited, third, result, .ok next, after⟩]) := by
    apply IsSession.concat
    · apply IsSession.nil.concat
      intro model member
      rcases List.mem_cons.mp member with rfl | later
      · exact Or.inl (model1_wellFormed (by decide))
      · rw [List.mem_singleton.mp later]
        exact Or.inl model2_wellFormed
    · intro model member
      rcases List.mem_cons.mp member with rfl | later
      · exact Or.inl third_wellFormed
      · rw [List.mem_singleton.mp later]
        exact Or.inr ⟨_, List.mem_singleton.mpr rfl, rfl⟩
  refine ⟨_, after, result, next, history, session, rfl, rfl, moves, ?_⟩
  intro call member composed isOk
  obtain ⟨wellFormed, parts, isParts, initial, _⟩ :=
    history_interleaves history session call member composed isOk
  exact ⟨wellFormed, parts, isParts, initial⟩

end ParallelComposition

end Symbolrt
