import Symbolrt.Compositions.ParallelHistory

/-!
# The lookups of a parallel composition

Every transition of the composition takes its action from the lists of the result, from
which the actions of the two initial transitions and the inputs that the partner outputs
have been left out.
-/

namespace Symbolrt

namespace ParallelComposition

/-- The lists of the result leave out the action of the move: the initial internal action
of its model or, in the second model, an input that is declared as an output as well. -/
def LeftOut (model2 : TIOSTS) (parts : Parts) : Move → Prop
  | .first _ _ t1 => t1.action.type = .internal ∧ t1.action.name = parts.init1.action.name
  | .second _ _ t2 =>
      t2.action.type = .internal ∧ t2.action.name = parts.init2.action.name ∨
        t2.action.type = .input ∧ t2.action.name ∈ (model2.actionsOf .output).map Action.name
  | .both _ _ _ _ => False

/-- No call with these visited pairs ends with a lookup at the index minus one. -/
def RecoversAll (order : IterationOrder) (model1 model2 : TIOSTS) (visited : List String) : Prop :=
  ∀ outcome after, (⟨visited, model1, model2, outcome, after⟩ : Call).Ends order →
    outcome ≠ .error .indexOutOfBounds

/-- At no pair that the call comes to does a component with a partner move alone on an action
that is left out. -/
def NoneLeftOut (model1 model2 : TIOSTS) (parts : Parts) (visited : List String) : Prop :=
  visitedKey parts.root.1 parts.root.2 ∉ visited →
    ∀ move, (parts.search model1 model2).ReachesUnmarked visited parts.root move.source →
      parts.IsLegal model1 model2 move → parts.HasPartner move → ¬ LeftOut model2 parts move

section Input

variable {order : IterationOrder} {model1 model2 : TIOSTS} {parts : Parts}

variable (input : IsParallelInput order model1 model2 parts) {visited : List String}

include input

theorem IsParallelInput.leftOut_iff {move : Move} (legal : parts.IsLegal model1 model2 move) :
    LeftOut model2 parts move ↔ parts.Throws move := by
  rw [input.throws_iff legal]
  cases move <;> exact Iff.rfl

theorem IsParallelInput.ends_visited (known : visitedKey parts.root.1 parts.root.2 ∈ visited)
    {outcome : Except Failure TIOSTS} {after : List String}
    (ends : (⟨visited, model1, model2, outcome, after⟩ : Call).Ends order) :
    outcome = .ok parts.base := by
  obtain ⟨bound, ended⟩ := ends
  have last := ended (bound + 1) (Nat.le_succ bound)
  rw [input.isParts.outcome] at last
  have marked : (parts.search model1 model2).visit (bound + 1) parts.root parts.base visited =
      (.ok parts.base, visited) := MarkedSearch.visit_marked known bound parts.base
  exact (congrArg Prod.fst (marked.symm.trans last)).symm

/-- What the failing call comes to is a move whose action is left out. -/
theorem IsParallelInput.recoversAll (none : NoneLeftOut model1 model2 parts visited) :
    RecoversAll order model1 model2 visited := by
  intro outcome after ends failed
  by_cases known : visitedKey parts.root.1 parts.root.2 ∈ visited
  · rw [input.ends_visited known ends] at failed
    cases failed
  · obtain ⟨followed, entered, result, explores, bound, ended⟩ := input.exists_explores known
    obtain ⟨otherBound, otherEnded⟩ := ends
    have same : result = outcome := by
      have one := ended (max bound otherBound) (le_max_left _ _)
      rw [otherEnded _ (le_max_right _ _)] at one
      exact (congrArg Prod.fst one).symm
    obtain ⟨final, move, reached, fails, origin⟩ :=
      explores.error_eq .indexOutOfBounds (same.trans failed)
    have reaches : (parts.search model1 model2).ReachesUnmarked visited parts.root move.source ∧
        move ∈ (parts.search model1 model2).moves move.source := by
      rcases origin with atRoot | ⟨node, inEntered, atNode⟩
      · obtain ⟨source, _⟩ := input.mem_moves.mp atRoot
        rw [source]
        exact ⟨.refl, atRoot⟩
      · obtain ⟨source, _⟩ := input.mem_moves.mp atNode
        obtain ⟨first, isFirst, fresh, later⟩ := explores.reached_unmarked node inEntered
        rw [source]
        exact ⟨.head ⟨⟨first, isFirst, rfl⟩,
          fun isMarked => fresh (List.mem_append_left _ isMarked)⟩ later.of_append, atNode⟩
    obtain ⟨_, legal, partner⟩ := input.mem_moves.mp reaches.2
    have declared : ¬ parts.Throws move := by
      rw [← input.leftOut_iff legal]
      exact none known move reaches.1 legal partner
    have follows := follows_of_foldlM parts.base_labelled reached
    obtain ⟨next, created⟩ := (create_isOk_iff follows move).mpr declared
    have thrown : move.create final = .error .indexOutOfBounds := fails
    rw [thrown] at created
    cases created

/-- A call that makes all lookups comes to every pair it can reach. -/
theorem IsParallelInput.noneLeftOut (divides : DividesKeys model1)
    (recovers : RecoversAll order model1 model2 visited) :
    NoneLeftOut model1 model2 parts visited := by
  intro fresh move reaches legal partner
  obtain ⟨followed, entered, result, explores, bound, ended⟩ := input.exists_explores fresh
  have notThrown := recovers result _ ⟨bound, ended⟩
  cases result with
  | error failure =>
      obtain ⟨final, thrower, reached, fails, _⟩ := explores.error_eq failure rfl
      have follows := follows_of_foldlM parts.base_labelled reached
      rw [thrower.create_error follows.labelled fails] at notThrown
      exact absurd rfl notThrown
  | ok final =>
      have isEntered := explores.enters_unmarked (input.keys_inj divides) reaches
      have listed := input.mem_moves.mpr ⟨rfl, legal, partner⟩
      obtain ⟨given, atNodes, _⟩ := explores.covers final rfl
      have isFollowed : move ∈ followed := by
        rcases List.mem_cons.mp isEntered with isRoot | inEntered
        · apply given
          rw [← isRoot]
          exact listed
        · exact atNodes _ inEntered move listed
      rw [input.leftOut_iff legal]
      exact followed_declared (explores.state_eq final rfl) move isFollowed

end Input

/-- All lookups of a parallel composition succeed if at no pair it comes to a component moves
alone on an action that the result leaves out, and, when no label of the first model contains
a comma and a blank behind it, only then. -/
theorem parallelComposition_recoversAll_iff {order : IterationOrder} {model1 model2 : TIOSTS}
    {parts : Parts} (input : IsParallelInput order model1 model2 parts) (visited : List String) :
    (NoneLeftOut model1 model2 parts visited → RecoversAll order model1 model2 visited) ∧
      (DividesKeys model1 → (RecoversAll order model1 model2 visited ↔
        NoneLeftOut model1 model2 parts visited)) :=
  ⟨input.recoversAll, fun divides => ⟨input.noneLeftOut divides, input.recoversAll⟩⟩

open InterleavingInstance HistoryInstance in
/-- Two loops of outputs are composed. -/
theorem parallelComposition_recoversAll_loops :
    RecoversAll order (model1 "a") model2 [] := by
  obtain ⟨parts, input, loops⟩ := loops_input
  apply (parallelComposition_recoversAll_iff input []).1
  intro _ move reaches legal _ leftOut
  have unrestricted : (parts.search (model1 "a") model2).Reaches parts.root move.source :=
    Relation.ReflTransGen.mono (fun _ _ step => step.1) _ _ reaches
  have source := loops.stays (input.legallyReaches unrestricted)
  obtain ⟨_, out1, out2⟩ := loops
  cases move with
  | first loc1 loc2 t1 =>
      obtain ⟨rfl, rfl⟩ := Prod.mk.inj source
      have isLoop := legal.1
      rw [out1] at isLoop
      have isInternal := leftOut.1
      rw [List.mem_singleton.mp isLoop] at isInternal
      cases isInternal
  | second loc1 loc2 t2 =>
      obtain ⟨rfl, rfl⟩ := Prod.mk.inj source
      have isLoop := legal.1
      rw [out2] at isLoop
      rw [LeftOut, List.mem_singleton.mp isLoop] at leftOut
      rcases leftOut with ⟨isInternal, _⟩ | ⟨isInput, _⟩
      · cases isInternal
      · cases isInput
  | both loc1 loc2 t1 t2 => exact leftOut

namespace TauInstance

def tau : Action := ⟨"tau", .internal, []⟩

/-- A component that goes on with its initial action. -/
def model1 : TIOSTS :=
  .assemble (.declare "M" [tau] [] [] []) ["s", "a", "b"] "s"
    [.bare "s" tau "a", .bare "a" tau "b"]

theorem wellFormed1 : model1.WellFormed :=
  TIOSTS.assemble_wellFormed (TIOSTS.declare_isBlank _ _ _ _ _) (by decide)

end TauInstance

open InterleavingInstance in
/-- When the initial action of the first model labels another transition and the second model
does not have it, the lookup fails. -/
theorem parallelComposition_tau_left_out :
    TauInstance.model1.WellFormed ∧ model2.WellFormed ∧
      (∃ parts, IsParallelInput order TauInstance.model1 model2 parts) ∧
      ((parallelComposition order 5 TauInstance.model1 model2).outcome []).1.toOption = none ∧
      ¬ RecoversAll order TauInstance.model1 model2 [] := by
  have ran : (findParts order TauInstance.model1 model2).toOption.map (fun parts => decide (
      parts.root = ("a", "c") ∧ parts.init1.action = TauInstance.tau ∧
        .bare "a" TauInstance.tau "b" ∈ parts.tiosts1.outOf "a" ∧
          parts.tiosts2.outOf "c" ≠ [])) = some true := by decide
  obtain ⟨parts, input, checked⟩ := found_of_run TauInstance.wellFormed1 model2_wellFormed ran
  obtain ⟨root, initial, listed, partner⟩ := of_decide_eq_true checked
  refine ⟨TauInstance.wellFormed1, model2_wellFormed, ⟨parts, input⟩, by decide, ?_⟩
  intro recovers
  have avoid : TauInstance.model1.LabelsAvoid [','] :=
    TIOSTS.assemble_labelsAvoid (TIOSTS.declare_isBlank _ _ _ _ _) (by decide)
  have none := input.noneLeftOut (dividesKeys_of_labelsAvoid avoid) recovers
  apply none List.not_mem_nil (.first "a" "c" (.bare "a" TauInstance.tau "b"))
  · rw [root]
    exact .refl
  · exact ⟨listed, by decide⟩
  · exact partner
  · refine ⟨rfl, ?_⟩
    rw [initial]
    rfl

end ParallelComposition

end Symbolrt
