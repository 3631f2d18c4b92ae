import Symbolrt.Lib.Loops
import Symbolrt.Lib.Unfolding
import Symbolrt.SymbolicExecution.Execution

/-!
# The branches of a symbolic execution

Which branches a state gets is determined by the states on the path to it.  The
tree that the worklist has built is described by a trace: for every state the
choices that lead to it and the states on the path, the newest first.
-/

namespace Symbolrt

namespace SymbolicExecution

/-- What a symbolic transition carries, with the state it leads to. -/
structure Branch where
  symbolicAction : SymbolicAction
  clockGuard : ClockGuard
  clockAssignments : Option String
  deadline : Deadline
  target : SymbolicState
  deriving DecidableEq

section Branches

variable (tools : SymbolicTools) (tiosts : TIOSTS)

/-- The branch of a transition below a path, unless the next state is unreachable or
its location stands on the path twice. -/
def branchOf (history : List SymbolicState) (transition : Transition) :
    Except Failure (Option Branch) :=
  match history with
  | [] => .ok none
  | current :: _ => do
      let (symbolicAction, nextState) ← nextZSES tools tiosts current transition
      let reachable ← isReachable tools (varParamMapping tiosts) nextState
      return if reachable && !occursTwice nextState.location history then
          some ⟨symbolicAction, transition.clockGuard, transition.clockAssignments,
            transition.deadline, nextState⟩
        else none

/-- The outgoing transitions of the newest location. -/
def outgoing (history : List SymbolicState) : List Transition :=
  match history with
  | [] => []
  | current :: _ => current.location.outTransitions

/-- The branch of the numbered outgoing transition. -/
def choose (history : List SymbolicState) (choice : Nat) : Option Branch :=
  (outgoing history)[choice]?.bind
    (fun transition => (branchOf tools tiosts history transition).toOption.join)

def nextState (history : List SymbolicState) (choice : Nat) : Option SymbolicState :=
  (choose tools tiosts history choice).map Branch.target

/-- The branches of the first transitions, each with its number. -/
def branchesUpTo (history : List SymbolicState) (limit : Nat) : List (Nat × Branch) :=
  (List.range limit).filterMap
    (fun choice => (choose tools tiosts history choice).map (Prod.mk choice))

variable {tools tiosts}

theorem branchesUpTo_succ (history : List SymbolicState) (limit : Nat) :
    branchesUpTo tools tiosts history (limit + 1) =
      branchesUpTo tools tiosts history limit ++
        ((choose tools tiosts history limit).map (Prod.mk limit)).toList := by
  unfold branchesUpTo
  rw [List.range_succ, List.filterMap_append]
  congr 1

theorem mem_branchesUpTo {history : List SymbolicState} {limit choice : Nat}
    {branch : Branch} : (choice, branch) ∈ branchesUpTo tools tiosts history limit ↔
      choice < limit ∧ choose tools tiosts history choice = some branch := by
  simp only [branchesUpTo, List.mem_filterMap, List.mem_range, Option.map_eq_some_iff,
    Prod.mk.injEq]
  constructor
  · rintro ⟨_, inside, _, chosen, rfl, rfl⟩
    exact ⟨inside, chosen⟩
  · rintro ⟨inside, chosen⟩
    exact ⟨choice, inside, branch, chosen, rfl, rfl⟩

theorem branchesUpTo_nodup (history : List SymbolicState) (limit : Nat) :
    ((branchesUpTo tools tiosts history limit).map Prod.fst).Nodup := by
  induction limit with
  | zero => exact List.nodup_nil
  | succ limit induction =>
      rw [branchesUpTo_succ, List.map_append, List.nodup_append]
      refine ⟨induction, ?_, ?_⟩
      · cases choose tools tiosts history limit <;> simp
      · rintro old oldMember new newMember rfl
        obtain ⟨⟨choice, branch⟩, inBranches, rfl⟩ := List.mem_map.mp oldMember
        have inside := (mem_branchesUpTo.mp inBranches).1
        cases chosen : choose tools tiosts history limit with
        | none => simp [chosen] at newMember
        | some other =>
            simp [chosen] at newMember
            omega

theorem choose_lt {history : List SymbolicState} {choice : Nat} {branch : Branch}
    (chosen : choose tools tiosts history choice = some branch) :
    choice < (outgoing history).length := by
  obtain ⟨transition, found, _⟩ := Option.bind_eq_some_iff.mp chosen
  exact (List.getElem?_eq_some_iff.mp found).1

/-- What a chosen branch consists of. -/
theorem choose_eq_some {current : SymbolicState} {above : List SymbolicState} {choice : Nat}
    {branch : Branch} (chosen : choose tools tiosts (current :: above) choice = some branch) :
    ∃ transition, current.location.outTransitions[choice]? = some transition ∧
      nextZSES tools tiosts current transition = .ok (branch.symbolicAction, branch.target) ∧
      isReachable tools (varParamMapping tiosts) branch.target = .ok true ∧
      occursTwice branch.target.location (current :: above) = false ∧
      branch.clockGuard = transition.clockGuard ∧
      branch.clockAssignments = transition.clockAssignments ∧
      branch.deadline = transition.deadline := by
  obtain ⟨transition, found, joined⟩ := Option.bind_eq_some_iff.mp chosen
  refine ⟨transition, found, ?_⟩
  cases outcome : branchOf tools tiosts (current :: above) transition with
  | error failure =>
      rw [outcome] at joined
      cases joined
  | ok result =>
      have isBranch : result = some branch := by
        simpa [outcome, Except.toOption] using joined
      simp only [branchOf, bind_eq_ok] at outcome
      obtain ⟨⟨symbolicAction, nextState⟩, stepped, reachable, answered, returned⟩ := outcome
      rw [isBranch] at returned
      have decided := Except.ok.inj returned
      split at decided
      · rename_i both
        obtain ⟨isReachable, free⟩ := Bool.and_eq_true_iff.mp both
        cases decided
        refine ⟨stepped, ?_, by simpa using free, rfl, rfl, rfl⟩
        rw [answered, isReachable]
      · cases decided

end Branches

end SymbolicExecution

end Symbolrt
