import Symbolrt.SymbolicExecution.ExecutionRuns

/-!
# Executions that throw

What an execution throws is thrown by a branch of a run that it has explored.
-/

namespace Symbolrt

namespace SymbolicExecution

open SynchronousProduct (initialLocationOf)

section Runs

variable {tools : SymbolicTools} {tiosts : TIOSTS} {root : SymbolicState}
  {tree : SymbolicExecutionTree} {trace : Nat → Trace} {progress : Nat → Nat} {failure : Failure}

/-- A branch of a run throws. -/
def SomeBranchFails (tools : SymbolicTools) (tiosts : TIOSTS) (root : SymbolicState)
    (failure : Failure) : Prop :=
  ∃ choices history, Unfolding.Run root (nextState tools tiosts) choices history ∧
    ∃ transition ∈ outgoing history, branchOf tools tiosts history transition = .error failure

theorem Traced.innerLoop_failed (traced : Traced tools tiosts root tree trace progress)
    {current : Nat} {node : SymbolicNode} {unvisited : List Nat}
    (found : tree.getNode current = some node) (untouched : progress current = 0)
    (fresh : ∀ reference, tree.next ≤ reference → progress reference = 0)
    (failed : (outgoing (trace current).history).foldlM
      (visitTransition tools tiosts current) (unvisited, tree) = .error failure) :
    SomeBranchFails tools tiosts root failure := by
  have inside := SymbolicExecutionTree.lt_next_of_getNode found
  have traced_at : ∀ {done state}, InnerLoop tools tiosts root tree trace progress current
      unvisited done state → ∃ middleTrace middleProgress middleNode,
        Traced tools tiosts root state.2 middleTrace middleProgress ∧
        state.2.getNode current = some middleNode ∧
        (middleTrace current).history = (trace current).history := by
    rintro done state ⟨middleTrace, _, later, kept, middleTraced⟩
    obtain ⟨middleNode, middleFound⟩ :=
      SymbolicExecutionTree.exists_getNode (Nat.lt_of_lt_of_le inside later)
    exact ⟨middleTrace, _, middleNode, middleTraced, middleFound,
      congrArg Trace.history (kept current inside)⟩
  obtain ⟨done, transition, rest, state, whole, loop, stepFailed⟩ :=
    Loops.foldlM_failed (InnerLoop tools tiosts root tree trace progress current unvisited)
      failed (traced.innerLoop_start untouched) (by
        intro done transition rest state next whole loop visited
        obtain ⟨_, _, _, middleTraced, middleFound, same⟩ := traced_at loop
        obtain ⟨result, outcome⟩ := middleTraced.branchOf_of_visited middleFound visited
        rw [same] at outcome
        obtain ⟨other, otherVisited, otherLoop⟩ := loop.step found fresh whole outcome
        rw [visited] at otherVisited
        rw [Except.ok.inj otherVisited]
        exact otherLoop)
  obtain ⟨_, _, _, middleTraced, middleFound, same⟩ := traced_at loop
  have branchFailed := middleTraced.branchOf_of_failed middleFound stepFailed
  rw [same] at branchFailed
  exact ⟨_, _, traced.run current node found, transition, by simp [whole], branchFailed⟩

theorem Traced.visitAll_failed {current : Nat}
    (traced : Traced tools tiosts root tree trace (visitedBelow trace current)) {rounds : Nat}
    (failed : visitAll tools tiosts rounds (List.range' current (tree.next - current)) tree =
      .error failure) (notCut : failure ≠ .depthExceeded) :
    SomeBranchFails tools tiosts root failure := by
  induction rounds generalizing current tree trace with
  | zero =>
      cases remaining : tree.next - current with
      | zero =>
          rw [remaining] at failed
          cases failed
      | succ more =>
          rw [remaining] at failed
          exact absurd (Except.error.inj failed).symm notCut
  | succ rounds induction =>
      cases remaining : tree.next - current with
      | zero =>
          rw [remaining] at failed
          cases failed
      | succ more =>
          have inside : current < tree.next := by omega
          obtain ⟨node, found⟩ := SymbolicExecutionTree.exists_getNode inside
          obtain ⟨state, transitions⟩ := traced.outgoing_eq found
          have rest : more = tree.next - (current + 1) := by omega
          rw [remaining, List.range'_succ, visitAll, state, deref_some, ok_bind, ← transitions,
            rest] at failed
          rcases bind_eq_error failed with innerFailed | ⟨⟨pending, after⟩, inner, later⟩
          · exact traced.innerLoop_failed found (by simp [visitedBelow])
              (fun reference beyond => if_neg (by omega)) innerFailed
          · obtain ⟨pendingEq, afterBegun, afterTrace, afterTraced⟩ := traced.round found inner
            simp only at pendingEq afterTraced afterBegun
            rw [pendingEq] at later
            exact induction afterTraced later

end Runs

/-- What an execution of a model with an initial location throws, a branch throws. -/
theorem execute_failed {tools : SymbolicTools} {tiosts : TIOSTS} {location : Location}
    (isInitial : initialLocationOf tiosts = .ok location) {rounds : Nat} {failure : Failure}
    (failed : execute tools tiosts rounds = .error failure) (notCut : failure ≠ .depthExceeded) :
    SomeBranchFails tools tiosts (initialState tools tiosts location) failure := by
  rw [execute, isInitial, ok_bind] at failed
  have start := traced_initial tools tiosts (initialState tools tiosts location)
    ("ZSET_" ++ tiosts.name)
  exact (start.congr (fun reference _ => (if_neg (Nat.not_lt_zero reference)).symm)
    : Traced _ _ _ _ _ (visitedBelow (fun _ => ⟨[], [_]⟩) 0)).visitAll_failed failed notCut

end SymbolicExecution

end Symbolrt
