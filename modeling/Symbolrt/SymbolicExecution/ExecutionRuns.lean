import Mathlib.Data.Finset.Card
import Symbolrt.Algorithms.ProductRuns
import Symbolrt.SymbolicExecution.ExecutionTree

/-!
# Runs of the worklist

The states of the worklist are those whose transitions have not been dealt with.
An execution that returns yields a tree with all branches of every state; it
returns when every branch can be computed and the runs are finitely many.
-/

namespace Symbolrt

namespace SymbolicExecution

open SynchronousProduct (initialLocationOf)

/-- The number of outgoing transitions of the newest location. -/
def degree (history : List SymbolicState) : Nat := (outgoing history).length

/-- Every state of the tree has all of its branches. -/
def IsExecutionTree (tools : SymbolicTools) (tiosts : TIOSTS) (root : SymbolicState)
    (tree : SymbolicExecutionTree) (trace : Nat → Trace) : Prop :=
  Traced tools tiosts root tree trace (fun reference => degree (trace reference).history)

section Runs

variable {tools : SymbolicTools} {tiosts : TIOSTS} {root : SymbolicState}
  {tree : SymbolicExecutionTree} {trace : Nat → Trace} {progress : Nat → Nat}

theorem Traced.congr (traced : Traced tools tiosts root tree trace progress)
    {other : Nat → Nat} (same : ∀ reference < tree.next, progress reference = other reference) :
    Traced tools tiosts root tree trace other where
  initial := traced.initial
  rootNode := traced.rootNode
  rootTrace := traced.rootTrace
  run := traced.run
  head := traced.head
  parent := traced.parent
  child := traced.child
  children := by
    intro reference node found
    rw [← same reference (SymbolicExecutionTree.lt_next_of_getNode found)]
    exact traced.children reference node found

theorem Traced.choices_child (traced : Traced tools tiosts root tree trace progress)
    {reference : Nat} {node : SymbolicNode} (found : tree.getNode reference = some node)
    {transition : SymbolicTransition} (member : transition ∈ node.childrenTransitions) :
    ∃ choice branch, choose tools tiosts (trace reference).history choice = some branch ∧
      (trace transition.targetZSES).choices = (trace reference).choices ++ [choice] ∧
      branchAt tree transition = some branch := by
  have listed := List.mem_map_of_mem (f := fun transition : SymbolicTransition =>
    ((trace transition.targetZSES).choices, branchAt tree transition)) member
  rw [traced.children reference node found] at listed
  obtain ⟨⟨choice, branch⟩, inBranches, same⟩ := List.mem_map.mp listed
  obtain ⟨choicesEq, branchEq⟩ := Prod.mk.inj same
  exact ⟨choice, branch, (mem_branchesUpTo.mp inBranches).2, choicesEq.symm, branchEq.symm⟩

theorem Traced.childChoices_nodup (traced : Traced tools tiosts root tree trace progress)
    {reference : Nat} {node : SymbolicNode} (found : tree.getNode reference = some node) :
    (node.childrenTransitions.map
      (fun transition => (trace transition.targetZSES).choices)).Nodup := by
  have listed := congrArg (List.map Prod.fst) (traced.children reference node found)
  rw [List.map_map, List.map_map] at listed
  have eq : node.childrenTransitions.map
      (fun transition => (trace transition.targetZSES).choices) =
      ((branchesUpTo tools tiosts (trace reference).history (progress reference)).map
        Prod.fst).map (fun choice => (trace reference).choices ++ [choice]) := by
    rw [List.map_map]
    exact listed
  rw [eq]
  apply (branchesUpTo_nodup _ _).map
  intro choice other same
  exact List.singleton_inj.mp (List.append_cancel_left same)

/-- The choices lead to one state of the tree. -/
theorem Traced.choices_inj (traced : Traced tools tiosts root tree trace progress)
    {reference other : Nat} {node otherNode : SymbolicNode}
    (found : tree.getNode reference = some node)
    (otherFound : tree.getNode other = some otherNode)
    (same : (trace reference).choices = (trace other).choices) : reference = other := by
  have nonempty : ∀ reference node, tree.getNode reference = some node → reference ≠ 0 →
      (trace reference).choices ≠ [] := by
    intro reference node found notRoot
    obtain ⟨transition, source, _, target, _, sourceFound, member⟩ :=
      traced.parent reference node found notRoot
    obtain ⟨choice, _, _, choices, _⟩ := traced.choices_child sourceFound member
    rw [← target, choices]
    simp
  induction reference using Nat.strong_induction_on generalizing node other otherNode with
  | _ reference induction =>
      by_cases isRoot : reference = 0
      · subst isRoot
        rw [traced.rootTrace] at same
        by_contra different
        exact nonempty other otherNode otherFound (Ne.symm different) same.symm
      · have otherNotRoot : other ≠ 0 := by
          rintro rfl
          rw [traced.rootTrace] at same
          exact nonempty reference node found isRoot same
        obtain ⟨transition, source, _, target, before, sourceFound, member⟩ :=
          traced.parent reference node found isRoot
        obtain ⟨otherTransition, otherSource, _, otherTarget, _, otherSourceFound,
          otherMember⟩ := traced.parent other otherNode otherFound otherNotRoot
        obtain ⟨choice, _, _, choices, _⟩ := traced.choices_child sourceFound member
        obtain ⟨otherChoice, _, _, otherChoices, _⟩ :=
          traced.choices_child otherSourceFound otherMember
        rw [← target, ← otherTarget] at same
        have parents := same
        rw [choices, otherChoices] at parents
        have sameSource := induction _ before sourceFound otherSourceFound
          (List.append_inj' parents rfl).1
        rw [sameSource, otherSourceFound] at sourceFound
        obtain rfl := Option.some.inj sourceFound
        have equal := List.inj_on_of_nodup_map (traced.childChoices_nodup otherSourceFound)
          member otherMember same
        rw [← target, ← otherTarget, equal]

/-- What one visit yields when the branch can be computed. -/
theorem Traced.visit (traced : Traced tools tiosts root tree trace progress)
    {current : Nat} {node : SymbolicNode} (found : tree.getNode current = some node)
    (fresh : progress tree.next = 0) (unvisited : List Nat) {transition : Transition}
    (listed : (outgoing (trace current).history)[progress current]? = some transition)
    {result : Option Branch}
    (outcome : branchOf tools tiosts (trace current).history transition = .ok result) :
    ∃ after afterTrace, visitTransition tools tiosts current (unvisited, tree) transition =
        .ok (unvisited ++ List.range' tree.next (after.next - tree.next), after) ∧
      tree.next ≤ after.next ∧
      (∀ reference < tree.next, afterTrace reference = trace reference) ∧
      Traced tools tiosts root after afterTrace
        (Function.update progress current (progress current + 1)) := by
  have inside := SymbolicExecutionTree.lt_next_of_getNode found
  have chosen := choose_of_branchOf listed outcome
  have visited := traced.visitTransition_eq found unvisited transition
  rw [outcome, ok_bind] at visited
  cases result with
  | none =>
      refine ⟨tree, trace, ?_, le_refl _, fun _ _ => rfl, traced.skip chosen⟩
      rw [visited, Nat.sub_self]
      simp
      rfl
  | some branch =>
      refine ⟨SymbolicExecution.grow tree current branch, _, ?_, ?_, ?_,
        traced.grow inside chosen fresh⟩
      · rw [visited, next_grow, Nat.add_sub_cancel_left]
        rfl
      · rw [next_grow]
        omega
      · intro reference older
        exact growTrace_of_ne (by omega)

/-- The state of the inner loop after some of the transitions. -/
def InnerLoop (tools : SymbolicTools) (tiosts : TIOSTS) (root : SymbolicState)
    (tree : SymbolicExecutionTree) (trace : Nat → Trace) (progress : Nat → Nat)
    (current : Nat) (unvisited : List Nat) (done : List Transition)
    (state : List Nat × SymbolicExecutionTree) : Prop :=
  ∃ afterTrace, state.1 = unvisited ++ List.range' tree.next (state.2.next - tree.next) ∧
    tree.next ≤ state.2.next ∧
    (∀ reference < tree.next, afterTrace reference = trace reference) ∧
    Traced tools tiosts root state.2 afterTrace
      (Function.update progress current done.length)

section Inner

variable {current : Nat} {node : SymbolicNode} {unvisited : List Nat}

theorem Traced.innerLoop_start (traced : Traced tools tiosts root tree trace progress)
    (untouched : progress current = 0) :
    InnerLoop tools tiosts root tree trace progress current unvisited [] (unvisited, tree) := by
  refine ⟨trace, by simp, le_refl _, fun _ _ => rfl, ?_⟩
  rw [List.length_nil, ← untouched, Function.update_eq_self]
  exact traced

/-- One iteration keeps the description and returns if the branch can be computed. -/
theorem InnerLoop.step
    (found : tree.getNode current = some node)
    (fresh : ∀ reference, tree.next ≤ reference → progress reference = 0)
    {done rest : List Transition} {transition : Transition}
    (whole : outgoing (trace current).history = done ++ transition :: rest)
    {state : List Nat × SymbolicExecutionTree}
    (loop : InnerLoop tools tiosts root tree trace progress current unvisited done state)
    {result : Option Branch}
    (outcome : branchOf tools tiosts (trace current).history transition = .ok result) :
    ∃ next, visitTransition tools tiosts current state transition = .ok next ∧
      InnerLoop tools tiosts root tree trace progress current unvisited (done ++ [transition])
        next := by
  obtain ⟨pending, middle⟩ := state
  obtain ⟨middleTrace, pendingEq, later, kept, middleTraced⟩ := loop
  simp only at pendingEq later middleTraced
  have inside := SymbolicExecutionTree.lt_next_of_getNode found
  have sameTrace := kept current inside
  obtain ⟨middleNode, middleFound⟩ :=
    SymbolicExecutionTree.exists_getNode (Nat.lt_of_lt_of_le inside later)
  have middleFresh : Function.update progress current done.length middle.next = 0 := by
    rw [Function.update_of_ne (by omega)]
    exact fresh _ later
  have listed : (outgoing (middleTrace current).history)[Function.update progress current
      done.length current]? = some transition := by
    rw [sameTrace, Function.update_self, whole]
    simp
  rw [← sameTrace] at outcome
  obtain ⟨after, afterTrace, visited, grown, old, afterTraced⟩ :=
    middleTraced.visit middleFound middleFresh pending listed outcome
  refine ⟨_, visited, afterTrace, ?_, Nat.le_trans later grown, ?_, ?_⟩
  · have split : after.next - tree.next =
        (middle.next - tree.next) + (after.next - middle.next) := by omega
    have start : tree.next + (middle.next - tree.next) = middle.next := by omega
    rw [pendingEq, split, ← List.range'_append_1, start, List.append_assoc]
  · intro reference older
    rw [old reference (Nat.lt_of_lt_of_le older later)]
    exact kept reference older
  · rw [Function.update_self, Function.update_idem] at afterTraced
    simpa using afterTraced

/-- An inner loop that returns has dealt with all transitions of the state. -/
theorem Traced.innerLoop_returned (traced : Traced tools tiosts root tree trace progress)
    (found : tree.getNode current = some node) (untouched : progress current = 0)
    (fresh : ∀ reference, tree.next ≤ reference → progress reference = 0)
    {final : List Nat × SymbolicExecutionTree}
    (returned : (outgoing (trace current).history).foldlM
      (visitTransition tools tiosts current) (unvisited, tree) = .ok final) :
    InnerLoop tools tiosts root tree trace progress current unvisited
      (outgoing (trace current).history) final := by
  apply Loops.foldlM_returned _ returned (traced.innerLoop_start untouched)
  intro done transition rest state next whole loop visited
  obtain ⟨result, outcome⟩ : ∃ result,
      branchOf tools tiosts (trace current).history transition = .ok result := by
    obtain ⟨middleTrace, _, later, kept, middleTraced⟩ := loop
    have inside := SymbolicExecutionTree.lt_next_of_getNode found
    obtain ⟨middleNode, middleFound⟩ :=
      SymbolicExecutionTree.exists_getNode (Nat.lt_of_lt_of_le inside later)
    have steps := middleTraced.visitTransition_eq middleFound state.1 transition
    have same : visitTransition tools tiosts current (state.1, state.2) transition =
      .ok next := visited
    rw [steps, bind_eq_ok, kept current inside] at same
    obtain ⟨result, outcome, _⟩ := same
    exact ⟨result, outcome⟩
  obtain ⟨other, otherVisited, otherLoop⟩ := loop.step found fresh whole outcome
  rw [visited] at otherVisited
  rw [Except.ok.inj otherVisited]
  exact otherLoop

/-- The inner loop returns when every branch can be computed. -/
theorem Traced.innerLoop_returns (traced : Traced tools tiosts root tree trace progress)
    (found : tree.getNode current = some node) (untouched : progress current = 0)
    (fresh : ∀ reference, tree.next ≤ reference → progress reference = 0)
    (computable : ∀ transition ∈ outgoing (trace current).history, ∃ result,
      branchOf tools tiosts (trace current).history transition = .ok result) :
    ∃ final, (outgoing (trace current).history).foldlM
      (visitTransition tools tiosts current) (unvisited, tree) = .ok final := by
  have body : ∀ done transition rest state,
      outgoing (trace current).history = done ++ transition :: rest →
      InnerLoop tools tiosts root tree trace progress current unvisited done state →
      ∃ next, visitTransition tools tiosts current state transition = .ok next ∧
        InnerLoop tools tiosts root tree trace progress current unvisited
          (done ++ [transition]) next := by
    intro done transition rest state whole loop
    obtain ⟨result, outcome⟩ := computable transition (by simp [whole])
    exact loop.step found fresh whole outcome
  obtain ⟨final, returned, _⟩ :=
    Loops.foldlM_returns _ (traced.innerLoop_start untouched) body
  exact ⟨final, returned⟩

end Inner

/-- The states before the given one have all of their branches, the others none. -/
def visitedBelow (trace : Nat → Trace) (current : Nat) (reference : Nat) : Nat :=
  if reference < current then degree (trace reference).history else 0

section Outer

variable {current : Nat}

/-- One round of the outer loop deals with one state. -/
theorem Traced.round
    (traced : Traced tools tiosts root tree trace (visitedBelow trace current))
    {node : SymbolicNode} (found : tree.getNode current = some node)
    {final : List Nat × SymbolicExecutionTree}
    (returned : (outgoing (trace current).history).foldlM (visitTransition tools tiosts current)
      (List.range' (current + 1) (tree.next - (current + 1)), tree) = .ok final) :
    final.1 = List.range' (current + 1) (final.2.next - (current + 1)) ∧
      current + 1 ≤ final.2.next ∧
      ∃ afterTrace, Traced tools tiosts root final.2 afterTrace
        (visitedBelow afterTrace (current + 1)) := by
  have inside := SymbolicExecutionTree.lt_next_of_getNode found
  obtain ⟨afterTrace, pending, later, kept, afterTraced⟩ := traced.innerLoop_returned found
    (by simp [visitedBelow]) (fun reference beyond => if_neg (by omega)) returned
  refine ⟨?_, by omega, afterTrace, ?_⟩
  · have start : current + 1 + (tree.next - (current + 1)) = tree.next := by omega
    have whole : final.2.next - (current + 1) =
        (tree.next - (current + 1)) + (final.2.next - tree.next) := by omega
    rw [pending, whole, ← List.range'_append_1, start]
  · apply afterTraced.congr
    intro reference _
    by_cases isCurrent : reference = current
    · subst isCurrent
      rw [Function.update_self, visitedBelow, if_pos (by omega), kept reference inside]
      rfl
    · rw [Function.update_of_ne isCurrent]
      by_cases before : reference < current
      · rw [visitedBelow, visitedBelow, if_pos before, if_pos (by omega),
          kept reference (by omega)]
      · rw [visitedBelow, visitedBelow, if_neg before, if_neg (by omega)]

theorem Traced.outgoing_eq (traced : Traced tools tiosts root tree trace progress)
    {node : SymbolicNode} (found : tree.getNode current = some node) :
    tree.getState current = some node.state ∧
      outgoing (trace current).history = node.state.location.outTransitions := by
  obtain ⟨above, history⟩ := traced.head current node found
  refine ⟨by simp [SymbolicExecutionTree.getState, found], ?_⟩
  rw [history]
  rfl

/-- When the worklist is empty every state has all of its branches. -/
theorem Traced.visitAll_returned
    (traced : Traced tools tiosts root tree trace (visitedBelow trace current))
    (begun : current ≤ tree.next) {rounds : Nat} {final : SymbolicExecutionTree}
    (returned : visitAll tools tiosts rounds (List.range' current (tree.next - current)) tree =
      .ok final) : ∃ finalTrace, IsExecutionTree tools tiosts root final finalTrace := by
  induction rounds generalizing current tree trace with
  | zero =>
      cases remaining : tree.next - current with
      | zero =>
          rw [remaining] at returned
          cases returned
          refine ⟨trace, traced.congr ?_⟩
          intro reference inside
          exact if_pos (by omega)
      | succ more =>
          rw [remaining] at returned
          cases returned
  | succ rounds induction =>
      cases remaining : tree.next - current with
      | zero =>
          rw [remaining] at returned
          cases returned
          refine ⟨trace, traced.congr ?_⟩
          intro reference inside
          exact if_pos (by omega)
      | succ more =>
          have inside : current < tree.next := by omega
          obtain ⟨node, found⟩ := SymbolicExecutionTree.exists_getNode inside
          obtain ⟨state, transitions⟩ := traced.outgoing_eq found
          have rest : more = tree.next - (current + 1) := by omega
          rw [remaining, List.range'_succ, visitAll, state, deref_some, ok_bind, ← transitions,
            bind_eq_ok, rest] at returned
          obtain ⟨⟨pending, after⟩, inner, later⟩ := returned
          obtain ⟨pendingEq, afterBegun, afterTrace, afterTraced⟩ := traced.round found inner
          simp only at pendingEq afterTraced afterBegun
          rw [pendingEq] at later
          exact induction afterTraced afterBegun later

/-- All branches of the runs can be computed. -/
def Computable (tools : SymbolicTools) (tiosts : TIOSTS) (root : SymbolicState) : Prop :=
  ∀ choices history, Unfolding.Run root (nextState tools tiosts) choices history →
    ∀ transition ∈ outgoing history, ∃ result,
      branchOf tools tiosts history transition = .ok result

/-- A tree has at most as many states as there are runs. -/
theorem Traced.next_le (traced : Traced tools tiosts root tree trace progress)
    (finite : {choices | ∃ history,
      Unfolding.Run root (nextState tools tiosts) choices history}.Finite) :
    tree.next ≤ finite.toFinset.card := by
  have inside : ∀ reference ∈ Finset.range tree.next,
      (trace reference).choices ∈ finite.toFinset := by
    intro reference member
    obtain ⟨node, found⟩ :=
      SymbolicExecutionTree.exists_getNode (Finset.mem_range.mp member)
    exact finite.mem_toFinset.mpr ⟨_, traced.run reference node found⟩
  have injective : Set.InjOn (fun reference => (trace reference).choices)
      (Finset.range tree.next : Set Nat) := by
    intro reference member other otherMember same
    obtain ⟨node, found⟩ := SymbolicExecutionTree.exists_getNode
      (Finset.mem_range.mp (Finset.mem_coe.mp member))
    obtain ⟨otherNode, otherFound⟩ := SymbolicExecutionTree.exists_getNode
      (Finset.mem_range.mp (Finset.mem_coe.mp otherMember))
    exact traced.choices_inj found otherFound same
  have counted := Finset.card_le_card_of_injOn _ inside injective
  rwa [Finset.card_range] at counted

/-- The worklist becomes empty when there are finitely many runs. -/
theorem Traced.visitAll_returns
    (traced : Traced tools tiosts root tree trace (visitedBelow trace current))
    (computable : Computable tools tiosts root)
    (finite : {choices | ∃ history,
      Unfolding.Run root (nextState tools tiosts) choices history}.Finite)
    (begun : current ≤ tree.next) {rounds : Nat}
    (enough : finite.toFinset.card ≤ current + rounds) :
    ∃ final, visitAll tools tiosts rounds (List.range' current (tree.next - current)) tree =
      .ok final := by
  have few := traced.next_le finite
  induction rounds generalizing current tree trace with
  | zero =>
      have remaining : tree.next - current = 0 := by omega
      rw [remaining]
      exact ⟨tree, rfl⟩
  | succ rounds induction =>
      cases remaining : tree.next - current with
      | zero => exact ⟨tree, rfl⟩
      | succ more =>
          have inside : current < tree.next := by omega
          obtain ⟨node, found⟩ := SymbolicExecutionTree.exists_getNode inside
          obtain ⟨state, transitions⟩ := traced.outgoing_eq found
          have rest : more = tree.next - (current + 1) := by omega
          obtain ⟨⟨pending, after⟩, inner⟩ : ∃ final,
              (outgoing (trace current).history).foldlM (visitTransition tools tiosts current)
                (List.range' (current + 1) (tree.next - (current + 1)), tree) = .ok final :=
            traced.innerLoop_returns found (by simp [visitedBelow])
              (fun reference beyond => if_neg (by omega))
              (computable _ _ (traced.run current node found))
          obtain ⟨pendingEq, afterBegun, afterTrace, afterTraced⟩ := traced.round found inner
          simp only at pendingEq afterTraced afterBegun
          obtain ⟨final, later⟩ := induction afterTraced afterBegun (by omega)
            (afterTraced.next_le finite)
          refine ⟨final, ?_⟩
          rw [List.range'_succ, visitAll, state, deref_some, ok_bind, ← transitions, rest,
            inner, ok_bind]
          simp only
          rw [pendingEq]
          exact later

end Outer

end Runs

section Executions

variable {tools : SymbolicTools} {tiosts : TIOSTS}

theorem execute_returned {rounds : Nat} {tree : SymbolicExecutionTree}
    (returned : execute tools tiosts rounds = .ok tree) :
    ∃ location trace, initialLocationOf tiosts = .ok location ∧
      IsExecutionTree tools tiosts (initialState tools tiosts location) tree trace := by
  obtain ⟨location, isInitial, ran⟩ := bind_eq_ok.mp returned
  have start := traced_initial tools tiosts (initialState tools tiosts location)
    ("ZSET_" ++ tiosts.name)
  obtain ⟨trace, isTree⟩ :=
    (start.congr (fun reference _ => (if_neg (Nat.not_lt_zero reference)).symm)
      : Traced _ _ _ _ _ (visitedBelow (fun _ => ⟨[], [_]⟩) 0)).visitAll_returned
      (Nat.zero_le _) ran
  exact ⟨location, trace, isInitial, isTree⟩

/-- An execution returns when all branches can be computed and the runs are finitely
many. -/
theorem execute_returns {location : Location} (isInitial : initialLocationOf tiosts = .ok location)
    (computable : Computable tools tiosts (initialState tools tiosts location))
    (finite : {choices | ∃ history, Unfolding.Run (initialState tools tiosts location)
      (nextState tools tiosts) choices history}.Finite) :
    ∃ rounds tree, execute tools tiosts rounds = .ok tree := by
  have start := traced_initial tools tiosts (initialState tools tiosts location)
    ("ZSET_" ++ tiosts.name)
  obtain ⟨tree, ran⟩ :=
    (start.congr (fun reference _ => (if_neg (Nat.not_lt_zero reference)).symm)
      : Traced _ _ _ _ _ (visitedBelow (fun _ => ⟨[], [_]⟩) 0)).visitAll_returns computable
      finite (Nat.zero_le _) (Nat.le_add_left _ 0)
  refine ⟨finite.toFinset.card, tree, ?_⟩
  unfold execute
  rw [isInitial, ok_bind]
  exact ran

end Executions

end SymbolicExecution

end Symbolrt
