import Symbolrt.Lib.BreadthFirst
import Symbolrt.SymbolicExecution.RootPaths

/-!
# The order of an execution tree

The worklist takes states from its front and puts new ones at its back.  So the sources of
parent transitions ascend with the states, and the states of a tree are numbered in the
shortlex order of the runs that lead to them.
-/

namespace Symbolrt

namespace SymbolicExecution

/-- The source of the parent transition of a state. -/
def sourceOf (tree : SymbolicExecutionTree) (reference : Nat) : Option Nat :=
  ((tree.getNode reference).bind SymbolicNode.parentTransition).map SymbolicTransition.sourceZSES

/-- The targets of the child transitions of a state. -/
def targetsOf (tree : SymbolicExecutionTree) (reference : Nat) : List Nat :=
  ((tree.getNode reference).map
    (fun node => node.childrenTransitions.map SymbolicTransition.targetZSES)).getD []

section Sources

variable {tree : SymbolicExecutionTree} {current : Nat} (branch : Branch)

theorem sourceOf_grow (inside : current < tree.next) (reference : Nat) :
    sourceOf (grow tree current branch) reference =
      if reference = tree.next then some current else sourceOf tree reference := by
  by_cases isNext : reference = tree.next
  · rw [if_pos isNext, isNext, sourceOf, getNode_grow_next tree current branch inside]
    rfl
  · rw [if_neg isNext]
    unfold sourceOf
    by_cases isCurrent : reference = current
    · rw [isCurrent, getNode_grow_current tree current branch inside]
      cases tree.getNode current <;> rfl
    · rw [getNode_grow_other tree current branch isNext isCurrent]

theorem targetsOf_grow (inside : current < tree.next) (reference : Nat) :
    targetsOf (grow tree current branch) reference =
      targetsOf tree reference ++ if reference = current then [tree.next] else [] := by
  by_cases isNext : reference = tree.next
  · have absent : tree.getNode tree.next = none := List.getElem?_eq_none (Nat.le_refl _)
    rw [isNext, if_neg (Nat.ne_of_gt inside), targetsOf, targetsOf,
      getNode_grow_next tree current branch inside, absent]
    rfl
  · unfold targetsOf
    by_cases isCurrent : reference = current
    · obtain ⟨node, found⟩ := SymbolicExecutionTree.exists_getNode inside
      rw [isCurrent, getNode_grow_current tree current branch inside, found, if_pos rfl]
      simp only [Option.map_some, Option.getD_some, SymbolicNode.addChildTransition,
        List.map_append]
      rfl
    · rw [getNode_grow_other tree current branch isNext isCurrent, if_neg isCurrent,
        List.append_nil]

end Sources

/-- Sources ascend, none is behind the current state, and siblings ascend. -/
structure Levelled (tree : SymbolicExecutionTree) (current : Nat) : Prop where
  ascending : ∀ reference other source otherSource, reference < other →
    sourceOf tree reference = some source → sourceOf tree other = some otherSource →
      source ≤ otherSource
  sources : ∀ reference source, sourceOf tree reference = some source →
    source ≤ current ∧ reference < tree.next
  siblings : ∀ reference, (targetsOf tree reference).Pairwise (· < ·)
  targets : ∀ reference, ∀ target ∈ targetsOf tree reference, target < tree.next

section Levels

variable {tools : SymbolicTools} {tiosts : TIOSTS} {tree : SymbolicExecutionTree}
  {current : Nat}

theorem levelled_initial (name : String) (root : SymbolicState) (current : Nat) :
    Levelled (SymbolicExecutionTree.ofInitial name root) current := by
  have noSource : ∀ reference,
      sourceOf (SymbolicExecutionTree.ofInitial name root) reference = none := by
    intro reference
    cases reference with
    | zero => rfl
    | succ reference => rfl
  have noTargets : ∀ reference,
      targetsOf (SymbolicExecutionTree.ofInitial name root) reference = [] := by
    intro reference
    cases reference with
    | zero => rfl
    | succ reference => rfl
  constructor
  · intro reference other source otherSource _ isSource
    rw [noSource] at isSource
    cases isSource
  · intro reference source isSource
    rw [noSource] at isSource
    cases isSource
  · intro reference
    rw [noTargets]
    exact List.Pairwise.nil
  · intro reference target member
    rw [noTargets] at member
    cases member

theorem Levelled.mono (levelled : Levelled tree current) {later : Nat}
    (notBefore : current ≤ later) : Levelled tree later where
  ascending := levelled.ascending
  sources := fun reference source isSource =>
    ⟨Nat.le_trans (levelled.sources reference source isSource).1 notBefore,
      (levelled.sources reference source isSource).2⟩
  siblings := levelled.siblings
  targets := levelled.targets

/-- A new state stands behind all others and below the current one. -/
theorem Levelled.grow (levelled : Levelled tree current) (inside : current < tree.next)
    (branch : Branch) : Levelled (SymbolicExecution.grow tree current branch) current where
  ascending := by
    intro reference other source otherSource before isSource isOther
    rw [sourceOf_grow branch inside] at isSource isOther
    split at isOther
    · rename_i isNext
      cases isOther
      rw [if_neg (by omega)] at isSource
      exact (levelled.sources reference source isSource).1
    · have otherInside := (levelled.sources other otherSource isOther).2
      rw [if_neg (by omega)] at isSource
      exact levelled.ascending reference other source otherSource before isSource isOther
  sources := by
    intro reference source isSource
    rw [sourceOf_grow branch inside] at isSource
    rw [next_grow]
    split at isSource
    · rename_i isNext
      cases isSource
      omega
    · have known := levelled.sources reference source isSource
      omega
  siblings := by
    intro reference
    rw [targetsOf_grow branch inside, List.pairwise_append]
    refine ⟨levelled.siblings reference, ?_, ?_⟩
    · split
      · exact List.pairwise_singleton _ _
      · exact List.Pairwise.nil
    · intro target member added isAdded
      split at isAdded
      · rw [List.mem_singleton.mp isAdded]
        exact levelled.targets reference target member
      · cases isAdded
  targets := by
    intro reference target member
    rw [next_grow]
    rw [targetsOf_grow branch inside] at member
    rcases List.mem_append.mp member with old | added
    · have known := levelled.targets reference target old
      omega
    · split at added
      · rw [List.mem_singleton.mp added]
        omega
      · cases added

/-- A visit changes nothing or adds a branch, whose state goes to the back of the list. -/
theorem visitTransition_cases {unvisited : List Nat} {transition : Transition}
    {next : List Nat × SymbolicExecutionTree}
    (visited : visitTransition tools tiosts current (unvisited, tree) transition = .ok next) :
    next = (unvisited, tree) ∨
      ∃ branch, next = (unvisited ++ [tree.next], SymbolicExecution.grow tree current branch) := by
  simp only [visitTransition, bind_eq_ok] at visited
  obtain ⟨_, _, ⟨symbolicAction, nextState⟩, _, _, _, _, _, returned⟩ := visited
  split at returned
  · cases returned
    exact Or.inr ⟨⟨symbolicAction, transition.clockGuard, transition.clockAssignments,
      transition.deadline, nextState⟩, rfl⟩
  · cases returned
    exact Or.inl rfl

/-- The list of unvisited states holds those behind the current one, in order. -/
def Pending (current : Nat) (progress : List Nat × SymbolicExecutionTree) : Prop :=
  progress.1 = List.range' (current + 1) (progress.2.next - (current + 1)) ∧
    current < progress.2.next ∧ Levelled progress.2 current

theorem Pending.visit {progress next : List Nat × SymbolicExecutionTree}
    {transition : Transition} (pending : Pending current progress)
    (visited : visitTransition tools tiosts current progress transition = .ok next) :
    Pending current next := by
  obtain ⟨unvisited, tree⟩ := progress
  obtain ⟨listed, inside, levelled⟩ := pending
  rcases visitTransition_cases visited with rfl | ⟨branch, rfl⟩
  · exact ⟨listed, inside, levelled⟩
  · simp only at listed inside levelled
    refine ⟨?_, ?_, levelled.grow inside branch⟩
    · simp only [next_grow]
      have count : tree.next + 1 - (current + 1) = tree.next - (current + 1) + 1 := by omega
      have last : current + 1 + (tree.next - (current + 1)) = tree.next := by omega
      rw [listed, count, List.range'_concat, Nat.one_mul, last]
    · simp only [next_grow]
      omega

/-- When the worklist is empty, sources and siblings ascend. -/
theorem Levelled.visitAll (levelled : Levelled tree current) (begun : current ≤ tree.next)
    {rounds : Nat} {final : SymbolicExecutionTree}
    (returned : visitAll tools tiosts rounds (List.range' current (tree.next - current)) tree =
      .ok final) : ∃ last, Levelled final last := by
  induction rounds generalizing current tree with
  | zero =>
      cases remaining : tree.next - current with
      | zero =>
          rw [remaining] at returned
          cases returned
          exact ⟨current, levelled⟩
      | succ more =>
          rw [remaining] at returned
          cases returned
  | succ rounds induction =>
      cases remaining : tree.next - current with
      | zero =>
          rw [remaining] at returned
          cases returned
          exact ⟨current, levelled⟩
      | succ more =>
          have rest : more = tree.next - (current + 1) := by omega
          have inside : current < tree.next := by omega
          rw [remaining, List.range'_succ, SymbolicExecution.visitAll, bind_eq_ok] at returned
          obtain ⟨state, _, inner⟩ := returned
          obtain ⟨⟨pending, after⟩, visited, later⟩ := bind_eq_ok.mp inner
          have ended : Pending current (pending, after) :=
            Loops.foldlM_returned (fun _ => Pending current) visited
              ⟨by rw [rest], inside, levelled⟩ (fun _ _ _ _ _ _ pending stepped =>
                pending.visit stepped)
          obtain ⟨pendingEq, afterInside, afterLevelled⟩ := ended
          simp only at pendingEq afterInside afterLevelled
          rw [pendingEq] at later
          exact induction (afterLevelled.mono (Nat.le_succ current)) afterInside later

theorem execute_levelled {rounds : Nat} (returned : execute tools tiosts rounds = .ok tree) :
    ∃ last, Levelled tree last := by
  obtain ⟨location, _, ran⟩ := bind_eq_ok.mp returned
  exact (levelled_initial _ _ 0).visitAll (Nat.zero_le _) ran

end Levels

section Numbering

variable {tools : SymbolicTools} {tiosts : TIOSTS} {root : SymbolicState}
  {tree : SymbolicExecutionTree} {trace : Nat → Trace}

theorem branchesUpTo_increasing (history : List SymbolicState) (limit : Nat) :
    ((branchesUpTo tools tiosts history limit).map Prod.fst).Pairwise (· < ·) := by
  rw [List.pairwise_map, branchesUpTo, List.pairwise_filterMap]
  apply List.pairwise_lt_range.imp
  intro choice other smaller entry isEntry otherEntry isOther
  obtain ⟨_, _, rfl⟩ := Option.map_eq_some_iff.mp isEntry
  obtain ⟨_, _, rfl⟩ := Option.map_eq_some_iff.mp isOther
  exact smaller

/-- The children of a state stand in the order of their choices. -/
theorem IsExecutionTree.children_increasing (isTree : IsExecutionTree tools tiosts root tree trace)
    {reference : Nat} {node : SymbolicNode} (found : tree.getNode reference = some node) :
    (node.childrenTransitions.map SymbolicTransition.targetZSES).Pairwise (fun target other =>
      List.Shortlex (· < ·) (trace target).choices (trace other).choices) := by
  have listed := congrArg (List.map Prod.fst) (isTree.children reference node found)
  rw [List.map_map, List.map_map] at listed
  have choices : (node.childrenTransitions.map
      (fun transition => (trace transition.targetZSES).choices)).Pairwise
        (List.Shortlex (· < ·)) := by
    have increasing := @branchesUpTo_increasing tools tiosts (trace reference).history
      (degree (trace reference).history)
    have eq : node.childrenTransitions.map
        (fun transition => (trace transition.targetZSES).choices) = _ := listed
    rw [eq, List.pairwise_map]
    refine (List.pairwise_map.mp increasing).imp ?_
    intro entry other smaller
    apply List.Shortlex.append_left
    exact (List.shortlex_singleton_iff _ _).mpr smaller
  rw [List.pairwise_map] at choices ⊢
  exact choices

theorem sourceOf_eq {reference : Nat} {node : SymbolicNode} {transition : SymbolicTransition}
    (found : tree.getNode reference = some node)
    (parent : node.parentTransition = some transition) :
    sourceOf tree reference = some transition.sourceZSES := by
  rw [sourceOf, found, Option.bind_some, parent]
  rfl

/-- A levelled tree is numbered breadth first. -/
theorem IsExecutionTree.numbering (isTree : IsExecutionTree tools tiosts root tree trace)
    {last : Nat} (levelled : Levelled tree last) :
    BreadthFirst.Numbering (· < ·) tree.next (fun reference => (sourceOf tree reference).getD 0)
      (fun reference => (trace reference).choices) where
  root := by
    simp only [isTree.rootTrace]
  child := by
    intro reference inside notRoot
    obtain ⟨node, found⟩ := SymbolicExecutionTree.exists_getNode inside
    obtain ⟨transition, source, parent, target, before, sourceFound, member⟩ :=
      isTree.parent reference node found notRoot
    obtain ⟨choice, _, _, choices, _⟩ := Traced.choices_child isTree sourceFound member
    simp only [sourceOf_eq found parent, Option.getD_some]
    exact ⟨before, choice, target ▸ choices⟩
  parents := by
    intro reference other notRoot before inside
    obtain ⟨node, found⟩ :=
      SymbolicExecutionTree.exists_getNode (Nat.lt_trans before inside)
    obtain ⟨otherNode, otherFound⟩ := SymbolicExecutionTree.exists_getNode inside
    obtain ⟨transition, _, parent, _⟩ := isTree.parent reference node found notRoot
    obtain ⟨otherTransition, _, otherParent, _⟩ :=
      isTree.parent other otherNode otherFound (Nat.ne_zero_of_lt before)
    simp only [sourceOf_eq found parent, sourceOf_eq otherFound otherParent, Option.getD_some]
    exact levelled.ascending reference other _ _ before (sourceOf_eq found parent)
      (sourceOf_eq otherFound otherParent)
  siblings := by
    intro reference other notRoot before inside same
    obtain ⟨node, found⟩ :=
      SymbolicExecutionTree.exists_getNode (Nat.lt_trans before inside)
    obtain ⟨otherNode, otherFound⟩ := SymbolicExecutionTree.exists_getNode inside
    obtain ⟨transition, source, parent, target, _, sourceFound, member⟩ :=
      isTree.parent reference node found notRoot
    obtain ⟨otherTransition, otherSource, otherParent, otherTarget, _, otherSourceFound,
      otherMember⟩ := isTree.parent other otherNode otherFound (Nat.ne_zero_of_lt before)
    simp only [sourceOf_eq found parent, sourceOf_eq otherFound otherParent,
      Option.getD_some] at same
    rw [← same] at otherSourceFound
    cases sourceFound.symm.trans otherSourceFound
    have targets : targetsOf tree transition.sourceZSES =
        source.childrenTransitions.map SymbolicTransition.targetZSES := by
      rw [targetsOf, sourceFound]
      rfl
    have ascending := levelled.siblings transition.sourceZSES
    rw [targets] at ascending
    -- siblings stand in the list of children in the order of their numbers
    have inOrder := List.Pairwise.forall_of_forall_of_flip
      (R := fun target other => target < other →
        List.Shortlex (· < ·) (trace target).choices (trace other).choices)
      (fun target _ smaller => absurd smaller (Nat.lt_irrefl target))
      ((isTree.children_increasing sourceFound).imp (by
        intro target other smaller _
        exact smaller))
      (ascending.imp (by
        intro target other smaller larger
        exact absurd larger (Nat.lt_asymm smaller)))
    have related := inOrder (List.mem_map_of_mem member) (List.mem_map_of_mem otherMember)
    rw [target, otherTarget] at related
    exact related before

end Numbering

open SynchronousProduct (initialLocationOf)

/-- The states of the tree are numbered in the shortlex order of their runs: shorter runs come
first, and runs of one length follow the order of the outgoing transitions. -/
theorem execute_numbersRuns {tools : SymbolicTools} {tiosts : TIOSTS}
    (wellFormed : tiosts.WellFormed) {rounds : Nat} {tree : SymbolicExecutionTree}
    (returned : execute tools tiosts rounds = .ok tree) :
    ∃ location trace, initialLocationOf tiosts = .ok location ∧
      UnfoldsRuns tools tiosts (initialState tools tiosts location) tree trace ∧
      ∀ reference < tree.next, ∀ other < tree.next, reference < other ↔
        List.Shortlex (· < ·) (trace reference).choices (trace other).choices := by
  obtain ⟨location, trace, isInitial, isTree⟩ := execute_returned returned
  obtain ⟨last, levelled⟩ := execute_levelled returned
  exact ⟨location, trace, isInitial, isTree.unfoldsRuns wellFormed
    (initialLocationOf_registers wellFormed isInitial), fun _ inside _ otherInside =>
      (isTree.numbering levelled).lt_iff inside otherInside⟩

open LoopInstance in
/-- The state behind the loop comes after the one before it. -/
theorem execute_numbersRuns_loop : ∃ tree location trace,
    execute tools (model "x := 5") 4 = .ok tree ∧ tree.next = 3 ∧
      initialLocationOf (model "x := 5") = .ok location ∧
      UnfoldsRuns tools (model "x := 5") (initialState tools (model "x := 5") location) tree
        trace ∧
      ∀ reference < 3, ∀ other < 3, reference < other ↔
        List.Shortlex (· < ·) (trace reference).choices (trace other).choices := by
  have ran : (execute tools (model "x := 5") 4).toOption.map
      (fun tree => decide (tree.next = 3)) = some true := by decide +kernel
  obtain ⟨tree, executed, size⟩ := exists_checked ran
  have count := of_decide_eq_true size
  obtain ⟨location, trace, isInitial, unfolds, inOrder⟩ :=
    execute_numbersRuns (wellFormed "x := 5") executed
  rw [count] at inOrder
  exact ⟨tree, location, trace, executed, count, isInitial, unfolds, inOrder⟩

end SymbolicExecution

end Symbolrt
