import Symbolrt.SymbolicExecution.Branches

/-!
# The tree that symbolic execution builds

While the worklist runs, the tree is described by a trace and by the number of
outgoing transitions dealt with at every state.  One visit of a transition keeps
the description, so the tree of a finished execution has exactly the branches of
every state below it.
-/

namespace Symbolrt

namespace SymbolicExecution

/-- The choices that lead to a state and the states on the path, the newest first. -/
structure Trace where
  choices : List Nat
  history : List SymbolicState

/-- The branch that a symbolic transition of the tree stands for. -/
def branchAt (tree : SymbolicExecutionTree) (transition : SymbolicTransition) :
    Option Branch :=
  (tree.getState transition.targetZSES).map (fun target =>
    ⟨transition.symbolicAction, transition.clockGuard, transition.clockAssignments,
      transition.deadline, target⟩)

/-- The tree has the branches of the first `progress` transitions below each state. -/
structure Traced (tools : SymbolicTools) (tiosts : TIOSTS) (root : SymbolicState)
    (tree : SymbolicExecutionTree) (trace : Nat → Trace) (progress : Nat → Nat) : Prop where
  initial : tree.initialZSES = some 0
  rootNode : ∃ node, tree.getNode 0 = some node ∧ node.state = root ∧
    node.parentTransition = none
  rootTrace : trace 0 = ⟨[], [root]⟩
  run : ∀ reference node, tree.getNode reference = some node →
    Unfolding.Run root (nextState tools tiosts) (trace reference).choices
      (trace reference).history
  head : ∀ reference node, tree.getNode reference = some node →
    ∃ above, (trace reference).history = node.state :: above
  parent : ∀ reference node, tree.getNode reference = some node → reference ≠ 0 →
    ∃ transition source, node.parentTransition = some transition ∧
      transition.targetZSES = reference ∧ transition.sourceZSES < reference ∧
      tree.getNode transition.sourceZSES = some source ∧
      transition ∈ source.childrenTransitions
  child : ∀ reference node, tree.getNode reference = some node →
    ∀ transition ∈ node.childrenTransitions, transition.sourceZSES = reference ∧
      ∃ target, tree.getNode transition.targetZSES = some target ∧
        target.parentTransition = some transition ∧
        (trace transition.targetZSES).history = target.state :: (trace reference).history
  children : ∀ reference node, tree.getNode reference = some node →
    node.childrenTransitions.map (fun transition =>
        ((trace transition.targetZSES).choices, branchAt tree transition)) =
      (branchesUpTo tools tiosts (trace reference).history (progress reference)).map
        (fun entry => ((trace reference).choices ++ [entry.1], some entry.2))

def Branch.transition (branch : Branch) (source target : Nat) : SymbolicTransition :=
  ⟨source, branch.symbolicAction, branch.clockGuard, branch.clockAssignments,
    branch.deadline, target⟩

def Branch.node (branch : Branch) (source target : Nat) : SymbolicNode :=
  ⟨branch.target, some (branch.transition source target), []⟩

/-- The tree with a branch added below a state. -/
def grow (tree : SymbolicExecutionTree) (current : Nat) (branch : Branch) :
    SymbolicExecutionTree :=
  (tree.addSymbolicState (branch.node current tree.next)).updateNode current
    (SymbolicNode.addChildTransition (branch.transition current tree.next))

/-- The traces once the tree has grown: the new state goes on from the one above it. -/
def growTrace (trace : Nat → Trace) (next current choice : Nat) (target : SymbolicState) :
    Nat → Trace :=
  Function.update trace next ⟨(trace current).choices ++ [choice],
    target :: (trace current).history⟩

section GrowTrace

variable {trace : Nat → Trace} {next current choice : Nat} {target : SymbolicState}

theorem growTrace_next : growTrace trace next current choice target next =
    ⟨(trace current).choices ++ [choice], target :: (trace current).history⟩ :=
  Function.update_self ..

theorem growTrace_of_ne {reference : Nat} (isOld : reference ≠ next) :
    growTrace trace next current choice target reference = trace reference :=
  Function.update_of_ne isOld ..

end GrowTrace

section Grow

variable (tree : SymbolicExecutionTree) (current : Nat) (branch : Branch)

@[simp] theorem next_grow : (grow tree current branch).next = tree.next + 1 := by
  simp [grow]

theorem getNode_grow_next (inside : current < tree.next) :
    (grow tree current branch).getNode tree.next = some (branch.node current tree.next) := by
  unfold grow
  rw [SymbolicExecutionTree.getNode_updateNode, if_neg (by omega),
    SymbolicExecutionTree.getNode_addSymbolicState, if_pos rfl]

theorem getNode_grow_current (inside : current < tree.next) :
    (grow tree current branch).getNode current = (tree.getNode current).map
      (SymbolicNode.addChildTransition (branch.transition current tree.next)) := by
  unfold grow
  rw [SymbolicExecutionTree.getNode_updateNode, if_pos rfl,
    SymbolicExecutionTree.getNode_addSymbolicState, if_neg (by omega)]

theorem getNode_grow_other {reference : Nat} (isOld : reference ≠ tree.next)
    (isOther : reference ≠ current) :
    (grow tree current branch).getNode reference = tree.getNode reference := by
  unfold grow
  rw [SymbolicExecutionTree.getNode_updateNode, if_neg isOther,
    SymbolicExecutionTree.getNode_addSymbolicState, if_neg isOld]

/-- Growing changes nothing of an old state but, at one of them, the children. -/
theorem getNode_grow_old {reference : Nat} {node : SymbolicNode}
    (found : (grow tree current branch).getNode reference = some node)
    (inside : current < tree.next) (isOld : reference ≠ tree.next) :
    ∃ before, tree.getNode reference = some before ∧ node.state = before.state ∧
      node.parentTransition = before.parentTransition ∧
      node.childrenTransitions = before.childrenTransitions ++
        (if reference = current then [branch.transition current tree.next] else []) := by
  by_cases isCurrent : reference = current
  · subst isCurrent
    rw [getNode_grow_current tree reference branch inside] at found
    obtain ⟨before, beforeFound, rfl⟩ := Option.map_eq_some_iff.mp found
    refine ⟨before, beforeFound, rfl, rfl, ?_⟩
    rw [if_pos rfl]
    rfl
  · rw [getNode_grow_other tree current branch isOld isCurrent] at found
    exact ⟨node, found, rfl, rfl, by simp [isCurrent]⟩

theorem exists_getNode_grow {reference : Nat} {node : SymbolicNode}
    (found : tree.getNode reference = some node) (inside : current < tree.next) :
    ∃ after, (grow tree current branch).getNode reference = some after ∧
      after.state = node.state ∧ after.parentTransition = node.parentTransition ∧
      ∀ transition ∈ node.childrenTransitions, transition ∈ after.childrenTransitions := by
  have isOld : reference ≠ tree.next := by
    have older := SymbolicExecutionTree.lt_next_of_getNode found
    omega
  by_cases isCurrent : reference = current
  · subst isCurrent
    refine ⟨node.addChildTransition (branch.transition reference tree.next), ?_, rfl, rfl, ?_⟩
    · rw [getNode_grow_current tree reference branch inside, found]
      rfl
    · exact fun transition member => List.mem_append_left _ member
  · refine ⟨node, ?_, rfl, rfl, fun _ member => member⟩
    rw [getNode_grow_other tree current branch isOld isCurrent]
    exact found

theorem getState_grow {reference : Nat} (inside : current < tree.next)
    (older : reference < tree.next) :
    (grow tree current branch).getState reference = tree.getState reference := by
  obtain ⟨node, found⟩ := SymbolicExecutionTree.exists_getNode older
  obtain ⟨after, afterFound, state, _⟩ := exists_getNode_grow tree current branch found inside
  simp [SymbolicExecutionTree.getState, found, afterFound, state]

end Grow

section Visits

variable {tools : SymbolicTools} {tiosts : TIOSTS} {root : SymbolicState}
  {tree : SymbolicExecutionTree} {trace : Nat → Trace} {progress : Nat → Nat}

theorem traced_initial (tools : SymbolicTools) (tiosts : TIOSTS) (root : SymbolicState)
    (name : String) :
    Traced tools tiosts root (SymbolicExecutionTree.ofInitial name root)
      (fun _ => ⟨[], [root]⟩) (fun _ => 0) := by
  have only : ∀ reference node,
      (SymbolicExecutionTree.ofInitial name root).getNode reference = some node →
        reference = 0 ∧ node = SymbolicNode.new root := by
    intro reference node found
    cases reference with
    | zero => exact ⟨rfl, (Option.some.inj found).symm⟩
    | succ reference =>
        simp [SymbolicExecutionTree.ofInitial, SymbolicExecutionTree.getNode] at found
  constructor
  · rfl
  · exact ⟨_, rfl, rfl, rfl⟩
  · rfl
  · exact fun _ _ _ => Unfolding.Run.start
  · intro reference node found
    rw [(only reference node found).2]
    exact ⟨[], rfl⟩
  · intro reference node found notRoot
    exact absurd (only reference node found).1 notRoot
  · intro reference node found transition member
    rw [(only reference node found).2] at member
    cases member
  · intro reference node found
    rw [(only reference node found).2]
    rfl

/-- The states above a state are the ones its trace lists. -/
theorem Traced.statesAbove_eq (traced : Traced tools tiosts root tree trace progress)
    {fuel reference : Nat} {node : SymbolicNode} (found : tree.getNode reference = some node)
    (enough : reference < fuel) :
    statesAbove tree fuel reference = .ok (trace reference).history := by
  induction fuel generalizing reference node with
  | zero => omega
  | succ fuel induction =>
      rw [statesAbove, found, deref_some, ok_bind]
      by_cases isRoot : reference = 0
      · subst isRoot
        obtain ⟨rootNode, rootFound, state, noParent⟩ := traced.rootNode
        rw [found] at rootFound
        obtain rfl := Option.some.inj rootFound
        rw [noParent, traced.rootTrace, state]
        rfl
      · obtain ⟨transition, source, parent, target, before, sourceFound, member⟩ :=
          traced.parent reference node found isRoot
        obtain ⟨_, same, sameFound, _, history⟩ :=
          traced.child _ source sourceFound transition member
        rw [target, found] at sameFound
        obtain rfl := Option.some.inj sameFound
        rw [target] at history
        rw [parent]
        simp only
        rw [induction sourceFound (by omega), ok_bind, history]
        rfl

/-- One visit adds the branch of the transition, if it has one. -/
theorem Traced.visitTransition_eq (traced : Traced tools tiosts root tree trace progress)
    {current : Nat} {node : SymbolicNode} (found : tree.getNode current = some node)
    (unvisited : List Nat) (transition : Transition) :
    visitTransition tools tiosts current (unvisited, tree) transition = do
      let branch ← branchOf tools tiosts (trace current).history transition
      match branch with
      | none => return (unvisited, tree)
      | some branch => return (unvisited ++ [tree.next], grow tree current branch) := by
  obtain ⟨above, history⟩ := traced.head current node found
  have inside := SymbolicExecutionTree.lt_next_of_getNode found
  have state : tree.getState current = some node.state := by
    simp [SymbolicExecutionTree.getState, found]
  simp only [visitTransition, state, deref_some, ok_bind]
  rw [history, branchOf, ← history]
  cases stepped : nextZSES tools tiosts node.state transition with
  | error failure => rfl
  | ok next =>
      obtain ⟨symbolicAction, target⟩ := next
      simp only [ok_bind]
      cases answered : isReachable tools (varParamMapping tiosts) target with
      | error failure => rfl
      | ok reachable =>
          have bound : upperBoundReached tree target.location current =
              .ok (occursTwice target.location (trace current).history) := by
            rw [upperBoundReached, traced.statesAbove_eq found (by omega)]
            rfl
          simp only [ok_bind, bound]
          by_cases both : (reachable && !occursTwice target.location (trace current).history) = true
          · simp only [if_pos both]
            rfl
          · simp only [if_neg both]
            rfl

theorem Traced.branchOf_of_visited (traced : Traced tools tiosts root tree trace progress)
    {current : Nat} {node : SymbolicNode} (found : tree.getNode current = some node)
    {unvisited : List Nat} {transition : Transition} {next : List Nat × SymbolicExecutionTree}
    (visited : visitTransition tools tiosts current (unvisited, tree) transition = .ok next) :
    ∃ result, branchOf tools tiosts (trace current).history transition = .ok result := by
  rw [traced.visitTransition_eq found] at visited
  obtain ⟨result, outcome, _⟩ := bind_eq_ok.mp visited
  exact ⟨result, outcome⟩

theorem Traced.branchOf_of_failed (traced : Traced tools tiosts root tree trace progress)
    {current : Nat} {node : SymbolicNode} (found : tree.getNode current = some node)
    {unvisited : List Nat} {transition : Transition} {failure : Failure}
    (failed : visitTransition tools tiosts current (unvisited, tree) transition = .error failure) :
    branchOf tools tiosts (trace current).history transition = .error failure := by
  rw [traced.visitTransition_eq found] at failed
  rcases bind_eq_error failed with branchFailed | ⟨result, _, returned⟩
  · exact branchFailed
  · cases result with
    | none => cases returned
    | some branch => cases returned

theorem choose_of_branchOf {history : List SymbolicState} {choice : Nat}
    {transition : Transition} (listed : (outgoing history)[choice]? = some transition)
    {result : Option Branch} (outcome : branchOf tools tiosts history transition = .ok result) :
    choose tools tiosts history choice = result := by
  rw [choose, listed, Option.bind_some, outcome]
  rfl

/-- A transition without branch only counts as dealt with. -/
theorem Traced.skip (traced : Traced tools tiosts root tree trace progress) {current : Nat}
    (none' : choose tools tiosts (trace current).history (progress current) = none) :
    Traced tools tiosts root tree trace
      (Function.update progress current (progress current + 1)) where
  initial := traced.initial
  rootNode := traced.rootNode
  rootTrace := traced.rootTrace
  run := traced.run
  head := traced.head
  parent := traced.parent
  child := traced.child
  children := by
    intro reference node found
    by_cases same : reference = current
    · subst same
      rw [Function.update_self, branchesUpTo_succ, none', traced.children reference node found]
      simp
    · rw [Function.update_of_ne same]
      exact traced.children reference node found

section Growing

variable {current : Nat} {branch : Branch}

theorem ne_next_of_getNode {reference : Nat} {node : SymbolicNode}
    (found : tree.getNode reference = some node) : reference ≠ tree.next :=
  (SymbolicExecutionTree.lt_next_of_getNode found).ne

theorem Traced.grow_rootNode (traced : Traced tools tiosts root tree trace progress)
    (inside : current < tree.next) (branch : Branch) :
    ∃ node, (SymbolicExecution.grow tree current branch).getNode 0 = some node ∧
      node.state = root ∧ node.parentTransition = none := by
  obtain ⟨rootNode, rootFound, rootState, rootParent⟩ := traced.rootNode
  obtain ⟨after, found, state, parent, _⟩ :=
    exists_getNode_grow tree current branch rootFound inside
  exact ⟨after, found, state.trans rootState, parent.trans rootParent⟩

theorem Traced.grow_run (traced : Traced tools tiosts root tree trace progress)
    (inside : current < tree.next)
    (chosen : choose tools tiosts (trace current).history (progress current) = some branch)
    {reference : Nat} {node : SymbolicNode}
    (found : (SymbolicExecution.grow tree current branch).getNode reference = some node) :
    Unfolding.Run root (nextState tools tiosts)
      (growTrace trace tree.next current (progress current) branch.target reference).choices
      (growTrace trace tree.next current (progress current) branch.target reference).history := by
  obtain ⟨currentNode, currentFound⟩ := SymbolicExecutionTree.exists_getNode inside
  by_cases isNext : reference = tree.next
  · subst isNext
    rw [growTrace_next]
    apply Unfolding.Run.extend (traced.run current currentNode currentFound)
    rw [nextState, chosen]
    rfl
  · rw [growTrace_of_ne isNext]
    obtain ⟨before, beforeFound, _⟩ :=
      getNode_grow_old tree current branch found inside isNext
    exact traced.run reference before beforeFound

theorem Traced.grow_head (traced : Traced tools tiosts root tree trace progress)
    (inside : current < tree.next) (choice : Nat) {reference : Nat} {node : SymbolicNode}
    (found : (SymbolicExecution.grow tree current branch).getNode reference = some node) :
    ∃ above, (growTrace trace tree.next current choice branch.target reference).history =
      node.state :: above := by
  by_cases isNext : reference = tree.next
  · subst isNext
    rw [getNode_grow_next tree current branch inside] at found
    rw [growTrace_next, ← Option.some.inj found]
    exact ⟨_, rfl⟩
  · rw [growTrace_of_ne isNext]
    obtain ⟨before, beforeFound, state, _⟩ :=
      getNode_grow_old tree current branch found inside isNext
    rw [state]
    exact traced.head reference before beforeFound

theorem Traced.grow_parent (traced : Traced tools tiosts root tree trace progress)
    (inside : current < tree.next) {reference : Nat} {node : SymbolicNode}
    (found : (SymbolicExecution.grow tree current branch).getNode reference = some node)
    (notRoot : reference ≠ 0) :
    ∃ transition source, node.parentTransition = some transition ∧
      transition.targetZSES = reference ∧ transition.sourceZSES < reference ∧
      (SymbolicExecution.grow tree current branch).getNode transition.sourceZSES =
        some source ∧
      transition ∈ source.childrenTransitions := by
  by_cases isNext : reference = tree.next
  · subst isNext
    obtain ⟨currentNode, currentFound⟩ := SymbolicExecutionTree.exists_getNode inside
    rw [getNode_grow_next tree current branch inside] at found
    rw [← Option.some.inj found]
    refine ⟨branch.transition current tree.next,
      currentNode.addChildTransition (branch.transition current tree.next), rfl, rfl,
      inside, ?_, ?_⟩
    · rw [Branch.transition, getNode_grow_current tree current branch inside, currentFound]
      rfl
    · simp [SymbolicNode.addChildTransition]
  · obtain ⟨before, beforeFound, _, parentEq, _⟩ :=
      getNode_grow_old tree current branch found inside isNext
    obtain ⟨transition, source, parent, target, earlier, sourceFound, member⟩ :=
      traced.parent reference before beforeFound notRoot
    obtain ⟨after, afterFound, _, _, kept⟩ :=
      exists_getNode_grow tree current branch sourceFound inside
    exact ⟨transition, after, parentEq.trans parent, target, earlier, afterFound,
      kept transition member⟩

theorem Traced.grow_child (traced : Traced tools tiosts root tree trace progress)
    (inside : current < tree.next) (choice : Nat) {reference : Nat} {node : SymbolicNode}
    (found : (SymbolicExecution.grow tree current branch).getNode reference = some node)
    {transition : SymbolicTransition} (member : transition ∈ node.childrenTransitions) :
    transition.sourceZSES = reference ∧
      ∃ target, (SymbolicExecution.grow tree current branch).getNode transition.targetZSES =
          some target ∧
        target.parentTransition = some transition ∧
        (growTrace trace tree.next current choice branch.target
            transition.targetZSES).history =
          target.state ::
            (growTrace trace tree.next current choice branch.target reference).history := by
  by_cases isNext : reference = tree.next
  · subst isNext
    rw [getNode_grow_next tree current branch inside] at found
    rw [← Option.some.inj found] at member
    cases member
  · obtain ⟨before, beforeFound, _, _, childrenEq⟩ :=
      getNode_grow_old tree current branch found inside isNext
    rw [childrenEq] at member
    rw [growTrace_of_ne isNext]
    rcases List.mem_append.mp member with earlier | added
    · obtain ⟨source, target, targetFound, parent, history⟩ :=
        traced.child reference before beforeFound transition earlier
      obtain ⟨after, afterFound, state, parentEq, _⟩ :=
        exists_getNode_grow tree current branch targetFound inside
      refine ⟨source, after, afterFound, parentEq.trans parent, ?_⟩
      rw [growTrace_of_ne (ne_next_of_getNode targetFound), state]
      exact history
    · split at added
      · rename_i isCurrent
        subst isCurrent
        rw [List.mem_singleton.mp added]
        refine ⟨rfl, branch.node reference tree.next, ?_, rfl, ?_⟩
        · exact getNode_grow_next tree reference branch inside
        · rw [Branch.transition, growTrace_next]
          rfl
      · cases added

/-- What an old state says about its children stays as it is. -/
theorem Traced.grow_children_old (traced : Traced tools tiosts root tree trace progress)
    (inside : current < tree.next) (choice : Nat) {reference : Nat} {before : SymbolicNode}
    (found : tree.getNode reference = some before) :
    before.childrenTransitions.map (fun transition =>
        ((growTrace trace tree.next current choice branch.target
            transition.targetZSES).choices,
          branchAt (SymbolicExecution.grow tree current branch) transition)) =
      before.childrenTransitions.map (fun transition =>
        ((trace transition.targetZSES).choices, branchAt tree transition)) := by
  apply List.map_congr_left
  intro transition member
  obtain ⟨_, target, targetFound, _⟩ := traced.child reference before found transition member
  have older := SymbolicExecutionTree.lt_next_of_getNode targetFound
  rw [growTrace_of_ne older.ne, branchAt, getState_grow tree current branch inside older]
  rfl

theorem Traced.grow_children (traced : Traced tools tiosts root tree trace progress)
    (inside : current < tree.next)
    (chosen : choose tools tiosts (trace current).history (progress current) = some branch)
    (fresh : progress tree.next = 0) {reference : Nat} {node : SymbolicNode}
    (found : (SymbolicExecution.grow tree current branch).getNode reference = some node) :
    node.childrenTransitions.map (fun transition =>
        ((growTrace trace tree.next current (progress current) branch.target
            transition.targetZSES).choices,
          branchAt (SymbolicExecution.grow tree current branch) transition)) =
      (branchesUpTo tools tiosts
          (growTrace trace tree.next current (progress current) branch.target
            reference).history
          (Function.update progress current (progress current + 1) reference)).map
        (fun entry =>
          ((growTrace trace tree.next current (progress current) branch.target
            reference).choices ++ [entry.1], some entry.2)) := by
  by_cases isNext : reference = tree.next
  · subst isNext
    rw [getNode_grow_next tree current branch inside] at found
    rw [← Option.some.inj found, Function.update_of_ne inside.ne', fresh]
    rfl
  · obtain ⟨before, beforeFound, _, _, childrenEq⟩ :=
      getNode_grow_old tree current branch found inside isNext
    rw [childrenEq, List.map_append, traced.grow_children_old inside _ beforeFound,
      traced.children reference before beforeFound, growTrace_of_ne isNext]
    by_cases isCurrent : reference = current
    · subst isCurrent
      have newState : (SymbolicExecution.grow tree reference branch).getState tree.next =
          some branch.target := by
        rw [SymbolicExecutionTree.getState, getNode_grow_next tree reference branch inside]
        rfl
      rw [Function.update_self, branchesUpTo_succ, chosen, if_pos rfl]
      simp only [Option.map_some, Option.toList_some, List.map_append, List.map_cons,
        List.map_nil]
      congr 2
      rw [Branch.transition, growTrace_next, branchAt, newState]
      rfl
    · rw [Function.update_of_ne isCurrent, if_neg isCurrent]
      simp

/-- A branch is added with the choices and the history that lead to it. -/
theorem Traced.grow (traced : Traced tools tiosts root tree trace progress)
    (inside : current < tree.next)
    (chosen : choose tools tiosts (trace current).history (progress current) = some branch)
    (fresh : progress tree.next = 0) :
    Traced tools tiosts root (SymbolicExecution.grow tree current branch)
      (growTrace trace tree.next current (progress current) branch.target)
      (Function.update progress current (progress current + 1)) where
  initial := traced.initial
  rootNode := traced.grow_rootNode inside branch
  rootTrace := (growTrace_of_ne (by omega)).trans traced.rootTrace
  run := fun _ _ found => traced.grow_run inside chosen found
  head := fun _ _ found => traced.grow_head inside _ found
  parent := fun _ _ found notRoot => traced.grow_parent inside found notRoot
  child := fun _ _ found _ member => traced.grow_child inside _ found member
  children := fun _ _ found => traced.grow_children inside chosen fresh found

end Growing

end Visits

end SymbolicExecution

end Symbolrt
