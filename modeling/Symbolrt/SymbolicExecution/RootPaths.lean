import Symbolrt.SymbolicExecution.Executability

/-!
# The root paths of an execution tree

The execution of an executable model returns, and the root paths of its tree are the
runs within the upper bound.
-/

namespace Symbolrt

namespace SymbolicExecution

open SynchronousProduct (initialLocationOf)

/-- The states of a tree correspond one-to-one with the reachable runs within the upper
bound: the trace gives for every state the positions of the transitions taken and the
states passed, the newest first. -/
structure UnfoldsRuns (tools : SymbolicTools) (tiosts : TIOSTS) (root : SymbolicState)
    (tree : SymbolicExecutionTree) (trace : Nat → Trace) : Prop where
  rootNode : ∃ node, tree.getNode 0 = some node ∧ node.state = root ∧
    node.parentTransition = none ∧ trace 0 = ⟨[], [root]⟩
  /-- The child transition to a state is made by the last transition of its run. -/
  step : ∀ reference node, tree.getNode reference = some node → reference ≠ 0 →
    ∃ symbolicTransition source choice transition,
      node.parentTransition = some symbolicTransition ∧
      symbolicTransition.targetZSES = reference ∧
      symbolicTransition.sourceZSES < reference ∧
      tree.getNode symbolicTransition.sourceZSES = some source ∧
      source.state.location.outTransitions[choice]? = some transition ∧
      nextZSES tools tiosts source.state transition =
        .ok (symbolicTransition.symbolicAction, node.state) ∧
      symbolicTransition.clockGuard = transition.clockGuard ∧
      symbolicTransition.clockAssignments = transition.clockAssignments ∧
      symbolicTransition.deadline = transition.deadline ∧
      trace reference = ⟨(trace symbolicTransition.sourceZSES).choices ++ [choice],
        node.state :: (trace symbolicTransition.sourceZSES).history⟩
  /-- Only the parent has a child transition to a state, and it has one. -/
  once : ∀ reference node, tree.getNode reference = some node →
    ∀ source sourceNode, tree.getNode source = some sourceNode →
      sourceNode.childrenTransitions.filter
        (fun transition => transition.targetZSES = reference) =
          node.parentTransition.toList.filter (fun transition => transition.sourceZSES = source)
  injective : ∀ reference < tree.next, ∀ other < tree.next,
    (trace reference).choices = (trace other).choices → reference = other
  complete : ∀ choices history,
    (∃ reference < tree.next, trace reference = ⟨choices, history⟩) ↔
      ReachableRun tools tiosts root choices history ∧ AtMostTwice history

section Trees

variable {tools : SymbolicTools} {tiosts : TIOSTS} {root : SymbolicState}
  {tree : SymbolicExecutionTree} {trace : Nat → Trace}

theorem IsExecutionTree.head (isTree : IsExecutionTree tools tiosts root tree trace)
    {reference : Nat} {node : SymbolicNode} (found : tree.getNode reference = some node) :
    ∃ above, (trace reference).history = node.state :: above :=
  Traced.head isTree reference node found

/-- A child transition leads to a state whose parent transition it is. -/
theorem IsExecutionTree.once (isTree : IsExecutionTree tools tiosts root tree trace)
    {reference source : Nat} {node sourceNode : SymbolicNode}
    (found : tree.getNode reference = some node)
    (sourceFound : tree.getNode source = some sourceNode) :
    sourceNode.childrenTransitions.filter
        (fun transition => transition.targetZSES = reference) =
      node.parentTransition.toList.filter (fun transition => transition.sourceZSES = source) := by
  have only : ∀ transition ∈ sourceNode.childrenTransitions,
      transition.targetZSES = reference →
        node.parentTransition = some transition ∧ transition.sourceZSES = source := by
    intro transition member target
    obtain ⟨sourceEq, same, sameFound, parent, _⟩ :=
      isTree.child source sourceNode sourceFound transition member
    rw [target, found] at sameFound
    rw [Option.some.inj sameFound]
    exact ⟨parent, sourceEq⟩
  have distinct : sourceNode.childrenTransitions.Nodup :=
    (isTree.childChoices_nodup sourceFound).of_map
  cases parent : node.parentTransition with
  | none =>
      rw [List.filter_eq_nil_iff.mpr]
      · rfl
      · intro transition member target
        have isParent := (only transition member (of_decide_eq_true target)).1
        rw [parent] at isParent
        cases isParent
  | some transition =>
      have notRoot : reference ≠ 0 := by
        rintro rfl
        obtain ⟨rootNode, rootFound, _, noParent⟩ := isTree.rootNode
        rw [found] at rootFound
        rw [Option.some.inj rootFound, noParent] at parent
        cases parent
      obtain ⟨same, actual, sameParent, target, _, actualFound, inActual⟩ :=
        isTree.parent reference node found notRoot
      rw [parent] at sameParent
      obtain rfl := Option.some.inj sameParent
      by_cases isSource : transition.sourceZSES = source
      · subst isSource
        rw [sourceFound] at actualFound
        obtain rfl := Option.some.inj actualFound
        have one : (sourceNode.childrenTransitions.filter
            (fun transition => transition.targetZSES = reference)).Perm [transition] := by
          rw [List.perm_ext_iff_of_nodup (distinct.filter _) (List.nodup_singleton _)]
          intro other
          rw [List.mem_filter, List.mem_singleton, decide_eq_true_eq]
          constructor
          · rintro ⟨member, otherTarget⟩
            have isParent := (only other member otherTarget).1
            rw [parent] at isParent
            exact (Option.some.inj isParent).symm
          · rintro rfl
            exact ⟨inActual, target⟩
        rw [List.perm_singleton.mp one]
        simp
      · rw [List.filter_eq_nil_iff.mpr]
        · simp [isSource]
        · intro other member otherTarget
          obtain ⟨isParent, otherSource⟩ := only other member (of_decide_eq_true otherTarget)
          rw [parent] at isParent
          rw [← Option.some.inj isParent] at otherSource
          exact isSource otherSource

theorem IsExecutionTree.step (isTree : IsExecutionTree tools tiosts root tree trace)
    {reference : Nat} {node : SymbolicNode} (found : tree.getNode reference = some node)
    (notRoot : reference ≠ 0) :
    ∃ symbolicTransition source choice transition,
      node.parentTransition = some symbolicTransition ∧
      symbolicTransition.targetZSES = reference ∧
      symbolicTransition.sourceZSES < reference ∧
      tree.getNode symbolicTransition.sourceZSES = some source ∧
      source.state.location.outTransitions[choice]? = some transition ∧
      nextZSES tools tiosts source.state transition =
        .ok (symbolicTransition.symbolicAction, node.state) ∧
      symbolicTransition.clockGuard = transition.clockGuard ∧
      symbolicTransition.clockAssignments = transition.clockAssignments ∧
      symbolicTransition.deadline = transition.deadline ∧
      trace reference = ⟨(trace symbolicTransition.sourceZSES).choices ++ [choice],
        node.state :: (trace symbolicTransition.sourceZSES).history⟩ := by
  obtain ⟨symbolicTransition, source, parent, target, before, sourceFound, member⟩ :=
    isTree.parent reference node found notRoot
  obtain ⟨choice, branch, chosen, choices, stands⟩ := isTree.choices_child sourceFound member
  obtain ⟨_, same, sameFound, _, history⟩ :=
    isTree.child _ source sourceFound symbolicTransition member
  rw [target, found] at sameFound
  obtain rfl := Option.some.inj sameFound
  obtain ⟨above, sourceHistory⟩ := isTree.head sourceFound
  rw [sourceHistory] at chosen
  obtain ⟨transition, listed, stepped, _, _, guard, resets, deadline⟩ := choose_eq_some chosen
  simp only [branchAt, target, SymbolicExecutionTree.getState, found, Option.map_some,
    Option.some.injEq] at stands
  rw [← stands] at stepped guard resets deadline
  rw [target] at history choices
  refine ⟨symbolicTransition, source, choice, transition, parent, target, before, sourceFound,
    listed, stepped, guard, resets, deadline, ?_⟩
  rw [← history, ← choices]

theorem IsExecutionTree.unfoldsRuns (isTree : IsExecutionTree tools tiosts root tree trace)
    (wellFormed : tiosts.WellFormed) (registers : tiosts.Registers root.location) :
    UnfoldsRuns tools tiosts root tree trace where
  rootNode := by
    obtain ⟨node, found, state, noParent⟩ := isTree.rootNode
    exact ⟨node, found, state, noParent, isTree.rootTrace⟩
  step := fun reference node found notRoot => isTree.step found notRoot
  once := fun reference node found source sourceNode sourceFound =>
    isTree.once found sourceFound
  injective := by
    intro reference inside other otherInside same
    obtain ⟨node, found⟩ := SymbolicExecutionTree.exists_getNode inside
    obtain ⟨otherNode, otherFound⟩ := SymbolicExecutionTree.exists_getNode otherInside
    exact isTree.choices_inj found otherFound same
  complete := by
    intro choices history
    rw [← isTree.choices_iff, run_iff wellFormed registers]

/-- No root path has more than twice as many states as the model has locations. -/
theorem UnfoldsRuns.length_le (unfolds : UnfoldsRuns tools tiosts root tree trace)
    (wellFormed : tiosts.WellFormed) (registers : tiosts.Registers root.location)
    {reference : Nat} (inside : reference < tree.next) :
    (trace reference).history.length ≤ 2 * tiosts.locations.keys.length := by
  have run := (run_iff wellFormed registers).mpr
    ((unfolds.complete _ _).mp ⟨reference, inside, rfl⟩)
  have bound := run.length_le (isBounded wellFormed registers)
  rwa [List.toFinset_card_of_nodup tiosts.locations.keys_nodup] at bound

end Trees

section Reached

variable {tiosts : TIOSTS} {isParameter : String → Prop} {label : String}

/-- Symbolic execution returns, and the root paths of the tree are the reachable runs on
which no location occurs more than twice. -/
theorem execute_unfoldsRuns (tools : SymbolicTools) (wellFormed : tiosts.WellFormed)
    (hasInitial : tiosts.initialLocation = some label)
    (executable : tiosts.IsExecutable isParameter) :
    (∃ rounds tree, execute tools tiosts rounds = .ok tree) ∧
      ∀ rounds tree, execute tools tiosts rounds = .ok tree →
        ∃ location trace, tiosts.getLocation label = some location ∧
          UnfoldsRuns tools tiosts (initialState tools tiosts location) tree trace ∧
          ∀ reference < tree.next,
            (trace reference).history.length ≤ 2 * tiosts.locations.keys.length := by
  obtain ⟨location, found, _⟩ := wellFormed.initial_registered hasInitial
  have labelEq := wellFormed.label_eq found
  have isInitial : initialLocationOf tiosts = .ok location := by
    rw [initialLocationOf_eq_ok wellFormed, labelEq]
    exact ⟨hasInitial, found⟩
  have registers := initialLocationOf_registers wellFormed isInitial
  constructor
  · exact execute_returns isInitial (computable_of_executable wellFormed executable registers)
      (finite_runs wellFormed registers)
  · intro rounds tree returned
    obtain ⟨other, trace, otherInitial, isTree⟩ := execute_returned returned
    obtain rfl := Except.ok.inj (isInitial.symm.trans otherInitial)
    have unfolds := isTree.unfoldsRuns wellFormed registers
    exact ⟨location, trace, found, unfolds, fun reference inside =>
      unfolds.length_le wellFormed registers inside⟩

end Reached

section Failures

variable {tools : SymbolicTools} {tiosts : TIOSTS} {failure : Failure}

/-- An exception of the loop does not disappear when the loop is given more rounds. -/
theorem visitAll_error {rounds : Nat} {unvisited : List Nat} {zset : SymbolicExecutionTree}
    (failed : visitAll tools tiosts rounds unvisited zset = .error failure)
    (notCut : failure ≠ .depthExceeded) (more : Nat) (tree : SymbolicExecutionTree) :
    visitAll tools tiosts more unvisited zset ≠ .ok tree := by
  induction rounds generalizing unvisited zset more with
  | zero =>
      cases unvisited with
      | nil => cases failed
      | cons currentZSES unvisited => exact absurd (Except.error.inj failed).symm notCut
  | succ rounds induction =>
      cases unvisited with
      | nil => cases failed
      | cons currentZSES unvisited =>
          cases more with
          | zero =>
              intro returned
              cases returned
          | succ more =>
              intro returned
              rw [visitAll] at failed returned
              obtain ⟨current, found, returned⟩ := bind_eq_ok.mp returned
              obtain ⟨progress, visited, returned⟩ := bind_eq_ok.mp returned
              rw [found, ok_bind, visited, ok_bind] at failed
              exact induction failed more returned

theorem execute_error {rounds : Nat} (failed : execute tools tiosts rounds = .error failure)
    (notCut : failure ≠ .depthExceeded) (more : Nat) (tree : SymbolicExecutionTree) :
    execute tools tiosts more ≠ .ok tree := by
  intro returned
  rw [execute] at failed returned
  obtain ⟨location, isInitial, returned⟩ := bind_eq_ok.mp returned
  rw [isInitial, ok_bind] at failed
  exact visitAll_error failed notCut more tree returned

end Failures

namespace LoopInstance

/-- Every path condition is satisfiable and no zone is empty. -/
def tools : SymbolicTools where
  executeCVC3 := fun _ => Constants.cvc3ResponseSatisfiable
  createInitialDBM := fun _ => ""
  nextZone := fun zone _ _ => zone
  isDBMEmpty := fun _ => "0"

def enter : Action := ⟨"i", .internal, []⟩

def receive : Action := ⟨"a", .input, ["p"]⟩

def declared : TIOSTS :=
  .declare "L" [enter, receive] [⟨"x", .integer⟩] [⟨"p", .integer⟩] []

def transitions (assignment : String) : List Transition :=
  [{ Transition.bare "r" enter "n" with dataAssignments := some assignment },
    { Transition.bare "n" receive "n" with dataGuard := .written "p > x" }]

def model (assignment : String) : TIOSTS :=
  .assemble declared ["r", "n"] "r" (transitions assignment)

theorem uses (assignment : String) :
    declared.Uses ["r", "n"] "r" (transitions assignment) := by
  constructor
  · decide
  · intro transition member
    rcases List.mem_pair.mp member with rfl | rfl
    · exact ⟨by simp [Transition.bare], by simp [Transition.bare], rfl⟩
    · exact ⟨by simp [Transition.bare], by simp [Transition.bare], rfl⟩

theorem wellFormed (assignment : String) : (model assignment).WellFormed :=
  TIOSTS.assemble_wellFormed (TIOSTS.declare_isBlank _ _ _ _ _) (uses assignment)

end LoopInstance

open LoopInstance in
/-- The loop at `n` is unfolded within the bound. -/
theorem execute_unfoldsRuns_loop :
    (∃ rounds tree, execute tools (model "x := 5") rounds = .ok tree) ∧
      ∀ rounds tree, execute tools (model "x := 5") rounds = .ok tree →
        ∃ location trace, (model "x := 5").getLocation "r" = some location ∧
          UnfoldsRuns tools (model "x := 5") (initialState tools (model "x := 5") location) tree
            trace ∧
          ∀ reference < tree.next, (trace reference).history.length ≤
            2 * (model "x := 5").locations.keys.length := by
  have executable : (model "x := 5").IsExecutable (fun name => name ∈ ["p"]) := by
    apply TIOSTS.assemble_isExecutable (TIOSTS.declare_isBlank _ _ _ _ _) (uses "x := 5")
    · decide
    · decide
    · decide
    · decide
    · decide
  exact execute_unfoldsRuns tools (wellFormed "x := 5") TIOSTS.assemble_initialLocation
    executable

open LoopInstance in
/-- When the initial transition assigns 5 to the parameter of `a`, the execution throws as
soon as `a` is reached. -/
theorem execute_assigned_parameter :
    (model "p := 5").WellFormed ∧
      (∀ name ∈ (model "p := 5").dataNames, IsWord name ∧ '_' ∉ name.toList) ∧
      ∀ rounds tree, execute tools (model "p := 5") rounds ≠ .ok tree := by
  refine ⟨wellFormed "p := 5", ?_, ?_⟩
  · rw [model, TIOSTS.assemble_dataNames]
    decide
  · have outcome : (match execute tools (model "p := 5") 2 with
        | .ok _ => none
        | .error failure => some failure) =
          some (.symbolicValueName symbolicValueMessage) := by decide
    cases run : execute tools (model "p := 5") 2 with
    | ok tree =>
        rw [run] at outcome
        cases outcome
    | error failure =>
        rw [run] at outcome
        intro rounds tree
        apply execute_error run
        rw [Option.some.inj outcome]
        exact Failure.noConfusion

end SymbolicExecution

end Symbolrt
