import Mathlib.Order.Lattice.Nat
import Symbolrt.SymbolicExecution.ExecutionRuns

/-!
# Runs within the upper bound

The runs that a tree unfolds are the sequences of outgoing transitions all of whose
states are reachable and on which no location occurs more than twice.  Since a model
has finitely many locations, there are finitely many of them.
-/

namespace Symbolrt

theorem Location.equalLists_self {α : Type} {equal : α → α → Bool}
    (reflexive : ∀ item, equal item item = true) (items : List α) :
    Location.equalLists equal items items = true := by
  induction items with
  | nil => rfl
  | cons item items induction => simp [Location.equalLists, reflexive, induction]

theorem Location.equals_self (location : Location) : location.equals location = true := by
  simp [Location.equals, Location.equalLists_self Transition.equals_self]

/-- The location is the one that the model registers under its label. -/
def TIOSTS.Registers (tiosts : TIOSTS) (location : Location) : Prop :=
  tiosts.getLocation location.label = some location

theorem TIOSTS.Registers.equals_iff {tiosts : TIOSTS} {location other : Location}
    (registers : tiosts.Registers location) (otherRegisters : tiosts.Registers other) :
    location.equals other = true ↔ location.label = other.label := by
  constructor
  · intro equal
    simp only [Location.equals, Bool.and_eq_true, beq_iff_eq] at equal
    exact equal.1.1.2
  · intro same
    unfold TIOSTS.Registers at registers otherRegisters
    rw [same, otherRegisters] at registers
    rw [Option.some.inj registers]
    exact Location.equals_self location

namespace SymbolicExecution

open SynchronousProduct (initialLocationOf)

/-- The sequences of outgoing transitions, given by their positions, all of whose states
behind the root are reachable; with the states, the newest first. -/
inductive ReachableRun (tools : SymbolicTools) (tiosts : TIOSTS) (root : SymbolicState) :
    List Nat → List SymbolicState → Prop where
  | root : ReachableRun tools tiosts root [] [root]
  | step {choices : List Nat} {current : SymbolicState} {above : List SymbolicState}
      {choice : Nat} {transition : Transition} {symbolicAction : SymbolicAction}
      {next : SymbolicState} :
      ReachableRun tools tiosts root choices (current :: above) →
      current.location.outTransitions[choice]? = some transition →
      nextZSES tools tiosts current transition = .ok (symbolicAction, next) →
      isPathConditionSatisfied tools (varParamMapping tiosts) next.pathCondition = .ok true →
      isZoneEmpty tools next.zone = false →
      ReachableRun tools tiosts root (choices ++ [choice]) (next :: current :: above)

/-- The labels of the locations of the states. -/
def labels (history : List SymbolicState) : List String :=
  history.map (fun state => state.location.label)

/-- No location occurs more than twice. -/
def AtMostTwice (history : List SymbolicState) : Prop :=
  ∀ label, (labels history).count label ≤ 2

section Runs

variable {tools : SymbolicTools} {tiosts : TIOSTS} {root : SymbolicState}

theorem isReachable_eq_ok_true {next : SymbolicState} :
    isReachable tools (varParamMapping tiosts) next = .ok true ↔
      isPathConditionSatisfied tools (varParamMapping tiosts) next.pathCondition = .ok true ∧
        isZoneEmpty tools next.zone = false := by
  unfold isReachable
  cases isPathConditionSatisfied tools (varParamMapping tiosts) next.pathCondition with
  | error failure =>
      constructor
      · intro returned
        cases returned
      · rintro ⟨returned, _⟩
        cases returned
  | ok satisfied =>
      rw [ok_bind]
      constructor
      · intro returned
        have both := Except.ok.inj returned
        simp only [Bool.and_eq_true, Bool.not_eq_true'] at both
        exact ⟨by rw [both.1], both.2⟩
      · rintro ⟨isTrue, nonempty⟩
        rw [Except.ok.inj isTrue, nonempty]
        rfl

theorem nextZSES_target {current next : SymbolicState} {transition : Transition}
    {symbolicAction : SymbolicAction}
    (stepped : nextZSES tools tiosts current transition = .ok (symbolicAction, next)) :
    tiosts.getLocation transition.target = some next.location := by
  simp only [nextZSES, bind_eq_ok] at stepped
  obtain ⟨_, _, _, _, _, _, target, found, returned⟩ := stepped
  cases returned
  exact deref_eq_ok.mp found

theorem nextZSES_registers (wellFormed : tiosts.WellFormed) {current next : SymbolicState}
    {transition : Transition} {symbolicAction : SymbolicAction}
    (stepped : nextZSES tools tiosts current transition = .ok (symbolicAction, next)) :
    tiosts.Registers next.location := by
  have found := nextZSES_target stepped
  unfold TIOSTS.Registers
  rw [wellFormed.label_eq found]
  exact found

theorem occursTwice_eq_false_iff {history : List SymbolicState} {location : Location}
    (registers : tiosts.Registers location)
    (allRegister : ∀ state ∈ history, tiosts.Registers state.location) :
    occursTwice location history = false ↔ (labels history).count location.label < 2 := by
  have counts : history.countP (fun state => state.location.equals location) =
      (labels history).count location.label := by
    rw [labels, List.count, List.countP_map]
    apply List.countP_congr
    intro state member
    rw [(allRegister state member).equals_iff registers]
    simp
  unfold occursTwice
  rw [counts]
  simp

variable (wellFormed : tiosts.WellFormed) (rootRegisters : tiosts.Registers root.location)

include wellFormed rootRegisters

theorem ReachableRun.registers {choices : List Nat} {history : List SymbolicState}
    (run : ReachableRun tools tiosts root choices history) :
    ∀ state ∈ history, tiosts.Registers state.location := by
  induction run with
  | root =>
      intro state member
      rw [List.mem_singleton.mp member]
      exact rootRegisters
  | step _ _ stepped _ _ induction =>
      intro state member
      rcases List.mem_cons.mp member with rfl | earlier
      · exact nextZSES_registers wellFormed stepped
      · exact induction state earlier

/-- The runs of the unfolding are the reachable runs within the upper bound. -/
theorem run_iff {choices : List Nat} {history : List SymbolicState} :
    Unfolding.Run root (nextState tools tiosts) choices history ↔
      ReachableRun tools tiosts root choices history ∧ AtMostTwice history := by
  constructor
  · intro run
    induction run with
    | start =>
        refine ⟨ReachableRun.root, ?_⟩
        intro label
        exact Nat.le_trans List.count_le_length (by simp [labels])
    | @extend choices history choice node _ step induction =>
        obtain ⟨reachable, twice⟩ := induction
        obtain ⟨branch, chosen, rfl⟩ := Option.map_eq_some_iff.mp step
        cases history with
        | nil => cases reachable
        | cons current above =>
            obtain ⟨transition, listed, stepped, answered, free, _⟩ := choose_eq_some chosen
            obtain ⟨satisfied, nonempty⟩ := isReachable_eq_ok_true.mp answered
            have registers := nextZSES_registers wellFormed stepped
            have fewer := (occursTwice_eq_false_iff registers
              (reachable.registers wellFormed rootRegisters)).mp free
            refine ⟨reachable.step listed stepped satisfied nonempty, ?_⟩
            intro label
            rw [labels, List.map_cons, List.count_cons]
            split
            · rename_i same
              rw [← beq_iff_eq.mp same]
              exact fewer
            · exact twice label
  · rintro ⟨reachable, twice⟩
    induction reachable with
    | root => exact Unfolding.Run.start
    | @step choices current above choice transition symbolicAction next earlier listed stepped
        satisfied nonempty induction =>
        have bounded : ∀ label, (labels (current :: above)).count label +
            (if next.location.label == label then 1 else 0) ≤ 2 := by
          intro label
          have whole := twice label
          rw [labels, List.map_cons, List.count_cons] at whole
          exact whole
        have earlierRun := induction (fun label => Nat.le_trans (Nat.le_add_right _ _)
          (bounded label))
        have registers := nextZSES_registers wellFormed stepped
        have free := (occursTwice_eq_false_iff registers
          (earlier.registers wellFormed rootRegisters)).mpr (by
            have here := bounded next.location.label
            rw [if_pos (by simp)] at here
            omega)
        have answered := isReachable_eq_ok_true.mpr ⟨satisfied, nonempty⟩
        refine earlierRun.extend ?_
        have outcome : branchOf tools tiosts (current :: above) transition =
            .ok (some ⟨symbolicAction, transition.clockGuard, transition.clockAssignments,
              transition.deadline, next⟩) := by
          simp only [branchOf, stepped, ok_bind, answered, free]
          rfl
        have found : (outgoing (current :: above))[choice]? = some transition := listed
        rw [nextState, choose_of_branchOf found outcome]
        rfl

/-- What bounds the unfolding of a model. -/
theorem isBounded : Unfolding.IsBounded root (nextState tools tiosts)
    (fun state : SymbolicState => state.location.label) tiosts.locations.keys.toFinset 2
    (tiosts.locations.keys.toFinset.sup (fun label => (tiosts.outOf label).length)) := by
  have registered : ∀ location, tiosts.Registers location →
      location.label ∈ tiosts.locations.keys.toFinset := by
    intro location registers
    rw [List.mem_toFinset]
    exact AList.mem_keys.mp ((tiosts.isRegistered_iff _).mpr ⟨location, registers⟩)
  have reachable : ∀ choices history, Unfolding.Run root (nextState tools tiosts) choices
      history → ∀ state ∈ history, tiosts.Registers state.location := fun choices history run =>
    ((run_iff wellFormed rootRegisters).mp run).1.registers wellFormed rootRegisters
  constructor
  · omega
  · exact registered root.location rootRegisters
  · intro choices history choice node run step
    have extended := reachable _ _ (run.extend step)
    exact registered node.location (extended node List.mem_cons_self)
  · intro choices history choice node run step
    have twice := ((run_iff wellFormed rootRegisters).mp (run.extend step)).2
      node.location.label
    rw [labels, List.map_cons, List.count_cons_self] at twice
    omega
  · intro choices history choice node run step
    obtain ⟨branch, chosen, _⟩ := Option.map_eq_some_iff.mp step
    have inside := choose_lt chosen
    cases history with
    | nil => exact absurd inside (Nat.not_lt_zero _)
    | cons current above =>
        have registers := reachable _ _ run current List.mem_cons_self
        have same : (tiosts.outOf current.location.label).length =
            (outgoing (current :: above)).length := by
          rw [TIOSTS.outOf_eq _ _ registers]
          rfl
        have below : (tiosts.outOf current.location.label).length ≤ _ :=
          Finset.le_sup (f := fun label => (tiosts.outOf label).length)
            (registered current.location registers)
        omega

theorem finite_runs : {choices | ∃ history,
    Unfolding.Run root (nextState tools tiosts) choices history}.Finite :=
  Unfolding.finite_runs (isBounded wellFormed rootRegisters)

end Runs

section Trees

variable {tools : SymbolicTools} {tiosts : TIOSTS}

theorem initialLocationOf_registers (wellFormed : tiosts.WellFormed) {location : Location}
    (isInitial : initialLocationOf tiosts = .ok location) : tiosts.Registers location :=
  ((initialLocationOf_eq_ok wellFormed).mp isInitial).2

/-- The root paths of an execution tree are the runs of the unfolding. -/
theorem IsExecutionTree.choices_iff {root : SymbolicState} {tree : SymbolicExecutionTree}
    {trace : Nat → Trace} (isTree : IsExecutionTree tools tiosts root tree trace)
    {choices : List Nat} {history : List SymbolicState} :
    Unfolding.Run root (nextState tools tiosts) choices history ↔
      ∃ reference < tree.next, trace reference = ⟨choices, history⟩ := by
  constructor
  · intro run
    induction run with
    | start =>
        obtain ⟨node, found, _⟩ := isTree.rootNode
        exact ⟨0, SymbolicExecutionTree.lt_next_of_getNode found, isTree.rootTrace⟩
    | @extend choices history choice next _ step induction =>
        obtain ⟨reference, inside, traceEq⟩ := induction
        obtain ⟨node, found⟩ := SymbolicExecutionTree.exists_getNode inside
        obtain ⟨branch, chosen, rfl⟩ := Option.map_eq_some_iff.mp step
        have listed : (choice, branch) ∈ branchesUpTo tools tiosts (trace reference).history
            (degree (trace reference).history) := by
          rw [traceEq]
          exact mem_branchesUpTo.mpr ⟨choose_lt chosen, chosen⟩
        have entry := List.mem_map_of_mem (f := fun entry : Nat × Branch =>
          ((trace reference).choices ++ [entry.1], some entry.2)) listed
        rw [← isTree.children reference node found] at entry
        obtain ⟨transition, member, same⟩ := List.mem_map.mp entry
        obtain ⟨choicesEq, branchEq⟩ := Prod.mk.inj same
        obtain ⟨_, target, targetFound, _, historyEq⟩ :=
          isTree.child reference node found transition member
        have state : target.state = branch.target := by
          simp only [branchAt, SymbolicExecutionTree.getState, targetFound, Option.map_some,
            Option.some.injEq] at branchEq
          rw [← branchEq]
        refine ⟨transition.targetZSES, SymbolicExecutionTree.lt_next_of_getNode targetFound, ?_⟩
        rw [state, traceEq] at historyEq
        rw [traceEq] at choicesEq
        simp only at historyEq choicesEq
        rw [← historyEq, ← choicesEq]
  · rintro ⟨reference, inside, traceEq⟩
    obtain ⟨node, found⟩ := SymbolicExecutionTree.exists_getNode inside
    have run := isTree.run reference node found
    rw [traceEq] at run
    exact run

end Trees

end SymbolicExecution

end Symbolrt
