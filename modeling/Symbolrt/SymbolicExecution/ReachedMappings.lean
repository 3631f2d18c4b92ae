import Symbolrt.SymbolicExecution.ExpressionUpdates
import Symbolrt.SymbolicExecution.RootPaths

/-!
# The mappings that an execution reaches

A run starts with the initial symbolic values, gives the parameters of every action new
ones and then carries out the assignments.
-/

namespace Symbolrt

open SymbolicExecution in
/-- What is declared, received and assigned to are identifiers. -/
structure TIOSTS.UsesIdentifiers (tiosts : TIOSTS) : Prop where
  names : ∀ name ∈ tiosts.dataNames, IsIdentifier name
  parameters : ∀ label, ∀ transition ∈ tiosts.outOf label,
    ∀ parameter ∈ transition.action.parameters, IsIdentifier parameter
  targets : ∀ label, ∀ transition ∈ tiosts.outOf label,
    ∀ text ∈ transition.dataAssignments, ∀ assignment ∈ Text.split assignmentBar text,
      ∀ target ∈ (Text.split Constants.assignmentSymbol assignment).head?,
        IsIdentifier (Text.trim target)

namespace SymbolicExecution

open SynchronousProduct (initialLocationOf)

/-- The values that the guard of a transition from a state sees. -/
def receivedValues (state : SymbolicState) (transition : Transition) :
    Except Failure SymbolicMapping := do
  let update ← transition.action.parameters.foldlM updateParameter ⟨[], ∅, state.mapping⟩
  return update.nextSymbolicValues

/-- The mappings of the states of runs and those that their outgoing transitions see. -/
inductive ReachedMapping (tools : SymbolicTools) (tiosts : TIOSTS) (root : SymbolicState) :
    SymbolicMapping → Prop where
  | state {choices : List Nat} {history : List SymbolicState} {state : SymbolicState} :
      ReachableRun tools tiosts root choices history → state ∈ history →
      ReachedMapping tools tiosts root state.mapping
  | received {choices : List Nat} {history : List SymbolicState} {state : SymbolicState}
      {transition : Transition} {symbolicValues : SymbolicMapping} :
      ReachableRun tools tiosts root choices history → state ∈ history →
      transition ∈ state.location.outTransitions →
      receivedValues state transition = .ok symbolicValues →
      ReachedMapping tools tiosts root symbolicValues

section Identifiers

variable {tools : SymbolicTools} {tiosts : TIOSTS}

theorem NamesIdentifiers.insert {symbolicValues : SymbolicMapping}
    (identifiers : NamesIdentifiers symbolicValues) {name text : String}
    (isIdentifier : IsIdentifier name) :
    NamesIdentifiers (symbolicValues.insert name text) := by
  intro other otherText found
  by_cases same : other = name
  · rw [same]
    exact isIdentifier
  · rw [Finmap.lookup_insert_of_ne _ same] at found
    exact identifiers other otherText found

theorem namesIdentifiers_initial (uses : tiosts.UsesIdentifiers) :
    NamesIdentifiers
      (initializeSymbolicValues tiosts.modelVariables tiosts.actionParameters) := by
  intro name text found
  rw [lookup_initializeSymbolicValues] at found
  split at found
  · rename_i member
    exact uses.names name member
  · cases found

theorem namesIdentifiers_received (uses : tiosts.UsesIdentifiers) {state : SymbolicState}
    (identifiers : NamesIdentifiers state.mapping) {label : String} {transition : Transition}
    (listed : transition ∈ tiosts.outOf label) {symbolicValues : SymbolicMapping}
    (received : receivedValues state transition = .ok symbolicValues) :
    NamesIdentifiers symbolicValues := by
  obtain ⟨update, updated, returned⟩ := bind_eq_ok.mp received
  obtain rfl := Except.ok.inj returned
  apply Loops.foldlM_returned
    (fun (_ : List String) (update : ParameterUpdate) =>
      NamesIdentifiers update.nextSymbolicValues) updated identifiers
  intro done parameter rest update next whole holds stepped
  obtain ⟨current, _, stepped⟩ := bind_eq_ok.mp stepped
  obtain ⟨newParamId, _, stepped⟩ := bind_eq_ok.mp stepped
  obtain rfl := Except.ok.inj stepped
  exact holds.insert (uses.parameters label transition listed parameter (by simp [whole]))

theorem namesIdentifiers_assigned (uses : tiosts.UsesIdentifiers) {label : String}
    {transition : Transition} (listed : transition ∈ tiosts.outOf label)
    {symbolicValues next : SymbolicMapping} (identifiers : NamesIdentifiers symbolicValues)
    (assigned : updateSymbolicValueWithAssignments transition.dataAssignments symbolicValues =
      .ok next) : NamesIdentifiers next := by
  cases written : transition.dataAssignments with
  | none =>
      rw [written] at assigned
      obtain rfl := Except.ok.inj assigned
      exact identifiers
  | some text =>
      rw [written] at assigned
      apply Loops.foldlM_returned (fun _ values => NamesIdentifiers values) assigned identifiers
      intro done assignment rest values after whole holds stepped
      have targets := uses.targets label transition listed text written assignment
        (by simp [whole])
      unfold updateSymbolicValueWithAssignment at stepped
      split at stepped
      · rename_i target value others split
        obtain rfl := Except.ok.inj stepped
        exact holds.insert (targets target (by rw [split]; rfl))
      · cases stepped

theorem namesIdentifiers_next (uses : tiosts.UsesIdentifiers) {current next : SymbolicState}
    (registers : tiosts.Registers current.location)
    (identifiers : NamesIdentifiers current.mapping) {transition : Transition}
    (member : transition ∈ current.location.outTransitions) {symbolicAction : SymbolicAction}
    (stepped : nextZSES tools tiosts current transition = .ok (symbolicAction, next)) :
    NamesIdentifiers next.mapping := by
  have listed : transition ∈ tiosts.outOf current.location.label := by
    rw [TIOSTS.outOf_eq _ _ registers]
    exact member
  obtain ⟨update, updated, stepped⟩ := bind_eq_ok.mp stepped
  obtain ⟨assigned, assignedEq, stepped⟩ := bind_eq_ok.mp stepped
  obtain ⟨zone, _, stepped⟩ := bind_eq_ok.mp stepped
  obtain ⟨target, _, stepped⟩ := bind_eq_ok.mp stepped
  obtain ⟨_, rfl⟩ := Prod.mk.inj (Except.ok.inj stepped)
  have received : receivedValues current transition = .ok update.nextSymbolicValues := by
    rw [receivedValues, updated]
    rfl
  exact namesIdentifiers_assigned uses listed
    (namesIdentifiers_received uses identifiers listed received) assignedEq

theorem ReachableRun.namesIdentifiers (wellFormed : tiosts.WellFormed)
    (uses : tiosts.UsesIdentifiers) {location : Location}
    (registers : tiosts.Registers location) {choices : List Nat} {history : List SymbolicState}
    (run : ReachableRun tools tiosts (initialState tools tiosts location) choices history) :
    ∀ state ∈ history, NamesIdentifiers state.mapping := by
  induction run with
  | root =>
      intro state member
      rw [List.mem_singleton.mp member]
      exact namesIdentifiers_initial uses
  | @step choices current above choice transition symbolicAction next earlier listed stepped
      satisfied nonempty induction =>
      intro state member
      rcases List.mem_cons.mp member with rfl | before
      · have currentRegisters := earlier.registers wellFormed registers current List.mem_cons_self
        exact namesIdentifiers_next uses currentRegisters (induction current List.mem_cons_self)
          (List.mem_of_getElem? listed) stepped
      · exact induction state before

theorem ReachedMapping.namesIdentifiers (wellFormed : tiosts.WellFormed)
    (uses : tiosts.UsesIdentifiers) {location : Location}
    (registers : tiosts.Registers location) {symbolicValues : SymbolicMapping}
    (reached : ReachedMapping tools tiosts (initialState tools tiosts location)
      symbolicValues) : NamesIdentifiers symbolicValues := by
  cases reached with
  | state run member => exact run.namesIdentifiers wellFormed uses registers _ member
  | @received choices history state transition _ run member listed received =>
      have identifiers := run.namesIdentifiers wellFormed uses registers state member
      have stateRegisters := run.registers wellFormed registers state member
      have inOut : transition ∈ tiosts.outOf state.location.label := by
        rw [TIOSTS.outOf_eq _ _ stateRegisters]
        exact listed
      exact namesIdentifiers_received uses identifiers inOut received

end Identifiers

section Choices

variable (tools : SymbolicTools) (tiosts : TIOSTS)

/-- The run goes on with an outgoing transition of its newest state. -/
def follow (history : List SymbolicState) (choice : Nat) : Option (List SymbolicState) :=
  match history with
  | [] => none
  | current :: above => do
      let transition ← current.location.outTransitions[choice]?
      let (_, next) ← (nextZSES tools tiosts current transition).toOption
      let reachable ← (isReachable tools (varParamMapping tiosts) next).toOption
      if reachable then some (next :: current :: above) else none

variable {tools tiosts}

theorem toOption_eq_some {α : Type} {result : Except Failure α} {value : α}
    (isSome : result.toOption = some value) : result = .ok value := by
  cases result with
  | ok other => rw [Option.some.inj isSome]
  | error failure => cases isSome

theorem follow_reachable {root : SymbolicState} {choices : List Nat}
    {history next : List SymbolicState} {choice : Nat}
    (run : ReachableRun tools tiosts root choices history)
    (followed : follow tools tiosts history choice = some next) :
    ReachableRun tools tiosts root (choices ++ [choice]) next := by
  cases history with
  | nil => cases followed
  | cons current above =>
      obtain ⟨transition, listed, followed⟩ := Option.bind_eq_some_iff.mp followed
      obtain ⟨⟨symbolicAction, target⟩, stepped, followed⟩ := Option.bind_eq_some_iff.mp followed
      obtain ⟨reachable, answered, followed⟩ := Option.bind_eq_some_iff.mp followed
      split at followed
      · rename_i isTrue
        rw [isTrue] at answered
        obtain ⟨satisfied, nonempty⟩ := isReachable_eq_ok_true.mp (toOption_eq_some answered)
        rw [← Option.some.inj followed]
        exact run.step listed (toOption_eq_some stepped) satisfied nonempty
      · cases followed

theorem followAll_reachable {root : SymbolicState} {choices others : List Nat}
    {history last : List SymbolicState} (run : ReachableRun tools tiosts root choices history)
    (followed : others.foldlM (follow tools tiosts) history = some last) :
    ReachableRun tools tiosts root (choices ++ others) last := by
  induction others generalizing choices history with
  | nil =>
      rw [← Option.some.inj followed, List.append_nil]
      exact run
  | cons choice others induction =>
      obtain ⟨next, here, later⟩ := Option.bind_eq_some_iff.mp followed
      have whole := induction (follow_reachable run here) later
      rw [List.append_assoc] at whole
      exact whole

end Choices

end SymbolicExecution

end Symbolrt
