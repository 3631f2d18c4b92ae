import Symbolrt.SymbolicExecution.FreshParameters
import Symbolrt.SymbolicExecution.SingleWords

/-!
# Concrete runs

A run on values.  The parameters of an action are bound to the values received, then the
guard is checked, and then the assignments are carried out from left to right.  A
valuation of the symbols says which values these are: `x` starts with the value of `x_0`,
and the third value received for `p` is that of `p_3`.
-/

namespace Symbolrt

open Expression (Tree Value Interpretation Holds)
open SymbolicExecution (IsIdentifier IsSingleWord PlainBlanks symbolicValue assignmentBar)

/-- The values of all names, and how many values were received for each parameter. -/
structure ConcreteState where
  store : String → Value
  received : String → Nat

namespace ConcreteState

section Steps

variable (valuation : Interpretation)

/-- Names that are not declared stand for themselves. -/
def start (tiosts : TIOSTS) : ConcreteState where
  store name :=
    if name ∈ tiosts.dataNames then
      valuation.symbol (symbolicValue name Constants.symbolicValueInitial)
    else valuation.symbol name
  received _ := 0

/-- The meaning of expressions in a store. -/
def meaning (state : ConcreteState) : Interpretation :=
  { valuation with symbol := state.store }

/-- A parameter receives the value of its next symbol. -/
def receive (state : ConcreteState) (parameter : String) : ConcreteState :=
  let number := state.received parameter + 1
  { store := Function.update state.store parameter
      (valuation.symbol (symbolicValue parameter (Nat.repr number)))
    received := Function.update state.received parameter number }

def receiveAll (state : ConcreteState) (parameters : List String) : ConcreteState :=
  parameters.foldl (receive valuation) state

/-- An assignment `x := e`; other texts are no assignments. -/
def assign (state : ConcreteState) (assignment : String) : ConcreteState :=
  match Text.split Constants.assignmentSymbol assignment with
  | target :: value :: _ =>
      let result := Expression.value (state.meaning valuation) (Text.trim value)
      { state with
        store := Function.update state.store (Text.trim target) (result.getD (.number 0)) }
  | _ => state

/-- The assignments one after the other, on one store. -/
def assignAll (state : ConcreteState) (dataAssignments : Option String) : ConcreteState :=
  match dataAssignments with
  | none => state
  | some dataAssignments =>
      (Text.split assignmentBar dataAssignments).foldl (assign valuation) state

/-- The state behind a transition. -/
def take (state : ConcreteState) (transition : Transition) : ConcreteState :=
  (state.receiveAll valuation transition.action.parameters).assignAll valuation
    transition.dataAssignments

/-- The guard is checked when the parameters are bound. -/
def PassesGuard (state : ConcreteState) (transition : Transition) : Prop :=
  Holds ((state.receiveAll valuation transition.action.parameters).meaning valuation)
    transition.dataGuard.text

/-- Every guard of the path holds where the run meets it. -/
def PassesGuards : ConcreteState → List Transition → Prop
  | _, [] => True
  | state, transition :: path =>
      state.PassesGuard valuation transition ∧ PassesGuards (state.take valuation transition) path

/-- The state behind the path. -/
def run (state : ConcreteState) (path : List Transition) : ConcreteState :=
  path.foldl (take valuation) state

variable {valuation}

theorem run_concat (state : ConcreteState) (path : List Transition) (transition : Transition) :
    state.run valuation (path ++ [transition]) =
      (state.run valuation path).take valuation transition :=
  List.foldl_concat _ _ _ _

theorem passesGuards_concat (state : ConcreteState) (path : List Transition)
    (transition : Transition) :
    state.PassesGuards valuation (path ++ [transition]) ↔
      state.PassesGuards valuation path ∧
        (state.run valuation path).PassesGuard valuation transition := by
  induction path generalizing state with
  | nil => exact and_comm
  | cons first path induction =>
      refine (and_congr_right fun _ => induction (state.take valuation first)).trans ?_
      exact and_assoc.symm

theorem received_receiveAll (state : ConcreteState) (parameters : List String)
    (parameter : String) :
    (state.receiveAll valuation parameters).received parameter =
      state.received parameter + parameters.count parameter := by
  induction parameters generalizing state with
  | nil => rfl
  | cons first parameters induction =>
      refine (induction (state.receive valuation first)).trans ?_
      by_cases same : parameter = first
      · subst same
        simp [receive, Nat.add_assoc, Nat.add_comm]
      · simp [receive, same, Ne.symm same]

theorem received_assign (state : ConcreteState) (assignment : String) :
    (state.assign valuation assignment).received = state.received := by
  unfold assign
  split <;> rfl

theorem received_assignAll (state : ConcreteState) (dataAssignments : Option String) :
    (state.assignAll valuation dataAssignments).received = state.received := by
  have folded : ∀ (assignments : List String) (state : ConcreteState),
      (assignments.foldl (assign valuation) state).received = state.received := by
    intro assignments
    induction assignments with
    | nil => exact fun _ => rfl
    | cons assignment assignments induction =>
        exact fun state => (induction (state.assign valuation assignment)).trans
          (received_assign state assignment)
  cases dataAssignments with
  | none => rfl
  | some dataAssignments => exact folded _ state

end Steps

/-- How many values a path receives for a parameter. -/
def receptions (path : List Transition) (parameter : String) : Nat :=
  (path.flatMap (fun transition => transition.action.parameters)).count parameter

theorem receptions_concat (path : List Transition) (transition : Transition)
    (parameter : String) :
    receptions (path ++ [transition]) parameter =
      receptions path parameter + transition.action.parameters.count parameter := by
  simp [receptions]

theorem received_run {valuation : Interpretation} (tiosts : TIOSTS) (path : List Transition)
    (parameter : String) :
    ((start valuation tiosts).run valuation path).received parameter =
      receptions path parameter := by
  induction path using List.reverseRecOn with
  | nil => rfl
  | append_singleton path transition induction =>
      rw [run_concat, receptions_concat, ← induction]
      exact (congrFun (received_assignAll _ _) parameter).trans (received_receiveAll _ _ _)

end ConcreteState

/-- The operator compares two amounts. -/
def isComparison : Expression.BinaryOperator → Bool
  | .equal | .different | .less | .atMost | .greater | .atLeast => true
  | _ => false

/-- Comparisons between identifiers and constants, put together with AND. -/
def isConjunctionOfComparisons : Tree → Bool
  | .binary .and left right =>
      isConjunctionOfComparisons left && isConjunctionOfComparisons right
  | .binary operator (.word _) (.word _) => isComparison operator
  | .group tree => isConjunctionOfComparisons tree
  | _ => false

/-- A conjunction of comparisons with blanks between its words. -/
def ComparesWords (guard : String) : Prop :=
  PlainBlanks guard ∧ ∃ tree ∈ Expression.read guard, isConjunctionOfComparisons tree = true

instance (guard : String) : Decidable (ComparesWords guard) :=
  inferInstanceAs (Decidable (_ ∧ ∃ tree ∈ Expression.read guard, _))

/-- Guards compare, assignments copy, and names are as they should be. -/
structure TIOSTS.ComparesData (tiosts : TIOSTS) : Prop where
  names : ∀ name ∈ tiosts.dataNames, IsIdentifier name
  separates : tiosts.SeparatesParameters
  guards : ∀ label, ∀ transition ∈ tiosts.outOf label,
    transition.dataGuard.text = Constants.guardTrue ∨ ComparesWords transition.dataGuard.text
  assigned : ∀ label, ∀ transition ∈ tiosts.outOf label, ∀ text ∈ transition.dataAssignments,
    ∀ assignment ∈ Text.split assignmentBar text,
      ∀ value ∈ (Text.split Constants.assignmentSymbol assignment)[1]?,
        IsSingleWord (Text.trim value)

end Symbolrt
