import Mathlib.Data.List.Basic

/-!
# Constants, actions and typed data

The values the tool passes around before any location exists: action and data
types, deadlines, the fixed labels, and the exceptions its operations throw.
-/

namespace Symbolrt

namespace Constants

def locationLabelAccept : String := "Accept"
def locationLabelReject : String := "Reject"
def locationLabelDontCare : String := "DontCare"
def verdictInconclusive : String := "INCONCLUSIVE"
def guardTrue : String := "TRUE"
def guardFalse : String := "FALSE"
def guardConjunction : String := "AND"
def guardNegation : String := "NOT"
def assignmentSeparator : String := " | "
def assignmentSymbol : String := ":="
def symbolicValueSeparator : String := "_"
def symbolicValueInitial : String := "0"
def cvc3ResponseSatisfiable : String := "Satisfiable."
def dbmClockReference : String := "0"
def dbmStrict : String := "0"
def dbmWeak : String := "1"

end Constants

/-- The exceptions of the modelled operations.  `depthExceeded` is not one of
the tool's: a recursion or loop of the model was cut off before it returned. -/
inductive Failure where
  | nullPointer
  | indexOutOfBounds
  | numberFormat
  | clockGuard (message : String)
  | incompatibleSynchronousProduct (message : String)
  | incompatibleCompositionalOperation (message : String)
  | symbolicValueName (message : String)
  | depthExceeded
  deriving DecidableEq, Repr

/-- Dereferencing a possibly null reference. -/
def deref {α : Type} : Option α → Except Failure α
  | some value => .ok value
  | none => .error .nullPointer

@[simp] theorem deref_some {α : Type} (value : α) : deref (some value) = .ok value := rfl

theorem deref_eq_ok {α : Type} {reference : Option α} {value : α} :
    deref reference = .ok value ↔ reference = some value := by
  cases reference <;> simp [deref]

@[simp] theorem ok_bind {α β : Type} (value : α) (next : α → Except Failure β) :
    (Except.ok value >>= next) = next value := rfl

@[simp] theorem error_bind {α β : Type} (failure : Failure)
    (next : α → Except Failure β) :
    (Except.error failure >>= next) = .error failure := rfl

theorem bind_eq_ok {α β : Type} {step : Except Failure α} {next : α → Except Failure β}
    {value : β} :
    (step >>= next) = .ok value ↔ ∃ middle, step = .ok middle ∧ next middle = .ok value := by
  cases step <;> simp

theorem bind_eq_error {α β : Type} {step : Except Failure α} {next : α → Except Failure β}
    {failure : Failure} (failed : (step >>= next) = .error failure) :
    step = .error failure ∨ ∃ middle, step = .ok middle ∧ next middle = .error failure := by
  cases step with
  | error other =>
      rw [error_bind] at failed
      obtain rfl := Except.error.inj failed
      exact Or.inl rfl
  | ok middle =>
      rw [ok_bind] at failed
      exact Or.inr ⟨middle, rfl, failed⟩

theorem exists_ok {α : Type} {result : Except Failure α}
    (returned : result.toOption.isSome = true) : ∃ value, result = .ok value := by
  cases result with
  | ok value => exact ⟨value, rfl⟩
  | error failure => cases returned

theorem exists_checked {α : Type} {result : Except Failure α} {checked : α → Bool}
    (ran : result.toOption.map checked = some true) :
    ∃ value, result = .ok value ∧ checked value = true := by
  cases result with
  | ok value => exact ⟨value, rfl, Option.some.inj ran⟩
  | error failure => cases ran

/-- The three kinds of actions. -/
inductive ActionType where
  | input
  | internal
  | output
  deriving DecidableEq, Repr

/-- The types of variables and parameters. -/
inductive DataType where
  | boolean
  | integer
  deriving DecidableEq, Repr

/-- How urgent a transition is. -/
inductive Deadline where
  | lazy
  | delayable
  | eager
  deriving DecidableEq, Repr

/-- A declared variable or parameter. -/
structure TypedData where
  name : String
  type : DataType
  deriving DecidableEq, Repr

/-- Two typed data are equal if they have the same name. -/
def TypedData.equals (data other : TypedData) : Bool := data.name == other.name

/-- An action with the names of its parameters. -/
structure Action where
  name : String
  type : ActionType
  parameters : List String
  deriving DecidableEq, Repr

namespace Action

/-- An action is equal to another if it has the same name. -/
def equals (action other : Action) : Bool := action.name == other.name

def setType (action : Action) (type : ActionType) : Action :=
  { action with type := type }

@[simp] theorem setType_name (action : Action) (type : ActionType) :
    (action.setType type).name = action.name := rfl

@[simp] theorem setType_type (action : Action) (type : ActionType) :
    (action.setType type).type = type := rfl

@[simp] theorem setType_parameters (action : Action) (type : ActionType) :
    (action.setType type).parameters = action.parameters := rfl

end Action

end Symbolrt
