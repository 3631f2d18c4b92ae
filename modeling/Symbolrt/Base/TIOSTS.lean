import Mathlib.Data.List.AList
import Symbolrt.Base.ClockGuard

/-!
# Timed input-output symbolic transition systems

Locations, transitions and the models made of them.  A model keeps two views of
its transitions, the outgoing and incoming lists of its locations and a map from
keys to transitions, and a transition created under an existing key replaces the
earlier one in the map but not in the lists.
-/

namespace Symbolrt

/-- A data guard.  The product compares guards with the constant `TRUE` by
reference, so the constant is kept apart from a written guard of the same
text. -/
inductive DataGuard where
  | constantTrue
  | written (text : String)
  deriving DecidableEq, Repr

namespace DataGuard

/-- The text that the source stores. -/
def text : DataGuard → String
  | .constantTrue => Constants.guardTrue
  | .written text => text

/-- The constant and the written text `TRUE` are equal. -/
def equals (guard other : DataGuard) : Bool := guard.text == other.text

@[simp] theorem text_constantTrue : constantTrue.text = Constants.guardTrue := rfl

@[simp] theorem text_written (text : String) : (written text).text = text := rfl

end DataGuard

/-- An edge with its two labels; the source holds the two locations instead. -/
structure Transition where
  source : String
  dataGuard : DataGuard
  clockGuard : ClockGuard
  action : Action
  dataAssignments : Option String
  clockAssignments : Option String
  deadline : Deadline
  target : String
  deriving DecidableEq

namespace Transition

/-- The key of the map of transitions, which leaves the guards out. -/
def key (transition : Transition) : String :=
  transition.source ++ "#" ++ transition.action.name ++ "#" ++ transition.target

/-- Both guards as one text, without those that are TRUE. -/
def getAllGuard (transition : Transition) : String :=
  let clockGuardString := transition.clockGuard.toString
  if clockGuardString = Constants.guardTrue then
    transition.dataGuard.text
  else if transition.dataGuard.text = Constants.guardTrue then
    clockGuardString
  else
    transition.dataGuard.text ++ " " ++ Constants.guardConjunction ++ " " ++
      clockGuardString

/-- The deadline of a transition that is created without one. -/
def defaultDeadline (action : Action) : Deadline :=
  if action.type = ActionType.output then .delayable else .lazy

/-- Field by field; the actions are compared by name and type. -/
def equals (transition other : Transition) : Bool :=
  transition.source == other.source && transition.dataGuard.equals other.dataGuard &&
    transition.clockGuard == other.clockGuard &&
    transition.action.equals other.action &&
    transition.deadline == other.deadline &&
    transition.dataAssignments == other.dataAssignments &&
    transition.clockAssignments == other.clockAssignments &&
    transition.target == other.target

theorem equals_self (transition : Transition) : transition.equals transition = true := by
  simp [equals, DataGuard.equals, Action.equals]

end Transition

/-- A location with the lists of the transitions that leave it and enter it. -/
structure Location where
  label : String
  outTransitions : List Transition
  inTransitions : List Transition
  isInitialLocation : Bool
  deriving DecidableEq

namespace Location

/-- A location without transitions. -/
def new (label : String) (isInitialLocation : Bool) : Location :=
  ⟨label, [], [], isInitialLocation⟩

/-- The locations that give a verdict in a test purpose. -/
def isSpecialLocation (location : Location) : Bool :=
  location.label == Constants.locationLabelAccept ||
    location.label == Constants.locationLabelReject

def addOutTransition (transition : Transition) (location : Location) : Location :=
  { location with outTransitions := location.outTransitions ++ [transition] }

def addInTransition (transition : Transition) (location : Location) : Location :=
  { location with inTransitions := location.inTransitions ++ [transition] }

def setIsInitialLocation (isInitialLocation : Bool) (location : Location) : Location :=
  { location with isInitialLocation := isInitialLocation }

/-- The actions of the outgoing transitions, each as often as it occurs. -/
def getOutActions (location : Location) : List Action :=
  location.outTransitions.map Transition.action

/-- Pairwise comparison of two lists. -/
def equalLists {α : Type} (equal : α → α → Bool) : List α → List α → Bool
  | [], [] => true
  | first :: rest, other :: others => equal first other && equalLists equal rest others
  | _, _ => false

/-- Field by field, the two lists in their order. -/
def equals (location other : Location) : Bool :=
  location.isInitialLocation == other.isInitialLocation &&
    location.label == other.label &&
    equalLists Transition.equals location.inTransitions other.inTransitions &&
    equalLists Transition.equals location.outTransitions other.outTransitions

end Location

/-- The three lists of actions, each holding actions of its own type. -/
structure Alphabet where
  inputActions : List Action
  outputActions : List Action
  internalActions : List Action
  inputActions_type : ∀ action ∈ inputActions, action.type = ActionType.input
  outputActions_type : ∀ action ∈ outputActions, action.type = ActionType.output
  internalActions_type : ∀ action ∈ internalActions, action.type = ActionType.internal

/-- A timed input-output symbolic transition system: declarations, and the locations and
transitions with two hash maps over them. -/
structure TIOSTS extends Alphabet where
  name : String
  initialCondition : Option DataGuard
  initialLocation : Option String
  modelVariables : List TypedData
  actionParameters : List TypedData
  clocks : List String
  locations : AList (fun _ : String => Location)
  transitions : AList (fun _ : String => Transition)

/-- The order in which a hash map hands out its keys. -/
structure IterationOrder where
  arrange : List String → List String
  arrange_perm : ∀ keys, (arrange keys).Perm keys

theorem IterationOrder.id_perm (keys : List String) : (id keys).Perm keys := List.Perm.refl keys

namespace Alphabet

def empty : Alphabet := ⟨[], [], [], by simp, by simp, by simp⟩

/-- The list an action of the given type belongs to. -/
def actionsOf (alphabet : Alphabet) : ActionType → List Action
  | .input => alphabet.inputActions
  | .output => alphabet.outputActions
  | .internal => alphabet.internalActions

/-- Appends the action to the list of its type. -/
def addAction (alphabet : Alphabet) (action : Action) : Alphabet :=
  match equality : action.type with
  | .input =>
      { alphabet with
        inputActions := alphabet.inputActions ++ [action]
        inputActions_type := by
          simpa [or_imp, forall_and, equality] using alphabet.inputActions_type }
  | .output =>
      { alphabet with
        outputActions := alphabet.outputActions ++ [action]
        outputActions_type := by
          simpa [or_imp, forall_and, equality] using alphabet.outputActions_type }
  | .internal =>
      { alphabet with
        internalActions := alphabet.internalActions ++ [action]
        internalActions_type := by
          simpa [or_imp, forall_and, equality] using alphabet.internalActions_type }

/-- Inputs become outputs and outputs become inputs. -/
def mirror (alphabet : Alphabet) : Alphabet where
  inputActions := alphabet.outputActions.map (Action.setType · ActionType.input)
  outputActions := alphabet.inputActions.map (Action.setType · ActionType.output)
  internalActions := alphabet.internalActions
  inputActions_type := by simp
  outputActions_type := by simp
  internalActions_type := alphabet.internalActions_type

theorem actionsOf_type (alphabet : Alphabet) (type : ActionType) :
    ∀ action ∈ alphabet.actionsOf type, action.type = type := by
  cases type with
  | input => exact alphabet.inputActions_type
  | output => exact alphabet.outputActions_type
  | internal => exact alphabet.internalActions_type

theorem actionsOf_addAction (alphabet : Alphabet) (action : Action) (type : ActionType) :
    (alphabet.addAction action).actionsOf type =
      if action.type = type then alphabet.actionsOf type ++ [action]
      else alphabet.actionsOf type := by
  obtain ⟨name, actionType, parameters⟩ := action
  cases actionType <;> cases type <;> rfl

end Alphabet

namespace TIOSTS

/-- A model with a name and nothing else. -/
def new (name : String) : TIOSTS where
  toAlphabet := Alphabet.empty
  name := name
  initialCondition := none
  initialLocation := none
  modelVariables := []
  actionParameters := []
  clocks := []
  locations := ∅
  transitions := ∅

def setName (name : String) (model : TIOSTS) : TIOSTS := { model with name := name }

/-- As the adders below, a declared name may be added again. -/
def addVariable (modelVariable : TypedData) (model : TIOSTS) : TIOSTS :=
  { model with modelVariables := model.modelVariables ++ [modelVariable] }

def addActionParameter (actionParameter : TypedData) (model : TIOSTS) : TIOSTS :=
  { model with actionParameters := model.actionParameters ++ [actionParameter] }

def addClock (clock : String) (model : TIOSTS) : TIOSTS :=
  { model with clocks := model.clocks ++ [clock] }

/-- The names of the variables and action parameters. -/
def dataNames (model : TIOSTS) : List String :=
  (model.modelVariables ++ model.actionParameters).map TypedData.name

/-- The position of the clock, counted from 1, as in the zones; 0 is no clock. -/
def getClockId (model : TIOSTS) (clockName : String) : Nat :=
  clockIdIn model.clocks clockName

def addAction (action : Action) (model : TIOSTS) : TIOSTS :=
  { model with toAlphabet := model.toAlphabet.addAction action }

/-- The first declared action of the type and name. -/
def getAction (model : TIOSTS) (type : ActionType) (name : String) : Option Action :=
  (model.actionsOf type).find? (fun action => action.name == name)

/-- The inputs, then the outputs. -/
def getInputOutputActions (model : TIOSTS) : List Action :=
  model.inputActions ++ model.outputActions

def getLocation (model : TIOSTS) (label : String) : Option Location :=
  model.locations.lookup label

/-- Adds the location unless its label is taken. -/
def addLocation (location : Location) (model : TIOSTS) : TIOSTS :=
  if location.label ∈ model.locations then model
  else { model with locations := model.locations.insert location.label location }

/-- Changes a registered location in place. -/
def updateLocation (label : String) (change : Location → Location) (model : TIOSTS) :
    TIOSTS :=
  match model.locations.lookup label with
  | none => model
  | some location => { model with locations := model.locations.insert label (change location) }

/-- Flags the location of the label and makes it the initial one; an earlier one keeps its
flag. -/
def setInitialLocation (label : String) (model : TIOSTS) : TIOSTS :=
  { model.updateLocation label (Location.setIsInitialLocation true) with
    initialLocation := some label }

def setInitialCondition (initialCondition : Option DataGuard) (model : TIOSTS) : TIOSTS :=
  { model with initialCondition := initialCondition }

/-- The stored transition with these five parts; deadline and assignments are not asked
for. -/
def getTransition (model : TIOSTS) (source : String) (dataGuard : DataGuard)
    (clockGuard : ClockGuard) (action : Action) (target : String) : Option Transition :=
  (model.transitions.entries.map Sigma.snd).find? (fun transition =>
    transition.source == source && transition.dataGuard.equals dataGuard &&
      transition.clockGuard == clockGuard && transition.action.equals action &&
      transition.target == target)

/-- Enters a transition in the lists of its two locations and in the map. -/
def register (transition : Transition) (model : TIOSTS) : TIOSTS :=
  let linked := (model.updateLocation transition.source
    (Location.addOutTransition transition)).updateLocation transition.target
      (Location.addInTransition transition)
  { linked with transitions := linked.transitions.insert transition.key transition }

/-- Creates a transition between two registered locations, in their lists and in the map.
From a flagged location its data guard becomes the initial condition. -/
def createTransition (sourceLocation : String) (dataGuard : DataGuard)
    (clockGuard : ClockGuard) (action : Action)
    (dataAssignments clockAssignments : Option String) (deadline : Deadline)
    (targetLocation : String) (model : TIOSTS) : Except Failure TIOSTS := do
  let source ← deref (model.getLocation sourceLocation)
  let target ← deref (model.getLocation targetLocation)
  let initialCondition :=
    if source.isInitialLocation then some dataGuard else model.initialCondition
  let transition := ⟨source.label, dataGuard, clockGuard, action, dataAssignments,
    clockAssignments, deadline, target.label⟩
  return (model.setInitialCondition initialCondition).register transition

/-- The overload that reads the clock guard from its text. -/
def createTransitionFromText (sourceLocation : String) (dataGuard : DataGuard)
    (clockGuardString : String) (action : Action)
    (dataAssignments clockAssignments : Option String) (deadline : Deadline)
    (targetLocation : String) (model : TIOSTS) : Except Failure TIOSTS := do
  -- the constructor of the clock guard stores nulls for a malformed text, which
  -- the first comparison with the guard dereferences
  let clockGuard ← deref (ClockGuard.ofString clockGuardString model.clocks)
  model.createTransition sourceLocation dataGuard clockGuard action dataAssignments
    clockAssignments deadline targetLocation

end TIOSTS

namespace TIOSTS

theorem foldl_addVariable (added : List TypedData) (model : TIOSTS) :
    added.foldl (fun model data => model.addVariable data) model =
      { model with modelVariables := model.modelVariables ++ added } := by
  induction added generalizing model with
  | nil => simp
  | cons head tail induction =>
      rw [List.foldl_cons, induction]
      simp [addVariable]

theorem foldl_addActionParameter (added : List TypedData) (model : TIOSTS) :
    added.foldl (fun model data => model.addActionParameter data) model =
      { model with actionParameters := model.actionParameters ++ added } := by
  induction added generalizing model with
  | nil => simp
  | cons head tail induction =>
      rw [List.foldl_cons, induction]
      simp [addActionParameter]

theorem foldl_addClock (added : List String) (model : TIOSTS) :
    added.foldl (fun model clock => model.addClock clock) model =
      { model with clocks := model.clocks ++ added } := by
  induction added generalizing model with
  | nil => simp
  | cons head tail induction =>
      rw [List.foldl_cons, induction]
      simp [addClock]

theorem foldl_addAction (added : List Action) (model : TIOSTS) :
    added.foldl (fun model action => model.addAction action) model =
      { model with toAlphabet := added.foldl Alphabet.addAction model.toAlphabet } := by
  induction added generalizing model with
  | nil => rfl
  | cons head tail induction =>
      rw [List.foldl_cons, induction]
      rfl

end TIOSTS

theorem TIOSTS.actionsOf_eq_of_alphabet {model other : TIOSTS}
    (same : model.toAlphabet = other.toAlphabet) (type : ActionType) :
    model.actionsOf type = other.actionsOf type := by rw [same]

theorem Alphabet.actionsOf_foldl (added : List Action) (alphabet : Alphabet)
    (type : ActionType) :
    (added.foldl Alphabet.addAction alphabet).actionsOf type =
      alphabet.actionsOf type ++ added.filter (fun action => action.type = type) := by
  induction added generalizing alphabet with
  | nil => simp
  | cons head tail induction =>
      rw [List.foldl_cons, induction, Alphabet.actionsOf_addAction]
      by_cases same : head.type = type <;> simp [same]

/-- Copying all three lists of an alphabet copies the alphabet. -/
theorem Alphabet.actionsOf_copy (alphabet : Alphabet) (type : ActionType) :
    (alphabet.internalActions.foldl Alphabet.addAction
      (alphabet.outputActions.foldl Alphabet.addAction
        (alphabet.inputActions.foldl Alphabet.addAction Alphabet.empty))).actionsOf type =
      alphabet.actionsOf type := by
  rw [actionsOf_foldl, actionsOf_foldl, actionsOf_foldl]
  have keep : ∀ listed : ActionType, (alphabet.actionsOf listed).filter
      (fun action => action.type = type) =
        if listed = type then alphabet.actionsOf listed else [] := by
    intro listed
    split
    · rename_i same
      rw [List.filter_eq_self]
      intro action member
      simp [alphabet.actionsOf_type listed action member, same]
    · rename_i different
      rw [List.filter_eq_nil_iff]
      intro action member
      simp [alphabet.actionsOf_type listed action member, different]
  have inputs := keep .input
  have outputs := keep .output
  have internals := keep .internal
  simp only [Alphabet.actionsOf] at inputs outputs internals
  rw [inputs, outputs, internals]
  cases type <;> simp [Alphabet.actionsOf, Alphabet.empty]

end Symbolrt
