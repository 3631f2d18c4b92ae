import Mathlib.Data.Finmap
import Symbolrt.Base.TIOSTS

/-!
# Symbolic execution trees

The symbolic states and transitions of a tree refer to each other.  A reference to
a state is its position in the list of states of the tree, in which every state
of the tree stands.
-/

namespace Symbolrt

/-- The symbolic values of variables and action parameters. -/
abbrev SymbolicMapping := Finmap (fun _ : String => String)

/-- An action with the symbolic values of its parameters, as a list and by name. -/
structure SymbolicAction where
  action : Action
  paramIds : List String
  paramMapping : SymbolicMapping
  deriving DecidableEq

namespace SymbolicAction

def equals (symbolicAction other : SymbolicAction) : Bool :=
  symbolicAction.action.equals other.action && symbolicAction.paramIds == other.paramIds &&
    decide (symbolicAction.paramMapping = other.paramMapping)

end SymbolicAction

/-- The fields of a symbolic state that do not refer to transitions. -/
structure SymbolicState where
  location : Location
  pathCondition : String
  mapping : SymbolicMapping
  zone : String
  deriving DecidableEq

namespace SymbolicState

def equals (state other : SymbolicState) : Bool :=
  state.location.equals other.location && state.pathCondition == other.pathCondition &&
    decide (state.mapping = other.mapping) && state.zone == other.zone

/-- Looks for the label anywhere in that of the location. -/
def isAcceptZSES (state : SymbolicState) : Bool :=
  Text.contains state.location.label Constants.locationLabelAccept

end SymbolicState

/-- The source and the target are references. -/
structure SymbolicTransition where
  sourceZSES : Nat
  symbolicAction : SymbolicAction
  clockGuard : ClockGuard
  clockAssignments : Option String
  deadline : Deadline
  targetZSES : Nat
  deriving DecidableEq

/-- A state with the references to its neighbours in the tree. -/
structure SymbolicNode where
  state : SymbolicState
  parentTransition : Option SymbolicTransition
  childrenTransitions : List SymbolicTransition
  deriving DecidableEq

namespace SymbolicNode

/-- A state that no transition touches yet. -/
def new (state : SymbolicState) : SymbolicNode := ⟨state, none, []⟩

def addChildTransition (childTransition : SymbolicTransition) (node : SymbolicNode) :
    SymbolicNode :=
  { node with childrenTransitions := node.childrenTransitions ++ [childTransition] }

def setParentTransition (parentTransition : SymbolicTransition) (node : SymbolicNode) :
    SymbolicNode :=
  { node with parentTransition := some parentTransition }

/-- The transitions to the children on input actions. -/
def getOutgoingInputTransitions (node : SymbolicNode) : List SymbolicTransition :=
  node.childrenTransitions.filter
    (fun transition => transition.symbolicAction.action.type == ActionType.input)

end SymbolicNode

/-- A tree as the list of its nodes. A reference is a position in it. -/
structure SymbolicExecutionTree where
  name : String
  initialZSES : Option Nat
  symbolicStates : List SymbolicNode
  deriving DecidableEq

namespace SymbolicExecutionTree

/-- The tree before its root is added. -/
def new (name : String) : SymbolicExecutionTree := ⟨name, none, []⟩

/-- A tree that consists of its initial state. -/
def ofInitial (name : String) (initialZSES : SymbolicState) : SymbolicExecutionTree :=
  ⟨name, some 0, [SymbolicNode.new initialZSES]⟩

def getNode (tree : SymbolicExecutionTree) (reference : Nat) : Option SymbolicNode :=
  tree.symbolicStates[reference]?

/-- The state that a reference leads to. -/
def getState (tree : SymbolicExecutionTree) (reference : Nat) : Option SymbolicState :=
  (tree.getNode reference).map SymbolicNode.state

/-- The reference that the next added state gets. -/
def next (tree : SymbolicExecutionTree) : Nat := tree.symbolicStates.length

/-- The new node is the last one, so that references stay valid. -/
def addSymbolicState (node : SymbolicNode) (tree : SymbolicExecutionTree) :
    SymbolicExecutionTree :=
  { tree with symbolicStates := tree.symbolicStates ++ [node] }

/-- Changes a state in place. -/
def updateNode (reference : Nat) (change : SymbolicNode → SymbolicNode)
    (tree : SymbolicExecutionTree) : SymbolicExecutionTree :=
  { tree with symbolicStates := tree.symbolicStates.modify reference change }

def setInitialZSES (initialZSES : Option Nat) (tree : SymbolicExecutionTree) :
    SymbolicExecutionTree :=
  { tree with initialZSES := initialZSES }

/-- The references of the accepting states, in the order they were added. -/
def getAcceptZSESs (tree : SymbolicExecutionTree) : List Nat :=
  (tree.symbolicStates.zipIdx.filter (fun entry => entry.1.state.isAcceptZSES)).map Prod.snd

section Lookups

variable (tree : SymbolicExecutionTree) (node : SymbolicNode)
  (change : SymbolicNode → SymbolicNode) (reference : Nat)

@[simp] theorem next_addSymbolicState :
    (tree.addSymbolicState node).next = tree.next + 1 := by
  simp [addSymbolicState, next]

@[simp] theorem next_updateNode (changed : Nat) :
    (tree.updateNode changed change).next = tree.next := by
  simp [updateNode, next]

theorem getNode_addSymbolicState :
    (tree.addSymbolicState node).getNode reference =
      if reference = tree.next then some node else tree.getNode reference := by
  unfold addSymbolicState getNode next
  simp only [List.getElem?_append]
  split
  · rename_i inside
    rw [if_neg (by omega)]
  · rename_i outside
    by_cases last : reference = tree.symbolicStates.length
    · simp [last]
    · have beyond : tree.symbolicStates[reference]? = none :=
        List.getElem?_eq_none (by omega)
      rw [if_neg last, beyond]
      apply List.getElem?_eq_none
      simp only [List.length_cons, List.length_nil]
      omega

theorem getNode_updateNode (changed : Nat) :
    (tree.updateNode changed change).getNode reference =
      if reference = changed then (tree.getNode reference).map change
      else tree.getNode reference := by
  unfold updateNode getNode
  rw [List.getElem?_modify]
  by_cases same : changed = reference
  · subst same
    simp
  · rw [if_neg (fun equal => same equal.symm)]
    simp [same]

theorem getNode_isSome_iff : (tree.getNode reference).isSome = true ↔ reference < tree.next := by
  simp [getNode, next]

theorem lt_next_of_getNode {tree : SymbolicExecutionTree} {reference : Nat}
    {node : SymbolicNode} (found : tree.getNode reference = some node) :
    reference < tree.next := by
  rw [← getNode_isSome_iff, found]
  rfl

theorem exists_getNode {tree : SymbolicExecutionTree} {reference : Nat}
    (inside : reference < tree.next) : ∃ node, tree.getNode reference = some node :=
  Option.isSome_iff_exists.mp ((tree.getNode_isSome_iff reference).mpr inside)

theorem mem_getAcceptZSESs : reference ∈ tree.getAcceptZSESs ↔
    ∃ node, tree.getNode reference = some node ∧ node.state.isAcceptZSES = true := by
  simp only [getAcceptZSESs, List.mem_map, List.mem_filter, getNode]
  constructor
  · rintro ⟨⟨node, position⟩, ⟨member, accept⟩, rfl⟩
    exact ⟨node, List.mk_mem_zipIdx_iff_getElem?.mp member, accept⟩
  · rintro ⟨node, found, accept⟩
    exact ⟨(node, reference), ⟨List.mk_mem_zipIdx_iff_getElem?.mpr found, accept⟩, rfl⟩

end Lookups

end SymbolicExecutionTree

end Symbolrt
