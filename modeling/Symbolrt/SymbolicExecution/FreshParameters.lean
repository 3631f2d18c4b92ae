import Symbolrt.Lib.Numbering
import Symbolrt.SymbolicExecution.RootPaths

/-!
# The symbolic ids of parameters

Every occurrence of an action parameter on a root path gets the next id of the
parameter.  The counter stands in the text of the current symbolic value, which no
assignment to a variable changes.
-/

namespace Symbolrt

/-- The names of the declared variables. -/
def TIOSTS.variableNames (tiosts : TIOSTS) : List String :=
  tiosts.modelVariables.map TypedData.name

open SymbolicExecution in
/-- Names avoid the separator, and variables are told apart from action parameters:
no action carries a variable, and assignments change nothing else. -/
structure TIOSTS.SeparatesParameters (tiosts : TIOSTS) : Prop where
  names : ∀ name ∈ tiosts.dataNames, '_' ∉ name.toList
  parameters : ∀ label, ∀ transition ∈ tiosts.outOf label,
    ∀ parameter ∈ transition.action.parameters, parameter ∉ tiosts.variableNames
  assignments : ∀ label, ∀ transition ∈ tiosts.outOf label,
    ∀ text ∈ transition.dataAssignments, ∀ assignment ∈ Text.split assignmentBar text,
      ∀ target ∈ (Text.split Constants.assignmentSymbol assignment).head?,
        Text.trim target ∈ tiosts.variableNames

/-- The parameters of a symbolic action with their ids. -/
def SymbolicAction.issuedIds (symbolicAction : SymbolicAction) : List (String × String) :=
  symbolicAction.action.parameters.zip symbolicAction.paramIds

namespace SymbolicExecution

open SynchronousProduct (initialLocationOf)
open Numbering

/-- The counter after a number of updates. -/
def counterAfter (updates : Nat) : Int := Int.bmod updates 4294967296

/-- The symbolic id that the numbered occurrence of a parameter gets. -/
def symbolicId (name : String) (number : Nat) : String :=
  symbolicValue name (printInt (counterAfter number))

theorem nextCounter_counterAfter (updates : Nat) :
    nextCounter (counterAfter updates) = counterAfter (updates + 1) := by
  unfold nextCounter counterAfter
  rw [Int.bmod_add_bmod]
  rfl

theorem counterAfter_isInt (updates : Nat) : IsInt (counterAfter updates) := by
  have lower := Int.le_bmod (x := updates) (m := 4294967296) (by omega)
  have upper := Int.bmod_lt (x := updates) (m := 4294967296) (by omega)
  unfold IsInt counterAfter
  omega

theorem counterAfter_small {updates : Nat} (small : updates < 2147483648) :
    counterAfter updates = updates :=
  Int.bmod_eq_of_le (by omega) (by omega)

theorem counterAfter_injective {updates other : Nat} (small : updates < 4294967296)
    (otherSmall : other < 4294967296) (same : counterAfter updates = counterAfter other) :
    updates = other := by
  have first := Int.bmod_add_bdiv updates 4294967296
  have second := Int.bmod_add_bdiv other 4294967296
  unfold counterAfter at same
  omega

theorem printInt_injective {value other : Int} (inRange : IsInt value) (otherInRange : IsInt other)
    (same : printInt value = printInt other) : value = other := by
  have read := parseInt_printInt inRange
  rw [same, parseInt_printInt otherInRange] at read
  exact (Except.ok.inj read).symm

theorem symbolicId_small (name : String) {number : Nat} (small : number < 2147483648) :
    symbolicId name number = symbolicValue name (Nat.repr number) := by
  unfold symbolicId
  rw [counterAfter_small small]
  rfl

theorem symbolicId_zero (name : String) :
    symbolicId name 0 = symbolicValue name Constants.symbolicValueInitial :=
  symbolicId_small name (by omega)

/-- Below the number of all counters, ids differ in the name or in the number. -/
theorem symbolicId_injOn : Set.InjOn (Function.uncurry symbolicId)
    {used | '_' ∉ used.1.toList ∧ used.2 < 4294967296} := by
  intro ⟨name, number⟩ ⟨avoids, small⟩ ⟨other, otherNumber⟩ ⟨otherAvoids, otherSmall⟩ same
  have whole : symbolicId name number = symbolicId other otherNumber := same
  have split := congrArg (Text.split Constants.symbolicValueSeparator) whole
  unfold symbolicId at split
  rw [split_symbolicValue avoids (separator_not_mem_printInt _) (printInt_ne_empty _),
    split_symbolicValue otherAvoids (separator_not_mem_printInt _) (printInt_ne_empty _)] at split
  obtain ⟨nameEq, rest⟩ := List.cons.inj split
  have counters := printInt_injective (counterAfter_isInt _) (counterAfter_isInt _)
    (List.cons.inj rest).1
  exact Prod.ext nameEq (counterAfter_injective small otherSmall counters)

section Steps

variable {tools : SymbolicTools} {tiosts : TIOSTS}

/-- The ids issued so far, and what the mapping knows of them. -/
structure Tracks (tiosts : TIOSTS) (issued : List (String × String))
    (symbolicValues : SymbolicMapping) : Prop where
  numbered : IsNumbered symbolicId issued
  declared : ∀ name id, (name, id) ∈ issued → name ∈ tiosts.dataNames
  current : ∀ name value, name ∉ tiosts.variableNames →
    symbolicValues.lookup name = some value →
      name ∈ tiosts.dataNames ∧ value = symbolicId name (count name issued)

theorem tracks_initial (tiosts : TIOSTS) : Tracks tiosts []
    (initializeSymbolicValues tiosts.modelVariables tiosts.actionParameters) where
  numbered := .start
  declared := by
    intro name id member
    cases member
  current := by
    intro name value _ found
    rw [lookup_initializeSymbolicValues] at found
    split at found
    · rename_i member
      exact ⟨member, (Option.some.inj found).symm.trans (symbolicId_zero name).symm⟩
    · cases found

/-- Updating a parameter issues its next id. -/
theorem Tracks.updateParameter (separates : tiosts.SeparatesParameters) {parameter : String}
    (isParameter : parameter ∉ tiosts.variableNames) {issued : List (String × String)}
    {update next : ParameterUpdate} (tracks : Tracks tiosts issued update.nextSymbolicValues)
    (updated : updateParameter update parameter = .ok next) :
    ∃ id, next.paramIds = update.paramIds ++ [id] ∧
      Tracks tiosts (issued ++ [(parameter, id)]) next.nextSymbolicValues := by
  obtain ⟨value, found, updated⟩ := bind_eq_ok.mp updated
  obtain ⟨id, counted, updated⟩ := bind_eq_ok.mp updated
  obtain rfl := Except.ok.inj updated
  obtain ⟨declared, valueEq⟩ := tracks.current parameter value isParameter (deref_eq_ok.mp found)
  have idEq : id = symbolicId parameter (count parameter issued + 1) := by
    rw [valueEq, symbolicId, updateSymbolicValue_eq (separates.names parameter declared)
      (counterAfter_isInt _), nextCounter_counterAfter] at counted
    exact (Except.ok.inj counted).symm
  refine ⟨id, rfl, ?_⟩
  constructor
  · rw [idEq]
    exact tracks.numbered.next parameter
  · intro name other member
    rcases List.mem_append.mp member with earlier | last
    · exact tracks.declared name other earlier
    · rw [(Prod.mk.inj (List.mem_singleton.mp last)).1]
      exact declared
  · intro name other notVariable known
    rw [count_concat]
    by_cases same : parameter = name
    · subst same
      rw [Finmap.lookup_insert] at known
      rw [if_pos rfl, ← idEq]
      exact ⟨declared, (Option.some.inj known).symm⟩
    · rw [Finmap.lookup_insert_of_ne _ (Ne.symm same)] at known
      rw [if_neg same]
      exact tracks.current name other notVariable known

theorem Tracks.updateParameters (separates : tiosts.SeparatesParameters)
    {parameters : List String} (areParameters : ∀ parameter ∈ parameters,
      parameter ∉ tiosts.variableNames) {issued : List (String × String)}
    {symbolicValues : SymbolicMapping} (tracks : Tracks tiosts issued symbolicValues)
    {update : ParameterUpdate}
    (updated : parameters.foldlM SymbolicExecution.updateParameter ⟨[], ∅, symbolicValues⟩ =
      .ok update) :
    update.paramIds.length = parameters.length ∧
      Tracks tiosts (issued ++ parameters.zip update.paramIds) update.nextSymbolicValues := by
  apply Loops.foldlM_returned (fun done state => state.paramIds.length = done.length ∧
    Tracks tiosts (issued ++ done.zip state.paramIds) state.nextSymbolicValues) updated
  · refine ⟨rfl, ?_⟩
    rw [List.zip_nil_left, List.append_nil]
    exact tracks
  · intro done parameter rest state next whole ⟨length, tracksHere⟩ stepped
    have isParameter := areParameters parameter (by simp [whole])
    obtain ⟨id, idsEq, tracksNext⟩ := tracksHere.updateParameter separates isParameter stepped
    rw [idsEq, List.zip_append length.symm, ← List.append_assoc]
    exact ⟨by simp [length], tracksNext⟩

/-- An assignment to a variable issues nothing. -/
theorem Tracks.assign {issued : List (String × String)} {symbolicValues next : SymbolicMapping}
    {assignment : String} (tracks : Tracks tiosts issued symbolicValues)
    (isVariable : ∀ target ∈ (Text.split Constants.assignmentSymbol assignment).head?,
      Text.trim target ∈ tiosts.variableNames)
    (assigned : updateSymbolicValueWithAssignment symbolicValues assignment = .ok next) :
    Tracks tiosts issued next := by
  unfold updateSymbolicValueWithAssignment at assigned
  split at assigned
  · rename_i target value others parts
    obtain rfl := Except.ok.inj assigned
    have targetIsVariable := isVariable target (by rw [parts]; rfl)
    refine ⟨tracks.numbered, tracks.declared, ?_⟩
    intro name known notVariable found
    have different : name ≠ Text.trim target := by
      intro same
      rw [same] at notVariable
      exact notVariable targetIsVariable
    rw [Finmap.lookup_insert_of_ne _ different] at found
    exact tracks.current name known notVariable found
  · cases assigned

theorem Tracks.updateAssignments (separates : tiosts.SeparatesParameters) {label : String}
    {transition : Transition} (inOut : transition ∈ tiosts.outOf label)
    {issued : List (String × String)} {symbolicValues next : SymbolicMapping}
    (tracks : Tracks tiosts issued symbolicValues)
    (assigned : updateSymbolicValueWithAssignments transition.dataAssignments symbolicValues =
      .ok next) : Tracks tiosts issued next := by
  cases text : transition.dataAssignments with
  | none =>
      rw [text] at assigned
      obtain rfl := Except.ok.inj assigned
      exact tracks
  | some dataAssignments =>
      rw [text] at assigned
      refine Loops.foldlM_returned (fun _ values => Tracks tiosts issued values) assigned tracks ?_
      intro done assignment rest values after whole tracksHere stepped
      exact tracksHere.assign (separates.assignments label transition inOut dataAssignments text
        assignment (by simp [whole])) stepped

theorem Tracks.nextZSES (separates : tiosts.SeparatesParameters) {label : String}
    {transition : Transition} (inOut : transition ∈ tiosts.outOf label)
    {issued : List (String × String)} {current next : SymbolicState}
    {symbolicAction : SymbolicAction} (tracks : Tracks tiosts issued current.mapping)
    (stepped : nextZSES tools tiosts current transition = .ok (symbolicAction, next)) :
    symbolicAction.paramIds.length = symbolicAction.action.parameters.length ∧
      Tracks tiosts (issued ++ symbolicAction.issuedIds) next.mapping := by
  obtain ⟨update, updated, stepped⟩ := bind_eq_ok.mp stepped
  obtain ⟨assigned, assignedEq, stepped⟩ := bind_eq_ok.mp stepped
  obtain ⟨zone, _, stepped⟩ := bind_eq_ok.mp stepped
  obtain ⟨target, _, stepped⟩ := bind_eq_ok.mp stepped
  obtain ⟨actionEq, stateEq⟩ := Prod.mk.inj (Except.ok.inj stepped)
  rw [← actionEq, ← stateEq]
  obtain ⟨length, tracksUpdate⟩ :=
    tracks.updateParameters separates (separates.parameters label transition inOut) updated
  exact ⟨length, tracksUpdate.updateAssignments separates inOut assignedEq⟩

end Steps

/-- The symbolic transitions from the initial state down to a state of the tree. -/
inductive RootPath (tree : SymbolicExecutionTree) : List SymbolicTransition → Nat → Prop where
  | root {reference : Nat} : tree.initialZSES = some reference → RootPath tree [] reference
  | step {path : List SymbolicTransition} {source : Nat} {node : SymbolicNode}
      {transition : SymbolicTransition} :
      RootPath tree path source → tree.getNode source = some node →
      transition ∈ node.childrenTransitions →
      RootPath tree (path ++ [transition]) transition.targetZSES

/-- The occurrences of parameters on a path with the ids created for them. -/
def occurrences (path : List SymbolicTransition) : List (String × String) :=
  path.flatMap (fun transition => transition.symbolicAction.issuedIds)

/-- All ids of parameters on a path. -/
def pathIds (path : List SymbolicTransition) : List String :=
  path.flatMap (fun transition => transition.symbolicAction.paramIds)

/-- Every occurrence of a parameter has an id. -/
def HasAllIds (path : List SymbolicTransition) : Prop :=
  ∀ transition ∈ path, transition.symbolicAction.paramIds.length =
    transition.symbolicAction.action.parameters.length

theorem pathIds_eq {path : List SymbolicTransition} (hasAll : HasAllIds path) :
    pathIds path = (occurrences path).map Prod.snd := by
  unfold pathIds occurrences
  rw [List.map_flatMap]
  apply List.flatMap_congr
  intro transition member
  unfold SymbolicAction.issuedIds
  rw [List.map_snd_zip (Nat.le_of_eq (hasAll transition member))]

section Paths

variable {tools : SymbolicTools} {tiosts : TIOSTS} {root : SymbolicState}
  {tree : SymbolicExecutionTree} {trace : Nat → Trace}

/-- What is known of the last state of a root path. -/
structure Reaches (tiosts : TIOSTS) (path : List SymbolicTransition) (state : SymbolicState) :
    Prop where
  located : ∃ label, tiosts.getLocation label = some state.location
  hasAll : HasAllIds path
  tracks : Tracks tiosts (occurrences path) state.mapping

/-- A child transition takes an outgoing transition of the model. -/
theorem IsExecutionTree.child_step (isTree : IsExecutionTree tools tiosts root tree trace)
    {source : Nat} {node : SymbolicNode} (found : tree.getNode source = some node)
    {symbolicTransition : SymbolicTransition}
    (member : symbolicTransition ∈ node.childrenTransitions) :
    ∃ target transition, tree.getNode symbolicTransition.targetZSES = some target ∧
      transition ∈ node.state.location.outTransitions ∧
      nextZSES tools tiosts node.state transition =
        .ok (symbolicTransition.symbolicAction, target.state) := by
  obtain ⟨sourceEq, target, targetFound, parent, _⟩ :=
    isTree.child source node found symbolicTransition member
  have notRoot : symbolicTransition.targetZSES ≠ 0 := by
    intro isRoot
    obtain ⟨rootNode, rootFound, _, noParent⟩ := isTree.rootNode
    rw [isRoot, rootFound] at targetFound
    rw [← Option.some.inj targetFound, noParent] at parent
    cases parent
  obtain ⟨same, sourceNode, choice, transition, sameParent, _, _, sourceFound, listed,
    stepped, _⟩ :=
    isTree.step targetFound notRoot
  rw [parent] at sameParent
  obtain rfl := Option.some.inj sameParent
  rw [sourceEq, found] at sourceFound
  obtain rfl := Option.some.inj sourceFound
  exact ⟨target, transition, targetFound, List.mem_of_getElem? listed, stepped⟩

theorem RootPath.reaches (separates : tiosts.SeparatesParameters) {location : Location}
    (isInitial : initialLocationOf tiosts = .ok location)
    (isTree : IsExecutionTree tools tiosts (initialState tools tiosts location) tree trace)
    {path : List SymbolicTransition} {reference : Nat} (isPath : RootPath tree path reference) :
    ∃ node, tree.getNode reference = some node ∧ Reaches tiosts path node.state := by
  induction isPath with
  | root isRoot =>
      rw [isTree.initial] at isRoot
      obtain rfl := Option.some.inj isRoot
      obtain ⟨node, found, state, _⟩ := isTree.rootNode
      refine ⟨node, found, ?_⟩
      rw [state]
      obtain ⟨label, _, located⟩ := bind_eq_ok.mp isInitial
      constructor
      · exact ⟨label, deref_eq_ok.mp located⟩
      · intro transition member
        cases member
      · exact tracks_initial tiosts
  | @step path source node symbolicTransition _ found member induction =>
      obtain ⟨same, sameFound, reaches⟩ := induction
      rw [found] at sameFound
      obtain rfl := Option.some.inj sameFound
      obtain ⟨target, transition, targetFound, listed, stepped⟩ := isTree.child_step found member
      obtain ⟨label, located⟩ := reaches.located
      have inOut : transition ∈ tiosts.outOf label := by
        rw [TIOSTS.outOf_eq _ _ located]
        exact listed
      obtain ⟨length, tracks⟩ := reaches.tracks.nextZSES separates inOut stepped
      refine ⟨target, targetFound, ?_⟩
      constructor
      · exact ⟨transition.target, nextZSES_target stepped⟩
      · intro other otherMember
        rcases List.mem_append.mp otherMember with earlier | last
        · exact reaches.hasAll other earlier
        · rw [List.mem_singleton.mp last]
          exact length
      · unfold occurrences
        rw [List.flatMap_append, List.flatMap_singleton]
        exact tracks

/-- On every root path the ids of a parameter are numbered in the order of its
occurrences. -/
theorem execute_reaches (separates : tiosts.SeparatesParameters) {rounds : Nat}
    (built : execute tools tiosts rounds = .ok tree) {path : List SymbolicTransition}
    {reference : Nat} (isPath : RootPath tree path reference) :
    ∃ node, tree.getNode reference = some node ∧ Reaches tiosts path node.state := by
  obtain ⟨location, trace, isInitial, isTree⟩ := execute_returned built
  exact isPath.reaches separates isInitial isTree

end Paths

/-- The ids created for a parameter on a path. -/
def parameterIds (parameter : String) (path : List SymbolicTransition) : List String :=
  idsOf parameter (occurrences path)

/-- The first symbolic ids of a name with the counters one, two, three and so on. -/
def firstIds (name : String) (length : Nat) : List String :=
  (List.range length).map (fun before => symbolicValue name (Nat.repr (before + 1)))

/-- The ids created for a parameter on a root path are numbered from one up, with a
counter that wraps around; as long as no counter is used up, all ids on the path differ
from each other and from the initial symbols. -/
theorem execute_parameterIds (tools : SymbolicTools) {tiosts : TIOSTS}
    (separates : tiosts.SeparatesParameters) {rounds : Nat} {tree : SymbolicExecutionTree}
    (built : execute tools tiosts rounds = .ok tree) {path : List SymbolicTransition}
    {reference : Nat} (isPath : RootPath tree path reference) :
    HasAllIds path ∧
      (∀ parameter, parameterIds parameter path =
        (List.range (parameterIds parameter path).length).map
          (fun before => symbolicId parameter (before + 1))) ∧
      (∀ parameter, (parameterIds parameter path).length < 2147483648 →
        parameterIds parameter path =
          firstIds parameter (parameterIds parameter path).length) ∧
      ((∀ parameter, (parameterIds parameter path).length < 4294967296) →
        (pathIds path).Nodup ∧ ∀ name ∈ tiosts.dataNames,
          symbolicValue name Constants.symbolicValueInitial ∉ pathIds path) := by
  obtain ⟨node, _, reaches⟩ := execute_reaches separates built isPath
  have numbered := reaches.tracks.numbered
  refine ⟨reaches.hasAll, numbered.idsOf_eq, ?_, ?_⟩
  · intro parameter few
    refine (numbered.idsOf_eq parameter).trans (List.map_congr_left ?_)
    intro before inside
    have small : before < (parameterIds parameter path).length := List.mem_range.mp inside
    exact symbolicId_small parameter (by omega)
  · intro few
    have used : ∀ name id, (name, id) ∈ occurrences path → ∀ number ≤ count name (occurrences path),
        (name, number) ∈ {used : String × Nat | '_' ∉ used.1.toList ∧ used.2 < 4294967296} := by
      intro name id member number below
      exact ⟨separates.names name (reaches.tracks.declared name id member),
        Nat.lt_of_le_of_lt below (few name)⟩
    rw [pathIds_eq reaches.hasAll]
    refine ⟨numbered.nodup symbolicId_injOn used, ?_⟩
    intro name member
    rw [← symbolicId_zero]
    exact numbered.zero_not_mem symbolicId_injOn used ⟨separates.names name member, by simp⟩

/-- The path that follows the first child transitions, as far as the given length. -/
def leftmost (tree : SymbolicExecutionTree) : Nat → Nat → List SymbolicTransition
  | 0, _ => []
  | length + 1, reference =>
      match tree.getNode reference with
      | none => []
      | some node =>
          match node.childrenTransitions with
          | [] => []
          | transition :: _ => transition :: leftmost tree length transition.targetZSES

theorem RootPath.leftmost {tree : SymbolicExecutionTree} {path : List SymbolicTransition}
    {reference : Nat} (isPath : RootPath tree path reference) (length : Nat) :
    ∃ last, RootPath tree (path ++ leftmost tree length reference) last := by
  induction length generalizing path reference with
  | zero => exact ⟨reference, by simpa [SymbolicExecution.leftmost] using isPath⟩
  | succ length induction =>
      unfold SymbolicExecution.leftmost
      split
      · exact ⟨reference, by simpa using isPath⟩
      · rename_i node found
        split
        · exact ⟨reference, by simpa using isPath⟩
        · rename_i transition others children
          have member : transition ∈ node.childrenTransitions := by
            rw [children]
            exact List.mem_cons_self
          obtain ⟨last, whole⟩ := induction (isPath.step found member)
          exact ⟨last, by simpa using whole⟩

namespace SharedParameters

def sense : Action := ⟨"a", .input, ["p", "q", "p"]⟩

def report : Action := ⟨"b", .output, ["p"]⟩

def declared : TIOSTS :=
  .declare "S" [LoopInstance.enter, sense, report] [⟨"x", .integer⟩]
    [⟨"p", .integer⟩, ⟨"q", .integer⟩] []

def transitions : List Transition :=
  [Transition.bare "r" LoopInstance.enter "n",
    { Transition.bare "n" sense "m" with
      dataGuard := .written "p > x", dataAssignments := some "x := p" },
    { Transition.bare "m" report "m" with dataGuard := .written "p = x" }]

/-- The parameter `p` is shared by two actions and stands twice in one of them. -/
def model : TIOSTS := .assemble declared ["r", "n", "m"] "r" transitions

theorem uses : declared.Uses ["r", "n", "m"] "r" transitions := by
  constructor
  · decide
  · simp only [transitions, List.forall_mem_cons, List.not_mem_nil, false_implies, implies_true,
      and_true, Transition.bare]
    decide

theorem mem_transitions {label : String} {transition : Transition}
    (member : transition ∈ model.outOf label) : transition ∈ transitions := by
  have blank : declared.IsBlank := TIOSTS.declare_isBlank _ _ _ _ _
  unfold model at member
  rw [TIOSTS.assemble_outOf blank uses] at member
  exact (List.mem_filter.mp member).1

theorem separates : model.SeparatesParameters := by
  constructor
  · unfold model
    rw [TIOSTS.assemble_dataNames]
    decide
  · have all : ∀ transition ∈ transitions, ∀ parameter ∈ transition.action.parameters,
        parameter ∉ ["x"] := by decide
    intro label transition member
    exact all transition (mem_transitions member)
  · have all : ∀ transition ∈ transitions, ∀ text ∈ transition.dataAssignments,
        ∀ assignment ∈ Text.split assignmentBar text,
          ∀ target ∈ (Text.split Constants.assignmentSymbol assignment).head?,
            Text.trim target ∈ ["x"] := by decide
    intro label transition member
    exact all transition (mem_transitions member)

end SharedParameters

open SharedParameters in
/-- Three occurrences of `p` on one path. -/
theorem execute_parameterIds_shared :
    ∃ rounds tree path reference, execute LoopInstance.tools model rounds = .ok tree ∧
      RootPath tree path reference ∧ parameterIds "p" path = ["p_1", "p_2", "p_3"] ∧
      (pathIds path).Nodup := by
  have ran : (execute LoopInstance.tools model 5).toOption.map (fun tree =>
      decide (tree.initialZSES = some 0 ∧
        occurrences (leftmost tree 3 0) =
          [("p", "p_1"), ("q", "q_1"), ("p", "p_2"), ("p", "p_3")])) = some true := by
    decide +kernel
  obtain ⟨tree, built, checked⟩ := exists_checked ran
  obtain ⟨isInitial, issued⟩ := of_decide_eq_true checked
  obtain ⟨reference, isPath⟩ := (RootPath.root isInitial).leftmost 3
  have ids : ∀ parameter, parameterIds parameter (leftmost tree 3 0) = idsOf parameter
      [("p", "p_1"), ("q", "q_1"), ("p", "p_2"), ("p", "p_3")] := fun parameter =>
    congrArg (idsOf parameter) issued
  obtain ⟨_, _, few, distinct⟩ :=
    execute_parameterIds LoopInstance.tools separates built isPath
  refine ⟨5, tree, _, reference, built, isPath, ?_, ?_⟩
  · refine (few "p" ?_).trans ?_
    · rw [List.nil_append, ids]
      decide
    · rw [List.nil_append, ids]
      decide
  · refine (distinct ?_).1
    intro parameter
    rw [List.nil_append, ids]
    exact Nat.lt_of_le_of_lt (count_le_length parameter _) (by decide)

section Children

variable {tools : SymbolicTools} {tiosts : TIOSTS} {isParameter : String → Prop}
  {root : SymbolicState} {tree : SymbolicExecutionTree} {trace : Nat → Trace}

theorem nextZSES_action {current next : SymbolicState} {transition : Transition}
    {symbolicAction : SymbolicAction}
    (stepped : nextZSES tools tiosts current transition = .ok (symbolicAction, next)) :
    symbolicAction.action = transition.action := by
  obtain ⟨_, _, stepped⟩ := bind_eq_ok.mp stepped
  obtain ⟨_, _, stepped⟩ := bind_eq_ok.mp stepped
  obtain ⟨_, _, stepped⟩ := bind_eq_ok.mp stepped
  obtain ⟨_, _, stepped⟩ := bind_eq_ok.mp stepped
  rw [← (Prod.mk.inj (Except.ok.inj stepped)).1]

/-- A transition whose target is reachable and within the bound makes a child. -/
theorem IsExecutionTree.exists_child (isTree : IsExecutionTree tools tiosts root tree trace)
    {source : Nat} {node : SymbolicNode} (found : tree.getNode source = some node) {choice : Nat}
    {transition : Transition}
    (listed : node.state.location.outTransitions[choice]? = some transition)
    {symbolicAction : SymbolicAction} {next : SymbolicState}
    (stepped : nextZSES tools tiosts node.state transition = .ok (symbolicAction, next))
    (answered : isReachable tools (varParamMapping tiosts) next = .ok true)
    (free : occursTwice next.location (trace source).history = false) :
    ∃ child ∈ node.childrenTransitions, child.symbolicAction = symbolicAction ∧
      ∃ target, tree.getNode child.targetZSES = some target ∧ target.state = next ∧
        (trace child.targetZSES).history = next :: (trace source).history := by
  obtain ⟨above, history⟩ := isTree.head found
  rw [history] at free
  have outcome : branchOf tools tiosts (node.state :: above) transition =
      .ok (some ⟨symbolicAction, transition.clockGuard, transition.clockAssignments,
        transition.deadline, next⟩) := by
    simp only [branchOf, stepped, ok_bind, answered, free]
    rfl
  rw [← history] at outcome
  have whole : (outgoing (trace source).history)[choice]? = some transition := by
    rw [history]
    exact listed
  have chosen := choose_of_branchOf whole outcome
  have listed : (choice, _) ∈ branchesUpTo tools tiosts (trace source).history
      (degree (trace source).history) := mem_branchesUpTo.mpr ⟨choose_lt chosen, chosen⟩
  have entry := List.mem_map_of_mem (f := fun entry : Nat × Branch =>
    ((trace source).choices ++ [entry.1], some entry.2)) listed
  rw [← isTree.children source node found] at entry
  obtain ⟨child, member, same⟩ := List.mem_map.mp entry
  obtain ⟨_, target, targetFound, _, targetHistory⟩ := isTree.child source node found child member
  have branch := (Prod.mk.inj same).2
  simp only [branchAt, SymbolicExecutionTree.getState, targetFound, Option.map_some,
    Option.some.injEq, Branch.mk.injEq] at branch
  refine ⟨child, member, branch.1, target, targetFound, branch.2.2.2.2, ?_⟩
  rw [targetHistory, branch.2.2.2.2]

end Children

namespace RepeatedParameter

/-- An action that carries its only parameter the given number of times. -/
def receive (times : Nat) : Action := ⟨"a", .input, List.replicate times "p"⟩

def declared (times : Nat) : TIOSTS :=
  .declare "W" [receive times] [] [⟨"p", .integer⟩] []

def transitions (times : Nat) : List Transition :=
  [Transition.bare "r" (receive times) "n", Transition.bare "n" (receive times) "n"]

def model (times : Nat) : TIOSTS := .assemble (declared times) ["r", "n"] "r" (transitions times)

section Model

variable (times : Nat)

theorem uses : (declared times).Uses ["r", "n"] "r" (transitions times) := by
  constructor
  · decide
  · intro transition member
    rcases List.mem_pair.mp member with same | same
    · rw [same]
      exact ⟨by simp [Transition.bare], by simp [Transition.bare], rfl⟩
    · rw [same]
      exact ⟨by simp [Transition.bare], by simp [Transition.bare], rfl⟩

theorem outOf_eq (label : String) : (model times).outOf label =
    (transitions times).filter (fun transition => label = transition.source) :=
  TIOSTS.assemble_outOf (TIOSTS.declare_isBlank _ _ _ _ _) (uses times) _

theorem bare_of_mem {label : String} {transition : Transition}
    (member : transition ∈ (model times).outOf label) :
    ∃ source, transition = Transition.bare source (receive times) "n" := by
  rw [outOf_eq] at member
  rcases List.mem_pair.mp (List.mem_filter.mp member).1 with same | same
  · exact ⟨"r", same⟩
  · exact ⟨"n", same⟩

theorem dataNames_eq : (model times).dataNames = ["p"] := TIOSTS.assemble_dataNames

theorem wellFormed : (model times).WellFormed :=
  TIOSTS.assemble_wellFormed (TIOSTS.declare_isBlank _ _ _ _ _) (uses times)

theorem separates : (model times).SeparatesParameters := by
  constructor
  · rw [dataNames_eq]
    decide
  · intro label transition _ parameter _ member
    cases member
  · intro label transition member text assigned
    obtain ⟨source, rfl⟩ := bare_of_mem times member
    cases assigned

theorem executable : (model times).IsExecutable (fun name => name = "p") := by
  constructor
  · rw [dataNames_eq]
    decide
  · intro label transition member parameter carried
    obtain ⟨source, rfl⟩ := bare_of_mem times member
    have same : parameter = "p" := (List.mem_replicate.mp carried).2
    rw [dataNames_eq, same]
    exact ⟨rfl, List.mem_singleton.mpr rfl⟩
  · intro label transition member
    obtain ⟨source, rfl⟩ := bare_of_mem times member
    exact (by decide : '_' ∉ "TRUE".toList)
  · intro label transition member text assigned
    obtain ⟨source, rfl⟩ := bare_of_mem times member
    cases assigned
  · intro label transition member text assigned
    obtain ⟨source, rfl⟩ := bare_of_mem times member
    cases assigned

theorem isReachable_of_sound {state : SymbolicState}
    (sound : IsSoundState (model times) (fun name => name = "p") state) :
    isReachable LoopInstance.tools (varParamMapping (model times)) state = .ok true := by
  obtain ⟨answer, answered⟩ := isPathConditionSatisfied_ok LoopInstance.tools sound.clean
  obtain ⟨input, _, answerEq⟩ := bind_eq_ok.mp answered
  have satisfiable : answer = true := (Except.ok.inj answerEq).symm
  rw [satisfiable] at answered
  exact isReachable_eq_ok_true.mpr
    ⟨answered, (by decide : (Text.trim "0" != "0") = false)⟩

section Tree

variable {times} {location : Location} {tree : SymbolicExecutionTree} {trace : Nat → Trace}
  (isTree : IsExecutionTree LoopInstance.tools (model times)
    (initialState LoopInstance.tools (model times) location) tree trace)

include isTree

/-- As long as `n` does not stand on the path twice, another action follows. -/
theorem exists_step {source : Nat} {node : SymbolicNode} (found : tree.getNode source = some node)
    (sound : ∀ state ∈ (trace source).history,
      IsSoundState (model times) (fun name => name = "p") state)
    (labelled : node.state.location.label = "r" ∨ node.state.location.label = "n")
    (few : (labels (trace source).history).count "n" < 2) :
    ∃ child ∈ node.childrenTransitions, child.symbolicAction.action = receive times ∧
      ∃ target, tree.getNode child.targetZSES = some target ∧
        target.state.location.label = "n" ∧
        (trace child.targetZSES).history = target.state :: (trace source).history ∧
        ∀ state ∈ (trace child.targetZSES).history,
          IsSoundState (model times) (fun name => name = "p") state := by
  obtain ⟨above, history⟩ := isTree.head found
  have soundHere := sound node.state (by rw [history]; exact List.mem_cons_self)
  have listed : ∃ label, node.state.location.outTransitions[0]? =
      some (Transition.bare label (receive times) "n") := by
    have outgoing := TIOSTS.outOf_eq _ _ soundHere.registers
    rw [outOf_eq] at outgoing
    rw [← outgoing]
    rcases labelled with isRoot | isLoop
    · rw [isRoot]
      exact ⟨"r", rfl⟩
    · rw [isLoop]
      exact ⟨"n", rfl⟩
  obtain ⟨label, listed⟩ := listed
  obtain ⟨symbolicAction, next, stepped, soundNext⟩ := nextZSES_ok LoopInstance.tools
    (wellFormed times) (executable times) soundHere (List.mem_of_getElem? listed)
  have targetLabel : next.location.label = "n" :=
    (wellFormed times).label_eq (nextZSES_target stepped)
  have free : occursTwice next.location (trace source).history = false := by
    refine (occursTwice_eq_false_iff soundNext.registers ?_).mpr ?_
    · exact fun state member => (sound state member).registers
    · rw [targetLabel]
      exact few
  obtain ⟨child, member, actionEq, target, targetFound, targetEq, targetHistory⟩ :=
    isTree.exists_child found listed stepped (isReachable_of_sound times soundNext) free
  have action : symbolicAction.action = receive times := nextZSES_action stepped
  refine ⟨child, member, by rw [actionEq, action], target, targetFound, ?_, ?_, ?_⟩
  · rw [targetEq, targetLabel]
  · rw [targetHistory, targetEq]
  · intro state inHistory
    rw [targetHistory] at inHistory
    rcases List.mem_cons.mp inHistory with same | earlier
    · rw [same]
      exact soundNext
    · exact sound state earlier

end Tree

theorem exists_tree :
    ∃ rounds tree, execute LoopInstance.tools (model times) rounds = .ok tree := by
  have found : (model times).initialLocation = some "r" := TIOSTS.assemble_initialLocation
  obtain ⟨location, registered, _⟩ := (wellFormed times).initial_registered found
  have isInitial : initialLocationOf (model times) = .ok location := by
    rw [initialLocationOf_eq_ok (wellFormed times), (wellFormed times).label_eq registered]
    exact ⟨found, registered⟩
  have registers := initialLocationOf_registers (wellFormed times) isInitial
  exact execute_returns isInitial
    (computable_of_executable (wellFormed times) (executable times) registers)
    (finite_runs (wellFormed times) registers)

/-- Some root path takes both transitions. -/
theorem exists_path : ∃ rounds tree path reference,
    execute LoopInstance.tools (model times) rounds = .ok tree ∧ RootPath tree path reference ∧
      path.map (fun transition => transition.symbolicAction.action) =
        [receive times, receive times] := by
  obtain ⟨rounds, tree, built⟩ := exists_tree times
  obtain ⟨location, trace, isInitial, isTree⟩ := execute_returned built
  have registers := initialLocationOf_registers (wellFormed times) isInitial
  have isRoot : location.label = "r" := by
    have named := ((initialLocationOf_eq_ok (wellFormed times)).mp isInitial).1
    exact (Option.some.inj (TIOSTS.assemble_initialLocation.symm.trans named)).symm
  obtain ⟨root, rootFound, rootState, _⟩ := isTree.rootNode
  have rootHistory : (trace 0).history =
      [initialState LoopInstance.tools (model times) location] :=
    congrArg Trace.history isTree.rootTrace
  obtain ⟨first, firstMember, firstAction, middle, middleFound, middleLabel, middleHistory,
      middleSound⟩ := exists_step isTree rootFound
    (by
      intro state member
      rw [rootHistory, List.mem_singleton] at member
      rw [member]
      exact isSoundState_initial (executable times) registers)
    (Or.inl (by rw [rootState]; exact isRoot))
    (by
      rw [rootHistory]
      exact Nat.lt_of_le_of_lt List.count_le_length (by simp [labels]))
  obtain ⟨second, secondMember, secondAction, last, _⟩ := exists_step isTree middleFound
    middleSound (Or.inr middleLabel)
    (by
      rw [middleHistory, rootHistory]
      simp [labels, initialState, isRoot, middleLabel])
  refine ⟨rounds, tree, [first] ++ [second], second.targetZSES, built, ?_, ?_⟩
  · exact ((RootPath.root isTree.initial).step rootFound firstMember).step middleFound secondMember
  · rw [List.map_append, List.map_singleton, List.map_singleton, firstAction, secondAction]
    rfl

theorem count_occurrences {path : List SymbolicTransition} (hasAll : HasAllIds path)
    (actions : path.map (fun transition => transition.symbolicAction.action) =
      [receive times, receive times]) : (parameterIds "p" path).length = times + times := by
  have carried : ∀ transition ∈ path, transition.symbolicAction.action = receive times := by
    intro transition member
    have listed := List.mem_map_of_mem
      (f := fun transition : SymbolicTransition => transition.symbolicAction.action) member
    rw [actions] at listed
    simpa using listed
  have keys : (occurrences path).filter (fun entry => entry.1 = "p") = occurrences path := by
    apply List.filter_eq_self.mpr
    intro entry member
    obtain ⟨transition, inPath, issued⟩ := List.mem_flatMap.mp member
    have key := (List.of_mem_zip issued).1
    rw [carried transition inPath] at key
    exact decide_eq_true (List.mem_replicate.mp key).2
  have lengths : path.map (fun transition => transition.symbolicAction.issuedIds.length) =
      (path.map (fun transition => transition.symbolicAction.action)).map
        (fun action => action.parameters.length) := by
    rw [List.map_map]
    apply List.map_congr_left
    intro transition member
    unfold SymbolicAction.issuedIds
    rw [List.length_zip, hasAll transition member, Nat.min_self]
    rfl
  unfold parameterIds idsOf
  rw [keys, List.length_map, occurrences, List.length_flatMap, lengths, actions]
  simp [receive]

end Model

end RepeatedParameter

open RepeatedParameter in
/-- An action that carries `p` 1073741824 times is taken twice on a path: the last id has
a negative counter. -/
theorem execute_wrapped_counter :
    (model 1073741824).SeparatesParameters ∧ ∃ rounds tree path reference,
      execute LoopInstance.tools (model 1073741824) rounds = .ok tree ∧
        RootPath tree path reference ∧
        parameterIds "p" path ≠ firstIds "p" (parameterIds "p" path).length := by
  refine ⟨separates _, ?_⟩
  obtain ⟨rounds, tree, path, reference, built, isPath, actions⟩ := exists_path 1073741824
  obtain ⟨node, _, reaches⟩ := execute_reaches (separates _) built isPath
  refine ⟨rounds, tree, path, reference, built, isPath, ?_⟩
  have length : (parameterIds "p" path).length = 2147483648 :=
    count_occurrences 1073741824 reaches.hasAll actions
  intro same
  have ids := (reaches.tracks.numbered.idsOf_eq "p").symm.trans same
  have last : ∀ id : Nat → String, ((List.range (parameterIds "p" path).length).map
      (fun before => id (before + 1)))[2147483647]? = some (id 2147483648) := by
    intro id
    rw [List.getElem?_map, List.getElem?_range (by omega)]
    rfl
  have different : symbolicId "p" 2147483648 = symbolicValue "p" (Nat.repr 2147483648) := by
    have entries := congrArg (fun ids : List String => ids[2147483647]?) ids
    exact Option.some.inj ((last (symbolicId "p")).symm.trans
      (entries.trans (last (fun number => symbolicValue "p" (Nat.repr number)))))
  exact absurd different (by decide)

end SymbolicExecution

end Symbolrt
