import Symbolrt.SymbolicExecution.ConcreteRuns
import Symbolrt.SymbolicExecution.PathConditions

/-!
# Symbolic paths simulate concrete runs

The mapping of a symbolic state names the symbols whose values the store of the concrete
run holds, so the path condition holds under a valuation exactly if the concrete run
passes all guards.
-/

namespace Symbolrt

namespace SymbolicExecution

open Expression (Tree Value Interpretation Holds)
open SynchronousProduct (initialLocationOf)
open Numbering

section Steps

variable {tools : SymbolicTools} {tiosts : TIOSTS} {valuation : Interpretation}

/-- What the mapping says of the store, given the ids issued so far. -/
structure Simulates (tiosts : TIOSTS) (valuation : Interpretation)
    (issued : List (String × String)) (concrete : ConcreteState)
    (symbolicValues : SymbolicMapping) : Prop where
  tracks : Tracks tiosts issued symbolicValues
  counted : ∀ name, count name issued = concrete.received name
  keys : ∀ name, (symbolicValues.lookup name).isSome = true ↔ name ∈ tiosts.dataNames
  single : NamesSingleWords symbolicValues
  values : (store valuation symbolicValues).symbol = concrete.store

theorem Simulates.identifiers {issued : List (String × String)} {concrete : ConcreteState}
    {symbolicValues : SymbolicMapping} (compares : tiosts.ComparesData)
    (simulates : Simulates tiosts valuation issued concrete symbolicValues) :
    NamesIdentifiers symbolicValues := by
  intro name text found
  apply compares.names name
  apply (simulates.keys name).mp
  rw [found]
  rfl

theorem Simulates.meaning_eq {issued : List (String × String)} {concrete : ConcreteState}
    {symbolicValues : SymbolicMapping}
    (simulates : Simulates tiosts valuation issued concrete symbolicValues) :
    store valuation symbolicValues = concrete.meaning valuation :=
  congrArg (fun symbol => ({ valuation with symbol := symbol } : Interpretation)) simulates.values

theorem store_insert {symbolicValues : SymbolicMapping} {name text : String}
    (isSingle : IsSingleWord text) :
    (store valuation (symbolicValues.insert name text)).symbol =
      Function.update (store valuation symbolicValues).symbol name (valuation.word text) := by
  funext other
  unfold store
  by_cases same : other = name
  · subst same
    simp only [Finmap.lookup_insert, Function.update_self, isSingle.value, Option.getD_some]
  · simp only [Finmap.lookup_insert_of_ne _ same, Function.update_of_ne same]

theorem NamesSingleWords.insert {symbolicValues : SymbolicMapping}
    (single : NamesSingleWords symbolicValues) {name text : String}
    (isSingle : IsSingleWord text) : NamesSingleWords (symbolicValues.insert name text) := by
  intro other otherText found
  by_cases same : other = name
  · rw [same, Finmap.lookup_insert] at found
    rw [← Option.some.inj found]
    exact isSingle
  · rw [Finmap.lookup_insert_of_ne _ same] at found
    exact single other otherText found

theorem NamesSingleWords.word_store {symbolicValues : SymbolicMapping}
    (single : NamesSingleWords symbolicValues) (identifiers : NamesIdentifiers symbolicValues)
    (word : String) : (store valuation symbolicValues).word word =
      valuation.word (symbolicValueOf symbolicValues word) := by
  have whole := congrArg (fun meaning => meaning.word word) (store_meaning identifiers valuation)
  refine whole.symm.trans ?_
  exact congrArg valuation.meaning.value (single.valueTree_eq word)

theorem keys_insert {symbolicValues : SymbolicMapping}
    (keys : ∀ name, (symbolicValues.lookup name).isSome = true ↔ name ∈ tiosts.dataNames)
    {declared : String} (isDeclared : declared ∈ tiosts.dataNames) (text name : String) :
    ((symbolicValues.insert declared text).lookup name).isSome = true ↔
      name ∈ tiosts.dataNames := by
  by_cases same : name = declared
  · rw [same, Finmap.lookup_insert]
    exact ⟨fun _ => isDeclared, fun _ => rfl⟩
  · rw [Finmap.lookup_insert_of_ne _ same]
    exact keys name

theorem simulates_initial (compares : tiosts.ComparesData) :
    Simulates tiosts valuation [] (ConcreteState.start valuation tiosts)
      (initializeSymbolicValues tiosts.modelVariables tiosts.actionParameters) := by
  have initialWord : ∀ name ∈ tiosts.dataNames,
      IsIdentifier (symbolicValue name Constants.symbolicValueInitial) :=
    fun name member => (compares.names name member).symbolicValue 0
  constructor
  · exact tracks_initial tiosts
  · exact fun _ => rfl
  · intro name
    rw [lookup_initializeSymbolicValues]
    by_cases member : name ∈ tiosts.dataNames <;> simp [member]
  · intro name text found
    rw [lookup_initializeSymbolicValues] at found
    split at found
    · rename_i member
      rw [← Option.some.inj found]
      exact (initialWord name member).isSingleWord
    · cases found
  · funext name
    unfold store ConcreteState.start
    simp only [lookup_initializeSymbolicValues]
    by_cases member : name ∈ tiosts.dataNames
    · have word := initialWord name member
      simp only [if_pos member, word.isSingleWord.value, word.word_eq, Option.getD_some]
    · simp only [if_neg member]

/-- Updating a parameter gives it the symbol of the next value received. -/
theorem Simulates.receive (compares : tiosts.ComparesData) {parameter : String}
    (isParameter : parameter ∉ tiosts.variableNames) {issued : List (String × String)}
    {concrete : ConcreteState} {update next : ParameterUpdate}
    (simulates : Simulates tiosts valuation issued concrete update.nextSymbolicValues)
    (small : concrete.received parameter + 1 < 2147483648)
    (updated : updateParameter update parameter = .ok next) :
    ∃ id, next.paramIds = update.paramIds ++ [id] ∧
      Simulates tiosts valuation (issued ++ [(parameter, id)])
        (concrete.receive valuation parameter) next.nextSymbolicValues := by
  obtain ⟨id, idsEq, tracks⟩ :=
    simulates.tracks.updateParameter compares.separates isParameter updated
  refine ⟨id, idsEq, ?_⟩
  obtain ⟨value, found, updated⟩ := bind_eq_ok.mp updated
  obtain ⟨newId, _, updated⟩ := bind_eq_ok.mp updated
  obtain rfl := Except.ok.inj updated
  obtain ⟨declared, idEq⟩ := tracks.current parameter newId isParameter (Finmap.lookup_insert _)
  have number : count parameter (issued ++ [(parameter, id)]) =
      concrete.received parameter + 1 := by
    rw [count_concat, if_pos rfl, simulates.counted]
  rw [number, symbolicId_small parameter small] at idEq
  have isIdentifier := (compares.names parameter declared).symbolicValue
    (concrete.received parameter + 1)
  rw [← idEq] at isIdentifier
  constructor
  · exact tracks
  · intro name
    rw [count_concat, simulates.counted]
    by_cases same : parameter = name
    · subst same
      simp [ConcreteState.receive]
    · simp [ConcreteState.receive, same, Ne.symm same]
  · exact keys_insert simulates.keys declared newId
  · exact simulates.single.insert isIdentifier.isSingleWord
  · rw [store_insert isIdentifier.isSingleWord, simulates.values, isIdentifier.word_eq, idEq]
    rfl

theorem Simulates.receiveAll (compares : tiosts.ComparesData) {parameters : List String}
    (areParameters : ∀ parameter ∈ parameters, parameter ∉ tiosts.variableNames)
    {issued : List (String × String)} {concrete : ConcreteState} {symbolicValues : SymbolicMapping}
    (simulates : Simulates tiosts valuation issued concrete symbolicValues)
    (small : ∀ parameter, concrete.received parameter + parameters.count parameter < 2147483648)
    {update : ParameterUpdate}
    (updated : parameters.foldlM updateParameter ⟨[], ∅, symbolicValues⟩ = .ok update) :
    ∃ others, Simulates tiosts valuation (issued ++ others)
      (concrete.receiveAll valuation parameters) update.nextSymbolicValues := by
  apply Loops.foldlM_returned (fun done state => ∃ others, Simulates tiosts valuation
    (issued ++ others) (concrete.receiveAll valuation done) state.nextSymbolicValues) updated
  · refine ⟨[], ?_⟩
    rw [List.append_nil]
    exact simulates
  · intro done parameter rest state next whole ⟨others, simulatesHere⟩ stepped
    have isParameter := areParameters parameter (by simp [whole])
    have smallHere : (concrete.receiveAll valuation done).received parameter + 1 < 2147483648 := by
      have bound := small parameter
      rw [whole, List.count_append, List.count_cons_self] at bound
      rw [ConcreteState.received_receiveAll]
      omega
    obtain ⟨id, _, simulatesNext⟩ := simulatesHere.receive compares isParameter smallHere stepped
    refine ⟨others ++ [(parameter, id)], ?_⟩
    rw [← List.append_assoc]
    have snoc : concrete.receiveAll valuation (done ++ [parameter]) =
        (concrete.receiveAll valuation done).receive valuation parameter :=
      List.foldl_concat _ _ _ _
    rw [snoc]
    exact simulatesNext

/-- An assignment copies a value in the store, and its text in the mapping. -/
theorem Simulates.assign (compares : tiosts.ComparesData) {issued : List (String × String)}
    {concrete : ConcreteState} {symbolicValues next : SymbolicMapping} {assignment : String}
    (isVariable : ∀ target ∈ (Text.split Constants.assignmentSymbol assignment).head?,
      Text.trim target ∈ tiosts.variableNames)
    (copies : ∀ value ∈ (Text.split Constants.assignmentSymbol assignment)[1]?,
      IsSingleWord (Text.trim value))
    (simulates : Simulates tiosts valuation issued concrete symbolicValues)
    (tracks : Tracks tiosts issued next)
    (assigned : updateSymbolicValueWithAssignment symbolicValues assignment = .ok next) :
    Simulates tiosts valuation issued (concrete.assign valuation assignment) next := by
  unfold updateSymbolicValueWithAssignment at assigned
  split at assigned
  · rename_i target value others parts
    have isSingle := copies value (by rw [parts]; rfl)
    have targetIsVariable := isVariable target (by rw [parts]; rfl)
    have newSingle : IsSingleWord (symbolicValueOf symbolicValues (Text.trim value)) := by
      unfold symbolicValueOf
      cases found : symbolicValues.lookup (Text.trim value) with
      | none => exact isSingle
      | some text => exact simulates.single _ _ found
    have sameValue : valuation.word (symbolicValueOf symbolicValues (Text.trim value)) =
        (concrete.meaning valuation).word (Text.trim value) := by
      rw [← simulates.meaning_eq]
      exact (simulates.single.word_store (simulates.identifiers compares) _).symm
    have declared : Text.trim target ∈ tiosts.dataNames := by
      rw [TIOSTS.dataNames, List.map_append]
      exact List.mem_append_left _ targetIsVariable
    rw [isSingle.updateExpression_eq] at assigned
    obtain rfl := Except.ok.inj assigned
    constructor
    · exact tracks
    · intro name
      rw [ConcreteState.received_assign]
      exact simulates.counted name
    · exact keys_insert simulates.keys declared _
    · exact simulates.single.insert newSingle
    · rw [store_insert newSingle, simulates.values, sameValue, ConcreteState.assign, parts]
      simp only [isSingle.value, Option.getD_some]
  · cases assigned

theorem Simulates.assignAll (compares : tiosts.ComparesData) {label : String}
    {transition : Transition} (inOut : transition ∈ tiosts.outOf label)
    {issued : List (String × String)} {concrete : ConcreteState}
    {symbolicValues next : SymbolicMapping}
    (simulates : Simulates tiosts valuation issued concrete symbolicValues)
    (assigned : updateSymbolicValueWithAssignments transition.dataAssignments symbolicValues =
      .ok next) :
    Simulates tiosts valuation issued
      (concrete.assignAll valuation transition.dataAssignments) next := by
  cases text : transition.dataAssignments with
  | none =>
      rw [text] at assigned
      obtain rfl := Except.ok.inj assigned
      exact simulates
  | some dataAssignments =>
      rw [text] at assigned
      apply Loops.foldlM_returned (fun done values => Simulates tiosts valuation issued
        (done.foldl (ConcreteState.assign valuation) concrete) values) assigned simulates
      intro done assignment rest values after whole simulatesHere stepped
      have listed : assignment ∈ Text.split assignmentBar dataAssignments := by simp [whole]
      have targets := compares.separates.assignments label transition inOut dataAssignments text
        assignment listed
      rw [List.foldl_concat]
      exact simulatesHere.assign compares targets
        (compares.assigned label transition inOut dataAssignments text assignment listed)
        (simulatesHere.tracks.assign targets stepped) stepped

/-- A conjunction of comparisons has neither alternatives nor an equivalence at its root. -/
theorem startsAbove_of_comparisons {tree : Tree}
    (grouped : Precedence.Grouped Expression.grammar tree)
    (isConjunction : isConjunctionOfComparisons tree = true) :
    Precedence.StartsAbove Expression.grammar 1 tree := by
  by_contra low
  obtain ⟨operator, left, right, rfl, below⟩ := grouped.exists_root low
  cases operator with
  | equivalent => cases left <;> cases right <;> cases isConjunction
  | or => cases left <;> cases right <;> cases isConjunction
  | _ => exact absurd below (by decide)

/-- The instantiated guard says of the symbols what the guard says of the store. -/
theorem Simulates.guard (compares : tiosts.ComparesData) {label : String}
    {transition : Transition} (inOut : transition ∈ tiosts.outOf label)
    {issued : List (String × String)} {concrete : ConcreteState} {symbolicValues : SymbolicMapping}
    (simulates : Simulates tiosts valuation issued concrete symbolicValues) {guard : String}
    (instantiated : guard = if transition.dataGuard.text = Constants.guardTrue then
      transition.dataGuard.text else updateExpression transition.dataGuard.text symbolicValues) :
    IsPlain guard ∧ (Holds valuation guard ↔
      Holds (concrete.meaning valuation) transition.dataGuard.text) := by
  by_cases isTrue : transition.dataGuard.text = Constants.guardTrue
  · rw [if_pos isTrue] at instantiated
    rw [instantiated, isTrue]
    refine ⟨⟨_, read_true, by decide⟩, ?_⟩
    exact iff_of_true (holds_true valuation) (holds_true _)
  · rw [if_neg isTrue] at instantiated
    obtain ⟨plain, tree, isRead, isConjunction⟩ :=
      (compares.guards label transition inOut).resolve_left isTrue
    have identifiers := simulates.identifiers compares
    have updated := simulates.single.read_updated identifiers plain isRead
    have starts := startsAbove_of_comparisons (Expression.print_of_read isRead).2 isConjunction
    rw [instantiated]
    constructor
    · refine ⟨_, updated, ?_⟩
      exact (Precedence.startsAbove_bind_words
        (fun name => ⟨_, simulates.single.valueTree_eq name⟩) 1 tree).mpr starts
    · rw [Holds, Holds, simulates.single.value_updated identifiers plain isRead,
        simulates.meaning_eq]

end Steps

/-- The transitions of the model that the root path to a state of the tree takes. -/
inductive TakesTransitions (tools : SymbolicTools) (tiosts : TIOSTS)
    (tree : SymbolicExecutionTree) : List Transition → Nat → Prop where
  | root {reference : Nat} :
      tree.initialZSES = some reference → TakesTransitions tools tiosts tree [] reference
  | step {path : List Transition} {source : Nat} {node target : SymbolicNode}
      {child : SymbolicTransition} {transition : Transition} :
      TakesTransitions tools tiosts tree path source → tree.getNode source = some node →
      child ∈ node.childrenTransitions → tree.getNode child.targetZSES = some target →
      transition ∈ node.state.location.outTransitions →
      nextZSES tools tiosts node.state transition = .ok (child.symbolicAction, target.state) →
      TakesTransitions tools tiosts tree (path ++ [transition]) child.targetZSES

/-- All declared names and no others have values, and these are the values of the store. -/
structure EvaluatesTo (valuation : Interpretation) (tiosts : TIOSTS)
    (symbolicValues : SymbolicMapping) (values : String → Value) : Prop where
  keys : ∀ name, (symbolicValues.lookup name).isSome = true ↔ name ∈ tiosts.dataNames
  values : ∀ name text, symbolicValues.lookup name = some text →
    Expression.value valuation text = some (values name)

section Paths

variable {tools : SymbolicTools} {tiosts : TIOSTS} {tree : SymbolicExecutionTree}

theorem RootPath.takesTransitions {root : SymbolicState} {trace : Nat → Trace}
    (isTree : IsExecutionTree tools tiosts root tree trace) {symbolicPath : List SymbolicTransition}
    {reference : Nat} (isPath : RootPath tree symbolicPath reference) :
    ∃ path, TakesTransitions tools tiosts tree path reference ∧
      path.map Transition.action =
        symbolicPath.map (fun child => child.symbolicAction.action) := by
  induction isPath with
  | root isRoot => exact ⟨[], TakesTransitions.root isRoot, rfl⟩
  | step _ found member induction =>
      obtain ⟨path, takes, actions⟩ := induction
      obtain ⟨target, transition, targetFound, listed, stepped⟩ := isTree.child_step found member
      refine ⟨_, takes.step found member targetFound listed stepped, ?_⟩
      simp only [List.map_append, List.map_singleton, actions, nextZSES_action stepped]

theorem RootPath.getLast?_map {path : List SymbolicTransition} {reference : Nat}
    (isPath : RootPath tree path reference) (nonempty : path ≠ []) :
    path.getLast?.map SymbolicTransition.targetZSES = some reference := by
  cases isPath with
  | root _ => exact absurd rfl nonempty
  | step _ _ _ => simp

theorem exists_rootPath {root : SymbolicState} {trace : Nat → Trace}
    (isTree : IsExecutionTree tools tiosts root tree trace) {reference : Nat}
    {node : SymbolicNode} (found : tree.getNode reference = some node) :
    ∃ path, RootPath tree path reference := by
  induction reference using Nat.strongRecOn generalizing node with
  | ind reference induction =>
      by_cases isRoot : reference = 0
      · rw [isRoot]
        exact ⟨[], RootPath.root isTree.initial⟩
      · obtain ⟨child, source, _, target, before, sourceFound, member⟩ :=
          isTree.parent reference node found isRoot
        obtain ⟨path, isPath⟩ := induction child.sourceZSES before sourceFound
        rw [← target]
        exact ⟨_, isPath.step sourceFound member⟩

/-- A path takes transitions of the model, from one registered location to the next. -/
theorem TakesTransitions.registered {rounds : Nat}
    (built : execute tools tiosts rounds = .ok tree) {path : List Transition} {reference : Nat}
    (takes : TakesTransitions tools tiosts tree path reference) {node : SymbolicNode}
    (found : tree.getNode reference = some node) :
    (∃ label, tiosts.getLocation label = some node.state.location) ∧
      ∀ transition ∈ path, ∃ label, transition ∈ tiosts.outOf label := by
  obtain ⟨location, trace, isInitial, isTree⟩ := execute_returned built
  induction takes generalizing node with
  | root isRoot =>
      rw [isTree.initial] at isRoot
      obtain rfl := Option.some.inj isRoot
      obtain ⟨rootNode, rootFound, state, _⟩ := isTree.rootNode
      rw [rootFound] at found
      obtain rfl := Option.some.inj found
      obtain ⟨label, _, located⟩ := bind_eq_ok.mp isInitial
      rw [state]
      exact ⟨⟨label, deref_eq_ok.mp located⟩, fun transition member => by cases member⟩
  | @step path source current target child transition _ sourceFound member targetFound listed
      stepped induction =>
      obtain ⟨⟨label, located⟩, earlier⟩ := induction sourceFound
      rw [targetFound] at found
      obtain rfl := Option.some.inj found
      refine ⟨⟨transition.target, nextZSES_target stepped⟩, ?_⟩
      intro other otherMember
      rcases List.mem_append.mp otherMember with before | last
      · exact earlier other before
      · rw [List.mem_singleton.mp last]
        refine ⟨label, ?_⟩
        rw [TIOSTS.outOf_eq _ _ located]
        exact listed

/-- What is known of the state that a path leads to. -/
structure Agrees (tiosts : TIOSTS) (valuation : Interpretation) (path : List Transition)
    (state : SymbolicState) : Prop where
  simulates : ∃ issued, Simulates tiosts valuation issued
    ((ConcreteState.start valuation tiosts).run valuation path) state.mapping
  plain : IsPlain state.pathCondition
  condition : Holds valuation state.pathCondition ↔
    (ConcreteState.start valuation tiosts).PassesGuards valuation path

theorem agrees_initial (compares : tiosts.ComparesData) (valuation : Interpretation)
    (location : Location) :
    Agrees tiosts valuation [] (initialState tools tiosts location) where
  simulates := ⟨[], simulates_initial compares⟩
  plain := ⟨_, read_true, by decide⟩
  condition := iff_of_true (holds_true valuation) trivial

/-- One more transition. -/
theorem Agrees.nextZSES (compares : tiosts.ComparesData) {label : String}
    {transition : Transition} (inOut : transition ∈ tiosts.outOf label)
    {valuation : Interpretation} {path : List Transition} {current next : SymbolicState}
    (agrees : Agrees tiosts valuation path current)
    (few : ∀ parameter, ConcreteState.receptions (path ++ [transition]) parameter < 2147483648)
    {symbolicAction : SymbolicAction}
    (stepped : nextZSES tools tiosts current transition = .ok (symbolicAction, next)) :
    Agrees tiosts valuation (path ++ [transition]) next := by
  obtain ⟨issued, simulates⟩ := agrees.simulates
  obtain ⟨update, updated, stepped⟩ := bind_eq_ok.mp stepped
  obtain ⟨assigned, assignedEq, stepped⟩ := bind_eq_ok.mp stepped
  obtain ⟨zone, _, stepped⟩ := bind_eq_ok.mp stepped
  obtain ⟨target, _, stepped⟩ := bind_eq_ok.mp stepped
  obtain ⟨_, rfl⟩ := Prod.mk.inj (Except.ok.inj stepped)
  obtain ⟨others, received⟩ := simulates.receiveAll compares
    (compares.separates.parameters label transition inOut) (by
      intro parameter
      rw [ConcreteState.received_run, ← ConcreteState.receptions_concat]
      exact few parameter) updated
  obtain ⟨guardPlain, guardHolds⟩ := received.guard compares inOut rfl
  constructor
  · refine ⟨issued ++ others, ?_⟩
    rw [ConcreteState.run_concat]
    exact received.assignAll compares inOut assignedEq
  · exact isPlain_createNextPathCondition agrees.plain guardPlain
  · rw [ConcreteState.passesGuards_concat]
    exact (holds_createNextPathCondition agrees.plain guardPlain valuation).trans
      (and_congr agrees.condition guardHolds)

/-- The states of the tree agree with the concrete runs along their paths. -/
theorem TakesTransitions.agrees (compares : tiosts.ComparesData) {rounds : Nat}
    (built : execute tools tiosts rounds = .ok tree) {path : List Transition} {reference : Nat}
    (takes : TakesTransitions tools tiosts tree path reference) {node : SymbolicNode}
    (found : tree.getNode reference = some node)
    (few : ∀ parameter, ConcreteState.receptions path parameter < 2147483648)
    (valuation : Interpretation) : Agrees tiosts valuation path node.state := by
  obtain ⟨location, trace, isInitial, isTree⟩ := execute_returned built
  induction takes generalizing node with
  | root isRoot =>
      rw [isTree.initial] at isRoot
      obtain rfl := Option.some.inj isRoot
      obtain ⟨rootNode, rootFound, state, _⟩ := isTree.rootNode
      rw [rootFound] at found
      obtain rfl := Option.some.inj found
      rw [state]
      exact agrees_initial compares valuation location
  | @step path source current target child transition takes sourceFound member targetFound listed
      stepped induction =>
      rw [targetFound] at found
      obtain rfl := Option.some.inj found
      obtain ⟨⟨label, located⟩, _⟩ := takes.registered built sourceFound
      have inOut : transition ∈ tiosts.outOf label := by
        rw [TIOSTS.outOf_eq _ _ located]
        exact listed
      have earlier : ∀ parameter, ConcreteState.receptions path parameter < 2147483648 := by
        intro parameter
        have whole := few parameter
        rw [ConcreteState.receptions_concat] at whole
        omega
      exact (induction sourceFound earlier).nextZSES compares inOut few stepped

theorem Agrees.evaluatesTo {valuation : Interpretation} {path : List Transition}
    {state : SymbolicState} (agrees : Agrees tiosts valuation path state) :
    EvaluatesTo valuation tiosts state.mapping
      ((ConcreteState.start valuation tiosts).run valuation path).store := by
  obtain ⟨issued, simulates⟩ := agrees.simulates
  refine ⟨simulates.keys, ?_⟩
  intro name text found
  have isSingle := simulates.single name text found
  rw [← simulates.values, isSingle.value]
  simp only [store, found, isSingle.value, Option.getD_some]

end Paths

/-- Every state of the tree is reached by a path of the model.  As long as fewer than
2147483648 values are received for each parameter, a valuation satisfies its path condition
exactly if the concrete run along the path passes all guards, and the mapping evaluates to
the store of that run. -/
theorem execute_simulates (tools : SymbolicTools) {tiosts : TIOSTS}
    (compares : tiosts.ComparesData) {rounds : Nat} {tree : SymbolicExecutionTree}
    (built : execute tools tiosts rounds = .ok tree) {reference : Nat} {node : SymbolicNode}
    (found : tree.getNode reference = some node) :
    (∃ path, TakesTransitions tools tiosts tree path reference) ∧
    ∀ path, TakesTransitions tools tiosts tree path reference →
      (∀ parameter, ConcreteState.receptions path parameter < 2147483648) →
      ∀ valuation,
        (Holds valuation node.state.pathCondition ↔
          (ConcreteState.start valuation tiosts).PassesGuards valuation path) ∧
        EvaluatesTo valuation tiosts node.state.mapping
          ((ConcreteState.start valuation tiosts).run valuation path).store := by
  constructor
  · obtain ⟨location, trace, _, isTree⟩ := execute_returned built
    obtain ⟨symbolicPath, isPath⟩ := exists_rootPath isTree found
    obtain ⟨path, takes, _⟩ := isPath.takesTransitions isTree
    exact ⟨path, takes⟩
  · intro path takes few valuation
    have agrees := takes.agrees compares built found few valuation
    exact ⟨agrees.condition, agrees.evaluatesTo⟩

theorem receptions_eq (path : List Transition) (parameter : String) :
    ConcreteState.receptions path parameter =
      ((path.map Transition.action).flatMap Action.parameters).count parameter := by
  rw [ConcreteState.receptions, List.flatMap_map]

namespace SharedParameters

theorem compares : model.ComparesData where
  names := by
    unfold model
    rw [TIOSTS.assemble_dataNames]
    decide
  separates := separates
  guards := by
    have all : ∀ transition ∈ transitions, transition.dataGuard.text = Constants.guardTrue ∨
        ComparesWords transition.dataGuard.text := by decide
    exact fun label transition member => all transition (mem_transitions member)
  assigned := by
    have all : ∀ transition ∈ transitions, ∀ text ∈ transition.dataAssignments,
        ∀ assignment ∈ Text.split assignmentBar text,
          ∀ value ∈ (Text.split Constants.assignmentSymbol assignment)[1]?,
            IsSingleWord (Text.trim value) := by decide
    exact fun label transition member => all transition (mem_transitions member)

/-- The last two values received for `p` are 5, and all other symbols are worth 0. -/
def valuation : Interpretation where
  symbol name := if name = "p_2" ∨ name = "p_3" then .number 5 else .number 0
  quotient _ _ := 0
  remainder _ _ := 0

end SharedParameters

open SharedParameters in
theorem execute_simulates_shared : ∃ rounds tree path reference node,
    execute LoopInstance.tools model rounds = .ok tree ∧
      TakesTransitions LoopInstance.tools model tree path reference ∧
      tree.getNode reference = some node ∧
      node.state.pathCondition = "p_2 > x_0 AND p_3 = p_2" ∧
      (ConcreteState.start valuation model).PassesGuards valuation path ∧
      EvaluatesTo valuation model node.state.mapping
        ((ConcreteState.start valuation model).run valuation path).store := by
  have ran : (execute LoopInstance.tools model 5).toOption.map (fun tree =>
      decide (tree.initialZSES = some 0 ∧
        (leftmost tree 3 0).map (fun child => (child.symbolicAction.action, child.targetZSES)) =
          [(LoopInstance.enter, 1), (sense, 2), (report, 3)] ∧
        (tree.getNode 3).map (fun node => node.state.pathCondition) =
          some "p_2 > x_0 AND p_3 = p_2")) = some true := by
    decide +kernel
  obtain ⟨tree, built, checked⟩ := exists_checked ran
  obtain ⟨isInitial, steps, condition⟩ := of_decide_eq_true checked
  obtain ⟨node, found, condition⟩ := Option.map_eq_some_iff.mp condition
  obtain ⟨reference, isPath⟩ := (RootPath.root isInitial).leftmost 3
  rw [List.nil_append] at isPath
  have isLast : reference = 3 := by
    have last := isPath.getLast?_map (by
      intro empty
      rw [empty] at steps
      cases steps)
    have targets := congrArg (fun steps => (steps.map Prod.snd).getLast?) steps
    simp only [List.map_map, List.getLast?_map] at targets
    exact Option.some.inj (last.symm.trans targets)
  obtain ⟨_, _, _, isTree⟩ := execute_returned built
  obtain ⟨path, takes, actions⟩ := isPath.takesTransitions isTree
  have few : ∀ parameter, ConcreteState.receptions path parameter < 2147483648 := by
    intro parameter
    have known := congrArg (List.map Prod.fst) steps
    rw [List.map_map] at known
    rw [receptions_eq, actions.trans known]
    exact Nat.lt_of_le_of_lt List.count_le_length (by decide)
  rw [← isLast] at found
  obtain ⟨holds, evaluates⟩ :=
    (execute_simulates LoopInstance.tools compares built found).2 path takes few valuation
  refine ⟨5, tree, path, reference, node, built, takes, found, condition, ?_, evaluates⟩
  apply holds.mp
  rw [condition]
  decide

namespace RepeatedParameter

/-- All symbols are worth 0. -/
def zero : Interpretation := ⟨fun _ => .number 0, fun _ _ => 0, fun _ _ => 0⟩

theorem compares (times : Nat) : (model times).ComparesData where
  names := by
    rw [dataNames_eq]
    decide
  separates := separates times
  guards := by
    intro label transition member
    obtain ⟨source, rfl⟩ := bare_of_mem times member
    exact Or.inl rfl
  assigned := by
    intro label transition member text written
    obtain ⟨source, rfl⟩ := bare_of_mem times member
    cases written

theorem store_receiveAll (parameters : List String) (state : ConcreteState)
    (isZero : state.store "p" = .number 0) :
    (state.receiveAll zero parameters).store "p" = .number 0 := by
  induction parameters generalizing state with
  | nil => exact isZero
  | cons parameter parameters induction =>
      apply induction
      by_cases same : "p" = parameter
      · subst same
        simp [ConcreteState.receive, zero]
      · exact (Function.update_of_ne same _ _).trans isZero

theorem run_zero (times : Nat) {path : List Transition}
    (bare : ∀ transition ∈ path, ∃ label, transition ∈ (model times).outOf label)
    (state : ConcreteState) (isZero : state.store "p" = .number 0) :
    state.PassesGuards zero path ∧ (state.run zero path).store "p" = .number 0 := by
  induction path generalizing state with
  | nil => exact ⟨trivial, isZero⟩
  | cons transition path induction =>
      obtain ⟨label, member⟩ := bare transition List.mem_cons_self
      obtain ⟨source, rfl⟩ := bare_of_mem times member
      have received := store_receiveAll (receive times).parameters state isZero
      obtain ⟨passes, last⟩ := induction
        (fun other listed => bare other (List.mem_cons_of_mem _ listed)) _ received
      exact ⟨⟨holds_true _, passes⟩, last⟩

end RepeatedParameter

open RepeatedParameter in
/-- After 2147483648 values the mapping has `p_-2147483648` for `p`, which is no word and has
no value. -/
theorem execute_not_simulates : (model 1073741824).ComparesData ∧
    ∃ rounds tree path reference node,
      execute LoopInstance.tools (model 1073741824) rounds = .ok tree ∧
        TakesTransitions LoopInstance.tools (model 1073741824) tree path reference ∧
        tree.getNode reference = some node ∧
        (ConcreteState.start zero (model 1073741824)).PassesGuards zero path ∧
        ¬ EvaluatesTo zero (model 1073741824) node.state.mapping
          ((ConcreteState.start zero (model 1073741824)).run zero path).store := by
  refine ⟨compares _, ?_⟩
  obtain ⟨rounds, tree, symbolicPath, reference, built, isPath, actions⟩ := exists_path 1073741824
  obtain ⟨node, found, reaches⟩ := execute_reaches (separates _) built isPath
  obtain ⟨_, _, _, isTree⟩ := execute_returned built
  obtain ⟨path, takes, _⟩ := isPath.takesTransitions isTree
  have started : (ConcreteState.start zero (model 1073741824)).store "p" = .number 0 := by
    simp [ConcreteState.start, zero]
  obtain ⟨passes, last⟩ := run_zero 1073741824 (takes.registered built found).2 _ started
  refine ⟨rounds, tree, path, reference, node, built, takes, found, passes, ?_⟩
  intro evaluates
  have declared : "p" ∈ (model 1073741824).dataNames := by
    rw [dataNames_eq]
    exact List.mem_singleton_self _
  obtain ⟨text, mapped⟩ := Option.isSome_iff_exists.mp ((evaluates.keys "p").mpr declared)
  have issued : count "p" (occurrences symbolicPath) = 2147483648 :=
    count_occurrences 1073741824 reaches.hasAll actions
  have isWrapped := (reaches.tracks.current "p" text (by intro member; cases member) mapped).2
  rw [issued] at isWrapped
  have value := evaluates.values "p" text mapped
  rw [isWrapped, last] at value
  revert value
  decide

end SymbolicExecution

end Symbolrt
