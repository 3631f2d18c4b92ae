import Symbolrt.Base.Assembly
import Symbolrt.SymbolicExecution.BoundedRuns
import Symbolrt.SymbolicExecution.SymbolicValues

/-!
# Models that can be executed

When the separator occurs in no name, guard and assigned value and no assignment
changes a parameter, no step of the execution throws: every parameter keeps a value
whose counter can be read, and every word with a separator in a path condition is a
symbolic value of a declared name.
-/

namespace Symbolrt

/-- An assignment whose target is allowed and whose value avoids the separator. -/
def IsAssignment (allowed : String → Prop) (assignment : String) : Prop :=
  match Text.split Constants.assignmentSymbol assignment with
  | target :: value :: _ => allowed (Text.trim target) ∧ '_' ∉ value.toList
  | _ => False

theorem IsAssignment.exists_split {allowed : String → Prop} {assignment : String}
    (isAssignment : IsAssignment allowed assignment) :
    ∃ target value others,
      Text.split Constants.assignmentSymbol assignment = target :: value :: others ∧
        allowed (Text.trim target) ∧ '_' ∉ value.toList := by
  unfold IsAssignment at isAssignment
  split at isAssignment
  · exact ⟨_, _, _, by assumption, isAssignment⟩
  · exact isAssignment.elim

instance (allowed : String → Prop) [DecidablePred allowed] (assignment : String) :
    Decidable (IsAssignment allowed assignment) :=
  match parts : Text.split Constants.assignmentSymbol assignment with
  | target :: value :: _ =>
      decidable_of_iff (allowed (Text.trim target) ∧ '_' ∉ value.toList)
        (by simp [IsAssignment, parts])
  | [_] => isFalse (by simp [IsAssignment, parts])
  | [] => isFalse (by simp [IsAssignment, parts])

open SymbolicExecution in
/-- The conditions on the texts of a model; the predicate holds of the parameters of
actions and of no target of an assignment. -/
structure TIOSTS.IsExecutable (tiosts : TIOSTS) (isParameter : String → Prop) : Prop where
  names : ∀ name ∈ tiosts.dataNames, IsWord name ∧ '_' ∉ name.toList
  parameters : ∀ label, ∀ transition ∈ tiosts.outOf label,
    ∀ parameter ∈ transition.action.parameters,
      isParameter parameter ∧ parameter ∈ tiosts.dataNames
  guards : ∀ label, ∀ transition ∈ tiosts.outOf label, '_' ∉ transition.dataGuard.text.toList
  dataAssignments : ∀ label, ∀ transition ∈ tiosts.outOf label,
    ∀ text ∈ transition.dataAssignments, ∀ assignment ∈ Text.split assignmentBar text,
      IsAssignment (fun target => target ∈ tiosts.dataNames ∧ ¬ isParameter target) assignment
  clockAssignments : ∀ label, ∀ transition ∈ tiosts.outOf label,
    ∀ text ∈ transition.clockAssignments, ∀ assignment ∈ Text.split assignmentBar text,
      Text.split Constants.assignmentSymbol assignment ≠ []

open SymbolicExecution in
/-- The conditions on an assembled model, checked on its transitions. -/
theorem TIOSTS.assemble_isExecutable {declarations : TIOSTS} (blank : declarations.IsBlank)
    {labels : List String} {initial : String} {transitions : List Transition}
    (uses : declarations.Uses labels initial transitions) {isParameter : String → Prop}
    (names : ∀ name ∈ declarations.dataNames, IsWord name ∧ '_' ∉ name.toList)
    (parameters : ∀ transition ∈ transitions, ∀ parameter ∈ transition.action.parameters,
      isParameter parameter ∧ parameter ∈ declarations.dataNames)
    (guards : ∀ transition ∈ transitions, '_' ∉ transition.dataGuard.text.toList)
    (dataAssignments : ∀ transition ∈ transitions, ∀ text ∈ transition.dataAssignments,
      ∀ assignment ∈ Text.split assignmentBar text,
        IsAssignment (fun target => target ∈ declarations.dataNames ∧ ¬ isParameter target)
          assignment)
    (clockAssignments : ∀ transition ∈ transitions, ∀ text ∈ transition.clockAssignments,
      ∀ assignment ∈ Text.split assignmentBar text,
        Text.split Constants.assignmentSymbol assignment ≠ []) :
    (assemble declarations labels initial transitions).IsExecutable isParameter := by
  have listed : ∀ {label transition},
      transition ∈ (assemble declarations labels initial transitions).outOf label →
        transition ∈ transitions := by
    intro label transition member
    rw [assemble_outOf blank uses] at member
    exact (List.mem_filter.mp member).1
  constructor
  · rw [assemble_dataNames]
    exact names
  · intro label transition member
    rw [assemble_dataNames]
    exact parameters transition (listed member)
  · intro label transition member
    exact guards transition (listed member)
  · intro label transition member
    rw [assemble_dataNames]
    exact dataAssignments transition (listed member)
  · intro label transition member
    exact clockAssignments transition (listed member)

namespace SymbolicExecution

/-- Every word with a separator is a symbolic value of one of the names. -/
def IsClean (names : List String) (text : String) : Prop :=
  ∀ word ∈ Text.wordRuns isExpressionDelimiter text.toList, '_' ∈ word →
    ∃ name ∈ names, ∃ counter, IsWord name ∧ '_' ∉ name.toList ∧ '_' ∉ counter.toList ∧
      word = (symbolicValue name counter).toList

section Texts

variable {names : List String}

theorem isClean_of_not_mem {text : String} (absent : '_' ∉ text.toList) :
    IsClean names text := by
  intro word member separator
  have inTokens := (List.mem_filter.mp member).1
  exact absurd (Text.mem_of_mem_tokenRuns inTokens separator) absent

theorem isDigit_not_delimiter {c : Char} (digit : c.isDigit = true) :
    isExpressionDelimiter c = false := by
  rw [Bool.eq_false_iff]
  intro delimiter
  have listed : c ∈ [' ', '+', '-', '*', '/', '<', '=', '>', '(', ')'] := by
    simpa [isExpressionDelimiter, expressionDelimiters] using delimiter
  have digits : ∀ other ∈ [' ', '+', '-', '*', '/', '<', '=', '>', '(', ')'],
      Char.isDigit other = false := by decide
  rw [digits c listed] at digit
  cases digit

theorem separator_not_delimiter : isExpressionDelimiter '_' = false := by decide

theorem symbolicValue_toList (name counter : String) :
    (symbolicValue name counter).toList = name.toList ++ '_' :: counter.toList := by
  simp [symbolicValue, Constants.symbolicValueSeparator]

theorem isClean_symbolicValue {name : String} (member : name ∈ names) (isWord : IsWord name)
    (avoids : '_' ∉ name.toList) (counter : Int) :
    IsClean names (symbolicValue name (printInt counter)) := by
  intro word inWords separator
  cases counter with
  | ofNat value =>
      refine ⟨name, member, printInt (Int.ofNat value), isWord, avoids,
        separator_not_mem_printInt _, ?_⟩
      rw [Text.wordRuns_single] at inWords
      · exact List.mem_singleton.mp inWords
      · rw [symbolicValue_toList]
        simp
      · intro c inValue
        rw [symbolicValue_toList, printInt_ofNat_toList] at inValue
        rcases List.mem_append.mp inValue with inName | inRest
        · exact isWord.2 c inName
        · rcases List.mem_cons.mp inRest with rfl | inDigits
          · exact separator_not_delimiter
          · exact isDigit_not_delimiter (isDigit_of_mem_digits inDigits)
  | negSucc value =>
      -- the sign of a counter that has wrapped around ends the word
      have chars : (symbolicValue name (printInt (Int.negSucc value))).toList =
          (symbolicValue name "").toList ++ '-' :: Nat.toDigits 10 (value + 1) := by
        rw [symbolicValue_toList, symbolicValue_toList, printInt_negSucc_toList]
        simp
      have first : Text.wordRuns isExpressionDelimiter (symbolicValue name "").toList =
          [(symbolicValue name "").toList] := by
        apply Text.wordRuns_single
        · rw [symbolicValue_toList]
          simp
        · intro c inValue
          rw [symbolicValue_toList] at inValue
          rcases List.mem_append.mp inValue with inName | inRest
          · exact isWord.2 c inName
          · rw [List.mem_singleton.mp inRest]
            exact separator_not_delimiter
      rw [chars, Text.wordRuns_append_delimiter (by decide), first] at inWords
      rcases List.mem_append.mp inWords with inFirst | inDigits
      · exact ⟨name, member, "", isWord, avoids, by simp, List.mem_singleton.mp inFirst⟩
      · have inTokens := (List.mem_filter.mp inDigits).1
        exact absurd (Text.mem_of_mem_tokenRuns inTokens separator) Nat.underscore_not_in_toDigits

theorem isClean_updateExpression {condition : String} (absent : '_' ∉ condition.toList)
    {symbolicValues : SymbolicMapping} (namesWords : NamesWords symbolicValues)
    (clean : ∀ name value, symbolicValues.lookup name = some value → IsClean names value) :
    IsClean names (updateExpression condition symbolicValues) := by
  intro word member separator
  rw [updateExpression_toList,
    Text.wordRuns_substitute (replaceRun_delimiter namesWords)] at member
  obtain ⟨original, inCondition, inReplaced⟩ := List.mem_flatMap.mp member
  unfold replaceRun symbolicValueOf at inReplaced
  cases found : symbolicValues.lookup (String.ofList original) with
  | some value =>
      rw [found] at inReplaced
      exact clean _ value found word inReplaced separator
  | none =>
      rw [found, Option.getD_none, String.toList_ofList] at inReplaced
      have inOriginal := Text.mem_of_mem_tokenRuns (List.mem_filter.mp inReplaced).1 separator
      have inText := Text.mem_of_mem_tokenRuns (List.mem_filter.mp inCondition).1 inOriginal
      exact absurd inText absent

theorem isClean_createNextPathCondition {previous dataGuard : String}
    (previousClean : IsClean names previous) (guardClean : IsClean names dataGuard) :
    IsClean names (createNextPathCondition previous dataGuard) := by
  unfold createNextPathCondition
  split
  · exact guardClean
  · split
    · exact previousClean
    · intro word member separator
      have chars : (previous ++ " " ++ Constants.guardConjunction ++ " " ++ dataGuard).toList =
          previous.toList ++ ' ' :: (['A', 'N', 'D'] ++ ' ' :: dataGuard.toList) := by
        simp [Constants.guardConjunction]
      have andWord : Text.wordRuns isExpressionDelimiter ['A', 'N', 'D'] = [['A', 'N', 'D']] := by
        decide
      rw [chars, Text.wordRuns_append_delimiter (by decide),
        Text.wordRuns_append_delimiter (by decide), andWord] at member
      rcases List.mem_append.mp member with inPrevious | inRest
      · exact previousClean word inPrevious separator
      · rcases List.mem_append.mp inRest with isAnd | inGuard
        · rw [List.mem_singleton.mp isAnd] at separator
          exact absurd separator (by decide)
        · exact guardClean word inGuard separator

end Texts

section Soundness

variable {tools : SymbolicTools} {tiosts : TIOSTS} {isParameter : String → Prop}

/-- The symbolic values can be used and, those of parameters, updated. -/
structure IsSound (tiosts : TIOSTS) (isParameter : String → Prop)
    (symbolicValues : SymbolicMapping) : Prop where
  words : NamesWords symbolicValues
  clean : ∀ name value, symbolicValues.lookup name = some value →
    IsClean tiosts.dataNames value
  counters : ∀ name ∈ tiosts.dataNames, isParameter name → ∃ counter, IsInt counter ∧
    symbolicValues.lookup name = some (symbolicValue name (printInt counter))

theorem lookup_initializeSymbolicValues (name : String) :
    (initializeSymbolicValues tiosts.modelVariables tiosts.actionParameters).lookup name =
      if name ∈ tiosts.dataNames then some (symbolicValue name Constants.symbolicValueInitial)
      else none := by
  have folded : ∀ (declared : List TypedData) (result : SymbolicMapping),
      (declared.foldl (fun result data => result.insert data.name
        (symbolicValue data.name Constants.symbolicValueInitial)) result).lookup name =
      if name ∈ declared.map TypedData.name then
        some (symbolicValue name Constants.symbolicValueInitial)
      else result.lookup name := by
    intro declared
    induction declared with
    | nil => simp
    | cons data declared induction =>
        intro result
        rw [List.foldl_cons, induction]
        by_cases same : name = data.name
        · subst same
          simp [Finmap.lookup_insert]
        · simp [same, Finmap.lookup_insert_of_ne]
  exact (folded _ ∅).trans (by simp [TIOSTS.dataNames])

theorem exists_lookup_varParamMapping {name : String} (member : name ∈ tiosts.dataNames) :
    ∃ data, (varParamMapping tiosts).lookup name = some data := by
  have folded : ∀ (declared : List TypedData) (result : Finmap (fun _ : String => TypedData)),
      (name ∈ declared.map TypedData.name ∨ ∃ data, result.lookup name = some data) →
      ∃ data, (declared.foldl (fun result data => result.insert data.name data)
        result).lookup name = some data := by
    intro declared
    induction declared with
    | nil => simp
    | cons data declared induction =>
        intro result known
        rw [List.foldl_cons]
        apply induction
        by_cases same : name = data.name
        · right
          subst same
          exact ⟨data, Finmap.lookup_insert _⟩
        · rw [Finmap.lookup_insert_of_ne _ same]
          simpa [same] using known
  exact folded _ ∅ (Or.inl member)

theorem isSound_initial (executable : tiosts.IsExecutable isParameter) :
    IsSound tiosts isParameter
      (initializeSymbolicValues tiosts.modelVariables tiosts.actionParameters) := by
  have zero : Constants.symbolicValueInitial = printInt 0 := by decide
  constructor
  · intro name value found
    rw [lookup_initializeSymbolicValues] at found
    split at found
    · rename_i member
      exact (executable.names name member).1
    · cases found
  · intro name value found
    rw [lookup_initializeSymbolicValues] at found
    split at found
    · rename_i member
      obtain ⟨isWord, avoids⟩ := executable.names name member
      rw [← Option.some.inj found, zero]
      exact isClean_symbolicValue member isWord avoids 0
    · cases found
  · intro name member _
    refine ⟨0, by decide, ?_⟩
    rw [lookup_initializeSymbolicValues, if_pos member, zero]

theorem IsSound.insert {symbolicValues : SymbolicMapping}
    (sound : IsSound tiosts isParameter symbolicValues)
    (executable : tiosts.IsExecutable isParameter) {name value : String}
    (member : name ∈ tiosts.dataNames) (clean : IsClean tiosts.dataNames value)
    (counted : isParameter name → ∃ counter, IsInt counter ∧
      value = symbolicValue name (printInt counter)) :
    IsSound tiosts isParameter (symbolicValues.insert name value) := by
  constructor
  · intro other otherValue found
    by_cases same : other = name
    · rw [same]
      exact (executable.names name member).1
    · rw [Finmap.lookup_insert_of_ne _ same] at found
      exact sound.words other otherValue found
  · intro other otherValue found
    by_cases same : other = name
    · subst same
      rw [Finmap.lookup_insert] at found
      rw [← Option.some.inj found]
      exact clean
    · rw [Finmap.lookup_insert_of_ne _ same] at found
      exact sound.clean other otherValue found
  · intro other otherMember parameter
    by_cases same : other = name
    · subst same
      obtain ⟨counter, inRange, valueEq⟩ := counted parameter
      exact ⟨counter, inRange, by rw [Finmap.lookup_insert, valueEq]⟩
    · rw [Finmap.lookup_insert_of_ne _ same]
      exact sound.counters other otherMember parameter

theorem updateParameters_ok (executable : tiosts.IsExecutable isParameter)
    {parameters : List String} (declared : ∀ parameter ∈ parameters,
      isParameter parameter ∧ parameter ∈ tiosts.dataNames) {symbolicValues : SymbolicMapping}
    (sound : IsSound tiosts isParameter symbolicValues) :
    ∃ update, parameters.foldlM updateParameter ⟨[], ∅, symbolicValues⟩ = .ok update ∧
      IsSound tiosts isParameter update.nextSymbolicValues := by
  apply Loops.foldlM_returns
    (fun (_ : List String) (update : ParameterUpdate) =>
      IsSound tiosts isParameter update.nextSymbolicValues) sound
  intro done parameter rest update whole soundHere
  obtain ⟨isParam, member⟩ := declared parameter (by simp [whole])
  obtain ⟨isWord, avoids⟩ := executable.names parameter member
  obtain ⟨counter, inRange, found⟩ := soundHere.counters parameter member isParam
  rw [updateParameter, found, deref_some, ok_bind, updateSymbolicValue_eq avoids inRange,
    ok_bind]
  exact ⟨_, rfl, soundHere.insert executable member
    (isClean_symbolicValue member isWord avoids (nextCounter counter))
    (fun _ => ⟨_, nextCounter_isInt counter, rfl⟩)⟩

theorem not_mem_trim {c : Char} {text : String} (absent : c ∉ text.toList) :
    c ∉ (Text.trim text).toList := by
  intro member
  unfold Text.trim Text.trimChars at member
  rw [String.toList_ofList] at member
  have inner := (List.dropWhile_suffix _).subset (List.mem_reverse.mp member)
  exact absent ((List.dropWhile_suffix _).subset (List.mem_reverse.mp inner))

theorem updateAssignments_ok (executable : tiosts.IsExecutable isParameter) {label : String}
    {transition : Transition} (inOut : transition ∈ tiosts.outOf label)
    {symbolicValues : SymbolicMapping} (sound : IsSound tiosts isParameter symbolicValues) :
    ∃ next, updateSymbolicValueWithAssignments transition.dataAssignments symbolicValues =
        .ok next ∧ IsSound tiosts isParameter next := by
  cases assigned : transition.dataAssignments with
  | none => exact ⟨symbolicValues, rfl, sound⟩
  | some text =>
      apply Loops.foldlM_returns (fun _ next => IsSound tiosts isParameter next) sound
      intro done assignment rest values whole soundHere
      have form := executable.dataAssignments label transition inOut text assigned assignment
        (by simp [whole])
      obtain ⟨target, value, others, split, ⟨member, notParameter⟩, avoids⟩ := form.exists_split
      rw [updateSymbolicValueWithAssignment, split]
      exact ⟨_, rfl, soundHere.insert executable member
        (isClean_updateExpression (not_mem_trim avoids) soundHere.words soundHere.clean)
        (fun isParam => absurd isParam notParameter)⟩

theorem createNextZone_ok (tools : SymbolicTools)
    (executable : tiosts.IsExecutable isParameter) {label : String}
    {transition : Transition} (inOut : transition ∈ tiosts.outOf label) (zone : String) :
    ∃ next, createNextZone tools tiosts zone transition.clockGuard
      transition.clockAssignments = .ok next := by
  have clocks : ∃ clockNames, getClocksToReset transition.clockAssignments = .ok clockNames := by
    cases assigned : transition.clockAssignments with
    | none => exact ⟨[], rfl⟩
    | some text =>
        suffices converts : ∀ assignment ∈ Text.split assignmentBar text,
            ∃ clockName, clockToReset assignment = .ok clockName ∧ True by
          obtain ⟨clockNames, read, _⟩ := Loops.mapM_forall₂ converts
          exact ⟨clockNames, read⟩
        intro assignment member
        have nonempty :=
          executable.clockAssignments label transition inOut text assigned assignment member
        obtain ⟨clockName, rest, split⟩ := List.exists_cons_of_ne_nil nonempty
        exact ⟨Text.trim clockName, by rw [clockToReset, split], trivial⟩
  obtain ⟨clockNames, read⟩ := clocks
  rw [createNextZone, read, ok_bind]
  exact ⟨_, rfl⟩

/-- The solver can be asked about a clean path condition. -/
theorem isPathConditionSatisfied_ok (tools : SymbolicTools) {pathCondition : String}
    (clean : IsClean tiosts.dataNames pathCondition) :
    ∃ answer, isPathConditionSatisfied tools (varParamMapping tiosts) pathCondition =
      .ok answer := by
  have declared : ∃ text, (Text.tokens expressionDelimiters pathCondition).foldlM
      (declareToken (varParamMapping tiosts)) "" = .ok text ∧ True := by
    apply Loops.foldlM_returns (fun _ _ => True) trivial
    intro done token rest text whole _
    have member : token ∈ Text.tokens expressionDelimiters pathCondition := by simp [whole]
    obtain ⟨word, inWords, rfl⟩ := List.mem_map.mp member
    unfold declareToken
    by_cases looks : Text.contains (String.ofList word) "_" = true
    · have separator : '_' ∈ word := by
        have found : ['_'] <:+: word := by simpa [Text.contains] using looks
        exact found.subset List.mem_cons_self
      obtain ⟨name, inNames, counter, isWord, avoids, counterAvoids, rfl⟩ :=
        clean word inWords separator
      obtain ⟨others, split⟩ := split_symbolicValue_head avoids counterAvoids isWord.1
      obtain ⟨data, found⟩ := exists_lookup_varParamMapping inNames
      rw [if_pos looks, String.ofList_toList, split]
      simp only [found, deref_some, ok_bind]
      cases data.type <;> exact ⟨_, rfl, trivial⟩
    · rw [if_neg looks]
      exact ⟨text, rfl, trivial⟩
  obtain ⟨text, written, _⟩ := declared
  rw [isPathConditionSatisfied, cvc3Input, written, ok_bind]
  exact ⟨_, rfl⟩

/-- A state from which the execution can go on. -/
structure IsSoundState (tiosts : TIOSTS) (isParameter : String → Prop)
    (state : SymbolicState) : Prop where
  registers : tiosts.Registers state.location
  clean : IsClean tiosts.dataNames state.pathCondition
  sound : IsSound tiosts isParameter state.mapping

/-- Every step from a sound state succeeds and leads to a sound state. -/
theorem nextZSES_ok (tools : SymbolicTools) (wellFormed : tiosts.WellFormed)
    (executable : tiosts.IsExecutable isParameter) {current : SymbolicState}
    (soundState : IsSoundState tiosts isParameter current) {transition : Transition}
    (member : transition ∈ current.location.outTransitions) :
    ∃ symbolicAction next,
      nextZSES tools tiosts current transition = .ok (symbolicAction, next) ∧
        IsSoundState tiosts isParameter next := by
  have inOut : transition ∈ tiosts.outOf current.location.label := by
    rw [TIOSTS.outOf_eq _ _ soundState.registers]
    exact member
  obtain ⟨update, updated, soundUpdate⟩ := updateParameters_ok executable
    (executable.parameters _ transition inOut) soundState.sound
  obtain ⟨assigned, assignedEq, soundAssigned⟩ :=
    updateAssignments_ok executable inOut soundUpdate
  obtain ⟨zone, zoneEq⟩ := createNextZone_ok tools executable inOut current.zone
  obtain ⟨target, targetFound⟩ :=
    (tiosts.isRegistered_iff _).mp (wellFormed.target_registered inOut)
  have guardAvoids := executable.guards _ transition inOut
  refine ⟨⟨transition.action, update.paramIds, update.paramMapping⟩,
    ⟨target, createNextPathCondition current.pathCondition
      (if transition.dataGuard.text = Constants.guardTrue then transition.dataGuard.text
        else updateExpression transition.dataGuard.text update.nextSymbolicValues),
      assigned, zone⟩, ?_, ?_⟩
  · rw [nextZSES, updated, ok_bind, assignedEq, ok_bind, zoneEq, ok_bind, targetFound,
      deref_some, ok_bind]
    rfl
  · constructor
    · unfold TIOSTS.Registers
      rw [wellFormed.label_eq targetFound]
      exact targetFound
    · apply isClean_createNextPathCondition soundState.clean
      split
      · exact isClean_of_not_mem guardAvoids
      · exact isClean_updateExpression guardAvoids soundUpdate.words soundUpdate.clean
    · exact soundAssigned

theorem isSoundState_initial (executable : tiosts.IsExecutable isParameter)
    {location : Location} (registers : tiosts.Registers location) :
    IsSoundState tiosts isParameter (initialState tools tiosts location) where
  registers := registers
  clean := isClean_of_not_mem (by decide : '_' ∉ Constants.guardTrue.toList)
  sound := isSound_initial executable

/-- The newest state of a run is sound. -/
theorem run_isSoundState (wellFormed : tiosts.WellFormed)
    (executable : tiosts.IsExecutable isParameter) {location : Location}
    (registers : tiosts.Registers location) {choices : List Nat} {history : List SymbolicState}
    (run : Unfolding.Run (initialState tools tiosts location) (nextState tools tiosts) choices
      history) : ∀ state ∈ history.head?, IsSoundState tiosts isParameter state := by
  induction run with
  | start =>
      intro state isHead
      rw [← Option.some.inj isHead]
      exact isSoundState_initial executable registers
  | @extend choices history choice node _ step induction =>
      intro state isHead
      rw [← Option.some.inj isHead]
      obtain ⟨branch, chosen, rfl⟩ := Option.map_eq_some_iff.mp step
      cases history with
      | nil => cases chosen
      | cons current above =>
          obtain ⟨transition, listed, stepped, _⟩ := choose_eq_some chosen
          obtain ⟨symbolicAction, next, succeeded, soundNext⟩ := nextZSES_ok tools
            wellFormed executable (induction current rfl) (List.mem_of_getElem? listed)
          rw [stepped] at succeeded
          have same := congrArg Prod.snd (Except.ok.inj succeeded)
          simp only at same
          rw [same]
          exact soundNext

theorem computable_of_executable (wellFormed : tiosts.WellFormed)
    (executable : tiosts.IsExecutable isParameter) {location : Location}
    (registers : tiosts.Registers location) :
    Computable tools tiosts (initialState tools tiosts location) := by
  intro choices history run transition member
  cases history with
  | nil => cases member
  | cons current above =>
      have soundState := run_isSoundState wellFormed executable registers run current rfl
      obtain ⟨symbolicAction, next, stepped, soundNext⟩ :=
        nextZSES_ok tools wellFormed executable soundState member
      obtain ⟨answer, answered⟩ := isPathConditionSatisfied_ok tools soundNext.clean
      simp only [branchOf, stepped, ok_bind, isReachable, answered]
      exact ⟨_, rfl⟩

end Soundness

end SymbolicExecution

end Symbolrt
