import Symbolrt.Lib.Pieces
import Symbolrt.SymbolicExecution.ExecutionFailures
import Symbolrt.SymbolicExecution.RootPaths

/-!
# The types of the ids in path conditions

For every word of a path condition with the separator, the solver's input file needs the
type of what stands before the separator.  Which names are looked up depends on the names
that the guards read and on the assignments that have moved symbolic values before.
-/

namespace Symbolrt

open SymbolicExecution in
/-- Names are words, and guards, assignments and actions use declared names only. -/
structure TIOSTS.UsesDeclaredNames (tiosts : TIOSTS) : Prop where
  names : ∀ name ∈ tiosts.dataNames, IsWord name
  parameters : ∀ label, ∀ transition ∈ tiosts.outOf label,
    ∀ parameter ∈ transition.action.parameters, parameter ∈ tiosts.dataNames
  assignments : ∀ label, ∀ transition ∈ tiosts.outOf label,
    ∀ text ∈ transition.dataAssignments, ∀ assignment ∈ Text.split assignmentBar text,
      ∀ target value others,
        Text.split Constants.assignmentSymbol assignment = target :: value :: others →
        Text.trim target ∈ tiosts.dataNames ∧
          ∀ word ∈ Text.tokens expressionDelimiters (Text.trim value), '_' ∈ word.toList →
            word ∈ tiosts.dataNames

namespace SymbolicExecution

open SynchronousProduct (initialLocationOf)

/-- What stands before the separator. -/
def typeName (word : List Char) : String := String.ofList (word.takeWhile (· != '_'))

/-- The names whose types are looked up for a path condition. -/
def typeNames (text : String) : List String :=
  ((Text.wordRuns isExpressionDelimiter text.toList).filter (fun word => '_' ∈ word)).map typeName

/-- Every id of the path condition has a type. -/
def ResolvesTypes (tiosts : TIOSTS) (pathCondition : String) : Prop :=
  ∀ token ∈ Text.tokens expressionDelimiters pathCondition, Text.contains token "_" = true →
    ∃ name others data, Text.split "_" token = name :: others ∧
      (varParamMapping tiosts).lookup name = some data

section Names

variable {tiosts : TIOSTS}

theorem mem_dataNames_iff {name : String} :
    (∃ data, (varParamMapping tiosts).lookup name = some data) ↔ name ∈ tiosts.dataNames := by
  constructor
  · have folded : ∀ (declared : List TypedData) (result : Finmap (fun _ : String => TypedData)),
        (∃ data, (declared.foldl (fun result data => result.insert data.name data)
          result).lookup name = some data) →
        name ∈ declared.map TypedData.name ∨ ∃ data, result.lookup name = some data := by
      intro declared
      induction declared with
      | nil => exact fun result known => Or.inr known
      | cons data declared induction =>
          intro result known
          rcases induction _ known with listed | ⟨found, lookup⟩
          · exact Or.inl (List.mem_cons_of_mem _ listed)
          · by_cases same : name = data.name
            · rw [same]
              exact Or.inl List.mem_cons_self
            · rw [Finmap.lookup_insert_of_ne _ same] at lookup
              exact Or.inr ⟨found, lookup⟩
    intro known
    rcases folded _ ∅ known with listed | ⟨data, lookup⟩
    · exact listed
    · cases lookup
  · exact exists_lookup_varParamMapping

theorem typeName_cut {before after : List Char} (absent : '_' ∉ before) :
    typeName (before ++ '_' :: after) = String.ofList before := by
  unfold typeName
  rw [List.takeWhile_append_of_pos]
  · simp
  · intro c member
    have different : c ≠ '_' := by
      intro same
      rw [same] at member
      exact absent member
    simpa using different

/-- A word has a type exactly if what stands before the separator is declared. -/
theorem exists_type_iff (names : ∀ name ∈ tiosts.dataNames, IsWord name) {word : List Char}
    (separator : '_' ∈ word) :
    (∃ name others data, Text.split "_" (String.ofList word) = name :: others ∧
      (varParamMapping tiosts).lookup name = some data) ↔ typeName word ∈ tiosts.dataNames := by
  obtain ⟨before, after, cut, absent⟩ := List.eq_append_cons_of_mem separator
  rw [cut, typeName_cut absent]
  have chars : (String.ofList (before ++ '_' :: after)).toList = before ++ '_' :: after :=
    String.toList_ofList ..
  have separatorChars : "_".toList = ['_'] := rfl
  have first := Text.split_first separatorChars chars absent
  constructor
  · rintro ⟨name, others, data, parts, found⟩
    rcases first with ⟨none, _⟩ | ⟨more, some⟩
    · rw [none] at parts
      cases parts
    · rw [some] at parts
      rw [(List.cons.inj parts).1]
      exact mem_dataNames_iff.mp ⟨data, found⟩
  · intro declared
    obtain ⟨data, found⟩ := mem_dataNames_iff.mpr declared
    rcases first with ⟨_, empty⟩ | ⟨more, some⟩
    · rw [empty] at declared
      exact absurd rfl (names _ declared).1
    · exact ⟨_, more, data, some, found⟩

theorem contains_separator {word : List Char} :
    Text.contains (String.ofList word) "_" = true ↔ '_' ∈ word := by
  have chars : (String.ofList word).toList = word := String.toList_ofList ..
  unfold Text.contains
  rw [decide_eq_true_eq, chars]
  exact List.singleton_infix_iff '_' word

theorem resolvesTypes_iff (names : ∀ name ∈ tiosts.dataNames, IsWord name) (text : String) :
    ResolvesTypes tiosts text ↔ ∀ name ∈ typeNames text, name ∈ tiosts.dataNames := by
  constructor
  · intro resolves name member
    obtain ⟨word, listed, rfl⟩ := List.mem_map.mp member
    obtain ⟨inText, separator⟩ := List.mem_filter.mp listed
    have occurs : '_' ∈ word := of_decide_eq_true separator
    exact (exists_type_iff names occurs).mp
      (resolves _ (List.mem_map_of_mem inText) (contains_separator.mpr occurs))
  · intro declared token member looks
    obtain ⟨word, inText, rfl⟩ := List.mem_map.mp member
    have occurs := contains_separator.mp looks
    exact (exists_type_iff names occurs).mpr (declared _
      (List.mem_map_of_mem (List.mem_filter.mpr ⟨inText, decide_eq_true occurs⟩)))

end Names

/-- For every name the names whose symbols stand in its value. -/
abbrev Origins := String → List String

/-- At first every name has its own symbol. -/
def initialOrigins : Origins := fun name => [name]

def originsIn (origins : Origins) (text : String) : List String :=
  (Text.tokens expressionDelimiters text).flatMap origins

/-- An assignment moves the symbols of its value to its target. -/
def assignOrigins (origins : Origins) (assignment : String) : Origins :=
  match Text.split Constants.assignmentSymbol assignment with
  | target :: value :: _ =>
      Function.update origins (Text.trim target) (originsIn origins (Text.trim value))
  | _ => origins

/-- The origins behind a transition; new values of parameters have the old origins. -/
def originsBehind (origins : Origins) (transition : Transition) : Origins :=
  match transition.dataAssignments with
  | none => origins
  | some dataAssignments => (Text.split assignmentBar dataAssignments).foldl assignOrigins origins

/-- The origins of the symbols that a guard reads. -/
def guardOrigins (origins : Origins) (transition : Transition) : List String :=
  if transition.dataGuard.text = Constants.guardTrue then []
  else originsIn origins transition.dataGuard.text

/-- The origins of all symbols that the guards of a path read. -/
def originsRead : Origins → List Transition → List String
  | _, [] => []
  | origins, transition :: path =>
      guardOrigins origins transition ++ originsRead (originsBehind origins transition) path

/-- What stands before the first separator of the name, if it has one, is declared. -/
def IsTypable (tiosts : TIOSTS) (name : String) : Prop :=
  '_' ∈ name.toList → typeName name.toList ∈ tiosts.dataNames

instance (tiosts : TIOSTS) (name : String) : Decidable (IsTypable tiosts name) :=
  inferInstanceAs (Decidable (_ → _))

/-- The names looked up for the symbols of a name. -/
def askedNames (tiosts : TIOSTS) (name : String) : List String :=
  if name ∈ tiosts.dataNames ∨ '_' ∈ name.toList then [typeName name.toList] else []

theorem originsRead_append (path : List Transition) (transition : Transition) (origins : Origins) :
    originsRead origins (path ++ [transition]) = originsRead origins path ++
      guardOrigins (path.foldl originsBehind origins) transition := by
  induction path generalizing origins with
  | nil => simp [originsRead]
  | cons first path induction =>
      rw [List.cons_append, originsRead, induction, originsRead, List.append_assoc,
        List.foldl_cons]

section Symbols

variable {tiosts : TIOSTS}

theorem typeName_of_not_mem {word : List Char} (absent : '_' ∉ word) :
    typeName word = String.ofList word := by
  unfold typeName
  rw [List.takeWhile_eq_self_iff.mpr]
  intro c member
  have different : c ≠ '_' := by
    intro same
    rw [same] at member
    exact absent member
  simpa using different

/-- The names looked up for some origins are all declared exactly if the origins have
types. -/
theorem asked_declared_iff (origins : List String) :
    (∀ name ∈ origins.flatMap (askedNames tiosts), name ∈ tiosts.dataNames) ↔
      ∀ name ∈ origins, IsTypable tiosts name := by
  have one : ∀ origin, (∀ name ∈ askedNames tiosts origin, name ∈ tiosts.dataNames) ↔
      IsTypable tiosts origin := by
    intro origin
    unfold askedNames IsTypable
    by_cases separator : '_' ∈ origin.toList
    · simp [separator]
    · by_cases declared : origin ∈ tiosts.dataNames
      · simp [separator, declared, typeName_of_not_mem separator]
      · simp [separator, declared]
  constructor
  · intro all origin member
    exact (one origin).mp (fun name asked =>
      all name (List.mem_flatMap.mpr ⟨origin, member, asked⟩))
  · intro all name member
    obtain ⟨origin, listed, asked⟩ := List.mem_flatMap.mp member
    exact (one origin).mpr (all origin listed) name asked

theorem isWord_of_run {run chars : List Char}
    (member : run ∈ Text.wordRuns isExpressionDelimiter chars) : IsWord (String.ofList run) := by
  obtain ⟨inTokens, plain⟩ := List.mem_filter.mp member
  rcases Text.mem_tokenRuns_cases inTokens with ⟨c, delimiter, same⟩ | ⟨nonempty, ordinary⟩
  · simp [same, delimiter] at plain
  · refine ⟨?_, by simpa using ordinary⟩
    intro empty
    exact nonempty (by simpa using congrArg String.toList empty)

theorem typeNames_word {word : String} (isWord : IsWord word) :
    typeNames word = if '_' ∈ word.toList then [typeName word.toList] else [] := by
  unfold typeNames
  rw [Text.wordRuns_single isWord.toList_ne_nil isWord.2]
  by_cases separator : '_' ∈ word.toList <;> simp [separator]

theorem typeNames_symbolicValue {name counter : String} (nameAvoids : '_' ∉ name.toList)
    (counterAvoids : '_' ∉ counter.toList) :
    typeNames (symbolicValue name counter) =
      [String.ofList (Text.lastRun isExpressionDelimiter name.toList)] := by
  obtain ⟨behind, _, one⟩ := Text.wordRuns_around separator_not_delimiter nameAvoids counterAvoids
  have absent : '_' ∉ Text.lastRun isExpressionDelimiter name.toList := by
    intro member
    exact nameAvoids (List.mem_reverse.mp
      ((List.takeWhile_prefix _).subset (List.mem_reverse.mp member)))
  unfold typeNames
  rw [symbolicValue_toList, one, List.map_singleton, typeName_cut absent]

/-- Counting up keeps the names looked up. -/
theorem typeNames_updateSymbolicValue {value next : String}
    (ends : value.toList.getLast? ≠ some '_') (updated : updateSymbolicValue value = .ok next) :
    typeNames next = typeNames value ∧ next.toList.getLast? ≠ some '_' := by
  unfold updateSymbolicValue at updated
  split at updated
  · rename_i name counter parts
    obtain ⟨nameAvoids, counterAvoids, whole⟩ := Text.split_eq_pair rfl ends parts
    obtain ⟨number, _, returned⟩ := bind_eq_ok.mp updated
    obtain rfl := Except.ok.inj returned
    have valueEq : value = symbolicValue name counter :=
      String.toList_inj.mp (whole.trans (symbolicValue_toList name counter).symm)
    refine ⟨?_, ?_⟩
    · rw [valueEq, typeNames_symbolicValue nameAvoids counterAvoids,
        typeNames_symbolicValue nameAvoids (separator_not_mem_printInt _)]
    · intro last
      rw [symbolicValue_toList, List.getLast?_append_of_ne_nil _ (List.cons_ne_nil _ _),
        List.getLast?_cons_of_ne_nil (printInt_ne_empty _)] at last
      exact separator_not_mem_printInt _ (List.mem_of_getLast? last)
  · cases updated

theorem typeNames_updateExpression {symbolicValues : SymbolicMapping}
    (namesWords : NamesWords symbolicValues) (condition : String) :
    typeNames (updateExpression condition symbolicValues) =
      (Text.tokens expressionDelimiters condition).flatMap
        (fun word => typeNames (symbolicValueOf symbolicValues word)) := by
  have tokens : Text.tokens expressionDelimiters condition =
      (Text.wordRuns isExpressionDelimiter condition.toList).map String.ofList := rfl
  unfold typeNames
  rw [updateExpression_toList, Text.wordRuns_substitute (replaceRun_delimiter namesWords),
    List.filter_flatMap, List.map_flatMap, tokens, List.flatMap_map]
  rfl

theorem typeNames_createNextPathCondition (previous dataGuard : String) :
    typeNames (createNextPathCondition previous dataGuard) =
      typeNames previous ++ typeNames dataGuard := by
  have plain : typeNames Constants.guardTrue = [] := by decide
  unfold createNextPathCondition
  split
  · rename_i same
    rw [same, plain, List.nil_append]
  · split
    · rename_i same
      rw [same, plain, List.append_nil]
    · have chars : (previous ++ " " ++ Constants.guardConjunction ++ " " ++ dataGuard).toList =
          previous.toList ++ ' ' :: (['A', 'N', 'D'] ++ ' ' :: dataGuard.toList) := by
        simp [Constants.guardConjunction]
      have andWord : Text.wordRuns isExpressionDelimiter ['A', 'N', 'D'] = [['A', 'N', 'D']] := by
        decide
      unfold typeNames
      rw [chars, Text.wordRuns_append_delimiter (by decide),
        Text.wordRuns_append_delimiter (by decide), andWord]
      simp

/-- The values of the names have the symbols of their origins. -/
structure Reflects (tiosts : TIOSTS) (origins : Origins) (symbolicValues : SymbolicMapping) :
    Prop where
  domain : ∀ name, (∃ value, symbolicValues.lookup name = some value) ↔ name ∈ tiosts.dataNames
  ends : ∀ name value, symbolicValues.lookup name = some value → value.toList.getLast? ≠ some '_'
  symbols : ∀ name value, symbolicValues.lookup name = some value →
    typeNames value = (origins name).flatMap (askedNames tiosts)
  own : ∀ name, name ∉ tiosts.dataNames → origins name = [name]

theorem Reflects.namesWords {origins : Origins} {symbolicValues : SymbolicMapping}
    (reflects : Reflects tiosts origins symbolicValues)
    (names : ∀ name ∈ tiosts.dataNames, IsWord name) : NamesWords symbolicValues :=
  fun name value found => names name ((reflects.domain name).mp ⟨value, found⟩)

theorem reflects_initial (names : ∀ name ∈ tiosts.dataNames, IsWord name) :
    Reflects tiosts initialOrigins
      (initializeSymbolicValues tiosts.modelVariables tiosts.actionParameters) := by
  have form : ∀ name value,
      (initializeSymbolicValues tiosts.modelVariables tiosts.actionParameters).lookup name =
        some value → name ∈ tiosts.dataNames ∧ value = symbolicValue name "0" := by
    intro name value found
    rw [lookup_initializeSymbolicValues] at found
    split at found
    · rename_i member
      exact ⟨member, (Option.some.inj found).symm⟩
    · cases found
  constructor
  · intro name
    constructor
    · rintro ⟨value, found⟩
      exact (form name value found).1
    · intro member
      exact ⟨_, by rw [lookup_initializeSymbolicValues, if_pos member]⟩
  · intro name value found last
    rw [(form name value found).2, symbolicValue_toList,
      List.getLast?_append_of_ne_nil _ (List.cons_ne_nil _ _)] at last
    exact absurd (Option.some.inj last) (by decide)
  · intro name value found
    obtain ⟨member, valueEq⟩ := form name value found
    have isWord : IsWord (symbolicValue name "0") := by
      constructor
      · intro empty
        have chars := congrArg String.toList empty
        rw [symbolicValue_toList] at chars
        simp at chars
      · intro c inValue
        rw [symbolicValue_toList] at inValue
        rcases List.mem_append.mp inValue with inName | inRest
        · exact (names name member).2 c inName
        · exact (by decide : ∀ c ∈ '_' :: "0".toList, isExpressionDelimiter c = false) c inRest
    have separator : '_' ∈ (symbolicValue name "0").toList := by simp [symbolicValue_toList]
    have head : typeName (symbolicValue name "0").toList = typeName name.toList := by
      rw [symbolicValue_toList]
      by_cases occurs : '_' ∈ name.toList
      · obtain ⟨before, after, cut, absent⟩ := List.eq_append_cons_of_mem occurs
        rw [cut, List.append_assoc, List.cons_append, typeName_cut absent, typeName_cut absent]
      · rw [typeName_cut occurs, typeName_of_not_mem occurs]
    rw [valueEq, typeNames_word isWord, if_pos separator, head]
    simp [initialOrigins, askedNames, member]
  · exact fun _ _ => rfl

theorem Reflects.insert {origins : Origins} {symbolicValues : SymbolicMapping}
    (reflects : Reflects tiosts origins symbolicValues) {name value : String}
    (declared : name ∈ tiosts.dataNames) (ends : value.toList.getLast? ≠ some '_')
    {sources : List String} (symbols : typeNames value = sources.flatMap (askedNames tiosts)) :
    Reflects tiosts (Function.update origins name sources) (symbolicValues.insert name value) := by
  constructor
  · intro other
    by_cases same : other = name
    · rw [same, Finmap.lookup_insert]
      exact ⟨fun _ => declared, fun _ => ⟨value, rfl⟩⟩
    · rw [Finmap.lookup_insert_of_ne _ same]
      exact reflects.domain other
  · intro other otherValue found
    by_cases same : other = name
    · rw [same, Finmap.lookup_insert] at found
      rw [← Option.some.inj found]
      exact ends
    · rw [Finmap.lookup_insert_of_ne _ same] at found
      exact reflects.ends other otherValue found
  · intro other otherValue found
    by_cases same : other = name
    · subst same
      rw [Finmap.lookup_insert] at found
      rw [← Option.some.inj found, Function.update_self]
      exact symbols
    · rw [Finmap.lookup_insert_of_ne _ same] at found
      rw [Function.update_of_ne same]
      exact reflects.symbols other otherValue found
  · intro other undeclared
    have different : other ≠ name := by
      intro same
      rw [same] at undeclared
      exact undeclared declared
    rw [Function.update_of_ne different]
    exact reflects.own other undeclared

/-- Reading an expression gives the symbols of the origins of its words. -/
theorem Reflects.read {origins : Origins} {symbolicValues : SymbolicMapping}
    (reflects : Reflects tiosts origins symbolicValues)
    (names : ∀ name ∈ tiosts.dataNames, IsWord name) (condition : String) :
    typeNames (updateExpression condition symbolicValues) =
      (originsIn origins condition).flatMap (askedNames tiosts) := by
  unfold originsIn
  rw [typeNames_updateExpression (reflects.namesWords names), List.flatMap_assoc]
  apply List.flatMap_congr
  intro word member
  unfold symbolicValueOf
  cases found : symbolicValues.lookup word with
  | some value => exact reflects.symbols word value found
  | none =>
      have undeclared : word ∉ tiosts.dataNames := by
        intro declared
        obtain ⟨value, known⟩ := (reflects.domain word).mpr declared
        rw [found] at known
        cases known
      obtain ⟨run, inRuns, rfl⟩ := List.mem_map.mp member
      have isWord : IsWord (String.ofList run) := isWord_of_run inRuns
      rw [reflects.own _ undeclared, Option.getD_none, typeNames_word isWord]
      simp [askedNames, undeclared]

/-- An expression whose words with a separator are declared does not end with it. -/
theorem Reflects.read_ends {origins : Origins} {symbolicValues : SymbolicMapping}
    (reflects : Reflects tiosts origins symbolicValues) {condition : String}
    (declared : ∀ word ∈ Text.tokens expressionDelimiters condition, '_' ∈ word.toList →
      word ∈ tiosts.dataNames) (names : ∀ name ∈ tiosts.dataNames, IsWord name) :
    (updateExpression condition symbolicValues).toList.getLast? ≠ some '_' := by
  rw [updateExpression_toList]
  apply Text.getLast?_substitute_ne
  intro run member
  have fixed := replaceRun_delimiter (reflects.namesWords names)
  rcases Text.mem_tokenRuns_cases member with ⟨c, delimiter, same⟩ | ⟨nonempty, ordinary⟩
  · rw [same, fixed c delimiter]
    intro last
    have isSeparator : c = '_' := Option.some.inj last
    rw [isSeparator] at delimiter
    cases separator_not_delimiter.symm.trans delimiter
  · unfold replaceRun symbolicValueOf
    cases found : symbolicValues.lookup (String.ofList run) with
    | some value => exact reflects.ends _ value found
    | none =>
        rw [Option.getD_none, String.toList_ofList]
        intro last
        have inRuns : run ∈ Text.wordRuns isExpressionDelimiter condition.toList :=
          List.mem_filter.mpr ⟨member, by simpa using ordinary⟩
        have inWords : String.ofList run ∈ Text.tokens expressionDelimiters condition :=
          List.mem_map_of_mem inRuns
        have known := declared _ inWords
          (by rw [String.toList_ofList]; exact List.mem_of_getLast? last)
        obtain ⟨value, lookup⟩ := (reflects.domain _).mpr known
        rw [found] at lookup
        cases lookup

end Symbols

section Steps

variable {tools : SymbolicTools} {tiosts : TIOSTS}

theorem Reflects.updateParameter {origins : Origins} {update next : ParameterUpdate}
    (reflects : Reflects tiosts origins update.nextSymbolicValues) {parameter : String}
    (updated : updateParameter update parameter = .ok next) :
    Reflects tiosts origins next.nextSymbolicValues := by
  obtain ⟨value, found, updated⟩ := bind_eq_ok.mp updated
  obtain ⟨id, counted, updated⟩ := bind_eq_ok.mp updated
  obtain rfl := Except.ok.inj updated
  have lookup := deref_eq_ok.mp found
  obtain ⟨sameNames, ends⟩ :=
    typeNames_updateSymbolicValue (reflects.ends parameter value lookup) counted
  have inserted := reflects.insert ((reflects.domain parameter).mp ⟨value, lookup⟩) ends
    (sameNames.trans (reflects.symbols parameter value lookup))
  rwa [Function.update_eq_self] at inserted

theorem Reflects.updateParameters {origins : Origins} {symbolicValues : SymbolicMapping}
    (reflects : Reflects tiosts origins symbolicValues) {parameters : List String}
    {update : ParameterUpdate}
    (updated : parameters.foldlM SymbolicExecution.updateParameter ⟨[], ∅, symbolicValues⟩ =
      .ok update) : Reflects tiosts origins update.nextSymbolicValues :=
  Loops.foldlM_returned (fun _ state => Reflects tiosts origins state.nextSymbolicValues)
    updated reflects (fun _ _ _ _ _ _ reflectsHere stepped => reflectsHere.updateParameter stepped)

theorem assigned_of_ok {values next : SymbolicMapping} {assignment : String}
    (assigned : updateSymbolicValueWithAssignment values assignment = .ok next) :
    ∃ target value others,
      Text.split Constants.assignmentSymbol assignment = target :: value :: others ∧
        next = values.insert (Text.trim target) (updateExpression (Text.trim value) values) := by
  unfold updateSymbolicValueWithAssignment at assigned
  split at assigned
  · exact ⟨_, _, _, by assumption, (Except.ok.inj assigned).symm⟩
  · cases assigned

theorem Reflects.updateAssignments (uses : tiosts.UsesDeclaredNames) {label : String}
    {transition : Transition} (inOut : transition ∈ tiosts.outOf label) {origins : Origins}
    {symbolicValues next : SymbolicMapping} (reflects : Reflects tiosts origins symbolicValues)
    (assigned : updateSymbolicValueWithAssignments transition.dataAssignments symbolicValues =
      .ok next) : Reflects tiosts (originsBehind origins transition) next := by
  unfold originsBehind
  cases text : transition.dataAssignments with
  | none =>
      rw [text] at assigned
      obtain rfl := Except.ok.inj assigned
      exact reflects
  | some dataAssignments =>
      rw [text] at assigned
      refine Loops.foldlM_returned (fun done values =>
        Reflects tiosts (done.foldl assignOrigins origins) values) assigned reflects ?_
      intro done assignment rest values after whole reflectsHere stepped
      have form := uses.assignments label transition inOut dataAssignments text assignment
        (by simp [whole])
      rw [List.foldl_append, List.foldl_cons, List.foldl_nil]
      obtain ⟨target, value, others, parts, rfl⟩ := assigned_of_ok stepped
      obtain ⟨declared, words⟩ := form target value others parts
      rw [assignOrigins, parts]
      exact reflectsHere.insert declared (reflectsHere.read_ends words uses.names)
        (reflectsHere.read uses.names (Text.trim value))

/-- What is known of a state behind a path. -/
structure Created (tiosts : TIOSTS) (path : List Transition) (state : SymbolicState) : Prop where
  registers : tiosts.Registers state.location
  reflects : Reflects tiosts (path.foldl originsBehind initialOrigins) state.mapping
  condition : typeNames state.pathCondition =
    (originsRead initialOrigins path).flatMap (askedNames tiosts)

theorem Created.nextZSES (wellFormed : tiosts.WellFormed) (uses : tiosts.UsesDeclaredNames)
    {path : List Transition} {current next : SymbolicState}
    (created : Created tiosts path current) {transition : Transition}
    (listed : transition ∈ current.location.outTransitions) {symbolicAction : SymbolicAction}
    (stepped : nextZSES tools tiosts current transition = .ok (symbolicAction, next)) :
    Created tiosts (path ++ [transition]) next := by
  have inOut : transition ∈ tiosts.outOf current.location.label := by
    rw [TIOSTS.outOf_eq _ _ created.registers]
    exact listed
  have registers := nextZSES_registers wellFormed stepped
  obtain ⟨update, updated, stepped⟩ := bind_eq_ok.mp stepped
  obtain ⟨assigned, assignedEq, stepped⟩ := bind_eq_ok.mp stepped
  obtain ⟨zone, _, stepped⟩ := bind_eq_ok.mp stepped
  obtain ⟨target, _, stepped⟩ := bind_eq_ok.mp stepped
  have received := created.reflects.updateParameters updated
  rw [← (Prod.mk.inj (Except.ok.inj stepped)).2] at registers ⊢
  constructor
  · exact registers
  · rw [List.foldl_append, List.foldl_cons, List.foldl_nil]
    exact received.updateAssignments uses inOut assignedEq
  · have plain : typeNames Constants.guardTrue = [] := by decide
    rw [typeNames_createNextPathCondition, created.condition, originsRead_append,
      List.flatMap_append]
    congr 1
    unfold guardOrigins
    split
    · rename_i isTrue
      rw [isTrue, plain]
      rfl
    · exact received.read uses.names _

end Steps

theorem parseInt_ne_null (text : String) : parseInt text ≠ .error .nullPointer := by
  have digits : ∀ chars, readDigits chars ≠ .error .nullPointer := by
    intro chars failed
    unfold readDigits at failed
    split at failed <;> cases failed
  have checked : ∀ value, checkInt value ≠ .error .nullPointer := by
    intro value failed
    unfold checkInt at failed
    split at failed <;> cases failed
  intro failed
  unfold parseInt at failed
  split at failed
  · rcases bind_eq_error failed with first | ⟨value, _, second⟩
    · exact digits _ first
    · exact checked _ second
  · rcases bind_eq_error failed with first | ⟨value, _, second⟩
    · exact digits _ first
    · exact checked _ second
  · rcases bind_eq_error failed with first | ⟨value, _, second⟩
    · exact digits _ first
    · exact checked _ second

theorem updateSymbolicValue_ne_null (value : String) :
    updateSymbolicValue value ≠ .error .nullPointer := by
  intro failed
  unfold updateSymbolicValue at failed
  split at failed
  · rcases bind_eq_error failed with first | ⟨counter, _, second⟩
    · exact parseInt_ne_null _ first
    · cases second
  · cases failed

theorem deref_eq_error {α : Type} {reference : Option α} {failure : Failure}
    (failed : deref reference = .error failure) : reference = none := by
  cases reference with
  | none => rfl
  | some value => cases failed

theorem mapM_failed {α β : Type} {convert : α → Except Failure β} {items : List α}
    {failure : Failure} (failed : items.mapM convert = .error failure) :
    ∃ item ∈ items, convert item = .error failure := by
  induction items with
  | nil => cases failed
  | cons item items induction =>
      rw [List.mapM_cons] at failed
      rcases bind_eq_error failed with first | ⟨result, _, rest⟩
      · exact ⟨item, List.mem_cons_self, first⟩
      · rcases bind_eq_error rest with later | ⟨results, _, returned⟩
        · obtain ⟨other, member, thrown⟩ := induction later
          exact ⟨other, List.mem_cons_of_mem _ member, thrown⟩
        · cases returned

section Nulls

variable {tools : SymbolicTools} {tiosts : TIOSTS}

theorem Reflects.updateParameters_ne_null {origins : Origins} {symbolicValues : SymbolicMapping}
    (reflects : Reflects tiosts origins symbolicValues) {parameters : List String}
    (declared : ∀ parameter ∈ parameters, parameter ∈ tiosts.dataNames) :
    parameters.foldlM SymbolicExecution.updateParameter ⟨[], ∅, symbolicValues⟩ ≠
      .error .nullPointer := by
  intro failed
  obtain ⟨done, parameter, rest, state, whole, reflectsHere, thrown⟩ :=
    Loops.foldlM_failed (fun _ state => Reflects tiosts origins state.nextSymbolicValues)
      failed reflects
      (fun _ _ _ _ _ _ reflectsHere stepped => reflectsHere.updateParameter stepped)
  obtain ⟨value, found⟩ := (reflectsHere.domain parameter).mpr
    (declared parameter (by simp [whole]))
  rw [SymbolicExecution.updateParameter, found, deref_some, ok_bind] at thrown
  rcases bind_eq_error thrown with first | ⟨id, _, second⟩
  · exact updateSymbolicValue_ne_null value first
  · cases second

theorem updateAssignments_ne_null (dataAssignments : Option String)
    (symbolicValues : SymbolicMapping) :
    updateSymbolicValueWithAssignments dataAssignments symbolicValues ≠ .error .nullPointer := by
  intro failed
  cases dataAssignments with
  | none => cases failed
  | some text =>
      obtain ⟨_, assignment, _, values, _, _, thrown⟩ :=
        Loops.foldlM_failed (fun _ _ => True) failed trivial (fun _ _ _ _ _ _ _ _ => trivial)
      unfold updateSymbolicValueWithAssignment at thrown
      split at thrown <;> cases thrown

theorem createNextZone_ne_null (currentZone : String) (clockGuard : ClockGuard)
    (clockAssignments : Option String) :
    createNextZone tools tiosts currentZone clockGuard clockAssignments ≠ .error .nullPointer := by
  intro failed
  rcases bind_eq_error failed with first | ⟨clockNames, _, second⟩
  · cases clockAssignments with
    | none => cases first
    | some text =>
        obtain ⟨assignment, _, thrown⟩ := mapM_failed first
        unfold clockToReset at thrown
        split at thrown <;> cases thrown
  · cases second

/-- A step from a created state dereferences no null. -/
theorem Created.nextZSES_ne_null (wellFormed : tiosts.WellFormed)
    (uses : tiosts.UsesDeclaredNames) {path : List Transition} {current : SymbolicState}
    (created : Created tiosts path current) {transition : Transition}
    (listed : transition ∈ current.location.outTransitions) :
    SymbolicExecution.nextZSES tools tiosts current transition ≠ .error .nullPointer := by
  have inOut : transition ∈ tiosts.outOf current.location.label := by
    rw [TIOSTS.outOf_eq _ _ created.registers]
    exact listed
  intro failed
  rcases bind_eq_error failed with first | ⟨update, _, failed⟩
  · exact created.reflects.updateParameters_ne_null (uses.parameters _ transition inOut) first
  rcases bind_eq_error failed with second | ⟨assigned, _, failed⟩
  · exact updateAssignments_ne_null _ _ second
  rcases bind_eq_error failed with third | ⟨zone, _, failed⟩
  · exact createNextZone_ne_null _ _ _ third
  rcases bind_eq_error failed with last | ⟨target, _, returned⟩
  · obtain ⟨target, found⟩ :=
      (tiosts.isRegistered_iff _).mp (wellFormed.target_registered inOut)
    have missing := deref_eq_error last
    rw [TIOSTS.getLocation] at missing
    rw [TIOSTS.getLocation, missing] at found
    cases found
  · cases returned

/-- Checking a path condition all of whose ids have types dereferences no null. -/
theorem isReachable_ne_null {state : SymbolicState}
    (resolves : ResolvesTypes tiosts state.pathCondition) :
    isReachable tools (varParamMapping tiosts) state ≠ .error .nullPointer := by
  intro failed
  rcases bind_eq_error failed with checking | ⟨satisfied, _, returned⟩
  · rcases bind_eq_error checking with writing | ⟨input, _, returned⟩
    · rcases bind_eq_error writing with declaring | ⟨text, _, returned⟩
      · obtain ⟨done, token, rest, text, whole, _, thrown⟩ :=
          Loops.foldlM_failed (fun _ _ => True) declaring trivial (fun _ _ _ _ _ _ _ _ => trivial)
        unfold declareToken at thrown
        split at thrown
        · rename_i looks
          obtain ⟨name, others, data, parts, found⟩ := resolves token (by simp [whole]) looks
          rw [parts] at thrown
          simp only [found, deref_some, ok_bind] at thrown
          split at thrown <;> cases thrown
        · cases thrown
      · cases returned
    · cases returned
  · cases returned

end Nulls

/-- The transitions taken and the states passed, the newest first, on a path of the tree. -/
inductive Explores (tools : SymbolicTools) (tiosts : TIOSTS) :
    List Transition → List SymbolicState → Prop where
  | root {location : Location} : initialLocationOf tiosts = .ok location →
      Explores tools tiosts [] [initialState tools tiosts location]
  | step {path : List Transition} {current : SymbolicState} {above : List SymbolicState}
      {transition : Transition} {symbolicAction : SymbolicAction} {next : SymbolicState} :
      Explores tools tiosts path (current :: above) →
      transition ∈ current.location.outTransitions →
      nextZSES tools tiosts current transition = .ok (symbolicAction, next) →
      isReachable tools (varParamMapping tiosts) next = .ok true →
      occursTwice next.location (current :: above) = false →
      Explores tools tiosts (path ++ [transition]) (next :: current :: above)

/-- The execution computes the state behind the path, whether it is added to the tree or
not. -/
def CreatesState (tools : SymbolicTools) (tiosts : TIOSTS) (path : List Transition)
    (state : SymbolicState) : Prop :=
  ∃ earlier current above transition symbolicAction,
    Explores tools tiosts earlier (current :: above) ∧
      transition ∈ current.location.outTransitions ∧
      nextZSES tools tiosts current transition = .ok (symbolicAction, state) ∧
      path = earlier ++ [transition]

section Paths

variable {tools : SymbolicTools} {tiosts : TIOSTS}

theorem Explores.created (wellFormed : tiosts.WellFormed) (uses : tiosts.UsesDeclaredNames)
    {path : List Transition} {history : List SymbolicState}
    (explores : Explores tools tiosts path history) :
    ∀ state ∈ history.head?, Created tiosts path state := by
  induction explores with
  | @root location isInitial =>
      intro state isHead
      rw [← Option.some.inj isHead]
      constructor
      · exact initialLocationOf_registers wellFormed isInitial
      · exact reflects_initial uses.names
      · exact (by decide : typeNames Constants.guardTrue = [])
  | step _ listed stepped _ _ induction =>
      intro state isHead
      rw [← Option.some.inj isHead]
      exact (induction _ rfl).nextZSES wellFormed uses listed stepped

theorem exists_explores {location : Location} (isInitial : initialLocationOf tiosts = .ok location)
    {choices : List Nat} {history : List SymbolicState}
    (run : Unfolding.Run (initialState tools tiosts location) (nextState tools tiosts) choices
      history) : ∃ path, Explores tools tiosts path history := by
  induction run with
  | start => exact ⟨[], .root isInitial⟩
  | @extend choices history choice node _ step induction =>
      obtain ⟨path, explores⟩ := induction
      obtain ⟨branch, chosen, rfl⟩ := Option.map_eq_some_iff.mp step
      cases history with
      | nil => cases chosen
      | cons current above =>
          obtain ⟨transition, listed, stepped, answered, free, _⟩ := choose_eq_some chosen
          exact ⟨_, explores.step (List.mem_of_getElem? listed) stepped answered free⟩

end Paths

/-- A created state has types for all ids of its path condition exactly if the guards on
its path read symbols of typable names only; when all created states do, the execution
never dereferences a null type. -/
theorem execute_resolvesTypes (tools : SymbolicTools) {tiosts : TIOSTS}
    (wellFormed : tiosts.WellFormed) (hasInitial : tiosts.initialLocation.isSome)
    (uses : tiosts.UsesDeclaredNames) :
    (∀ path state, CreatesState tools tiosts path state →
      (ResolvesTypes tiosts state.pathCondition ↔
        ∀ name ∈ originsRead initialOrigins path, IsTypable tiosts name)) ∧
      ((∀ path state, CreatesState tools tiosts path state →
          ∀ name ∈ originsRead initialOrigins path, IsTypable tiosts name) →
        ∀ rounds, execute tools tiosts rounds ≠ .error .nullPointer) := by
  have exactly : ∀ path state, CreatesState tools tiosts path state →
      (ResolvesTypes tiosts state.pathCondition ↔
        ∀ name ∈ originsRead initialOrigins path, IsTypable tiosts name) := by
    intro path state creates
    obtain ⟨earlier, current, above, transition, symbolicAction, explores, listed, stepped, rfl⟩ :=
      creates
    have created :=
      (explores.created wellFormed uses current rfl).nextZSES wellFormed uses listed stepped
    rw [resolvesTypes_iff uses.names, created.condition]
    exact asked_declared_iff _
  refine ⟨exactly, ?_⟩
  intro typable rounds failed
  obtain ⟨label, initial⟩ := Option.isSome_iff_exists.mp hasInitial
  obtain ⟨location, found, _⟩ := wellFormed.initial_registered initial
  have isInitial : initialLocationOf tiosts = .ok location := by
    rw [initialLocationOf, initial, deref_some, ok_bind, found, deref_some]
  obtain ⟨choices, history, run, transition, listed, branchFailed⟩ :=
    execute_failed isInitial failed (by decide)
  obtain ⟨path, explores⟩ := exists_explores isInitial run
  cases history with
  | nil => cases listed
  | cons current above =>
      have created := explores.created wellFormed uses current rfl
      rcases bind_eq_error branchFailed with stepping | ⟨⟨symbolicAction, next⟩, stepped, failing⟩
      · exact created.nextZSES_ne_null wellFormed uses listed stepping
      · rcases bind_eq_error failing with checking | ⟨answer, _, returned⟩
        · have creates : CreatesState tools tiosts (path ++ [transition]) next :=
            ⟨path, current, above, transition, symbolicAction, explores, listed, stepped, rfl⟩
          exact isReachable_ne_null ((exactly _ _ creates).mpr (typable _ _ creates)) checking
        · cases returned

namespace SeparatorInName

def declared (names : List String) : TIOSTS :=
  .declare "N" [LoopInstance.enter] (names.map (fun name => ⟨name, .integer⟩)) [] []

def check : Transition :=
  { Transition.bare "r" LoopInstance.enter "n" with dataGuard := .written "x_y > 0" }

/-- The only guard reads the variable `x_y`. -/
def model (names : List String) : TIOSTS := .assemble (declared names) ["r", "n"] "r" [check]

section Model

variable (names : List String)

theorem uses : (declared names).Uses ["r", "n"] "r" [check] := by
  constructor
  · decide
  · intro transition member
    rw [List.mem_singleton.mp member]
    exact ⟨by decide, by decide, rfl⟩

theorem wellFormed : (model names).WellFormed :=
  TIOSTS.assemble_wellFormed (TIOSTS.declare_isBlank _ _ _ _ _) (uses names)

theorem hasInitial : (model names).initialLocation.isSome := by
  have initial : (model names).initialLocation = some "r" := TIOSTS.assemble_initialLocation
  rw [initial]
  rfl

theorem dataNames_eq : (model names).dataNames = names := by
  have same : (model names).dataNames = (declared names).dataNames := TIOSTS.assemble_dataNames
  rw [same]
  simp [TIOSTS.dataNames, declared, TIOSTS.declare, Function.comp_def]

theorem usesDeclaredNames (words : ∀ name ∈ names, IsWord name) :
    (model names).UsesDeclaredNames := by
  have only : ∀ {label transition}, transition ∈ (model names).outOf label →
      transition = check := by
    intro label transition member
    have blank : (declared names).IsBlank := TIOSTS.declare_isBlank _ _ _ _ _
    unfold model at member
    rw [TIOSTS.assemble_outOf blank (uses names)] at member
    exact List.mem_singleton.mp (List.mem_filter.mp member).1
  constructor
  · rw [dataNames_eq]
    exact words
  · intro label transition member parameter carried
    rw [only member] at carried
    cases carried
  · intro label transition member text assigned
    rw [only member] at assigned
    cases assigned

/-- The initial transition creates a state. -/
theorem exists_created : ∃ state, CreatesState LoopInstance.tools (model names) [check] state := by
  have initial : (model names).initialLocation = some "r" := TIOSTS.assemble_initialLocation
  obtain ⟨location, found, _⟩ := (wellFormed names).initial_registered initial
  have isInitial : initialLocationOf (model names) = .ok location := by
    rw [initialLocationOf, initial, deref_some, ok_bind, found, deref_some]
  have outgoing := TIOSTS.outOf_eq _ _ found
  have blank : (declared names).IsBlank := TIOSTS.declare_isBlank _ _ _ _ _
  unfold model at outgoing
  rw [TIOSTS.assemble_outOf blank (uses names)] at outgoing
  have listed : check ∈ location.outTransitions := by
    rw [← outgoing]
    exact List.mem_singleton.mpr rfl
  have inOut : check ∈ (model names).outOf "r" := by
    rw [TIOSTS.outOf_eq _ _ found]
    exact listed
  obtain ⟨target, targetFound⟩ :=
    ((model names).isRegistered_iff _).mp ((wellFormed names).target_registered inOut)
  have stepped : ∃ symbolicAction state, nextZSES LoopInstance.tools (model names)
      (initialState LoopInstance.tools (model names) location) check =
        .ok (symbolicAction, state) := by
    unfold nextZSES
    rw [targetFound]
    exact ⟨_, _, rfl⟩
  obtain ⟨symbolicAction, state, stepped⟩ := stepped
  exact ⟨state, [], _, [], check, symbolicAction, .root isInitial, listed, stepped, rfl⟩

end Model

end SeparatorInName

open SeparatorInName in
/-- With `x` declared as well, the id of `x_y` gets the type of `x`. -/
theorem execute_resolvesTypes_other_name :
    ∃ state, CreatesState LoopInstance.tools (model ["x", "x_y"]) [check] state ∧
      ResolvesTypes (model ["x", "x_y"]) state.pathCondition := by
  obtain ⟨state, creates⟩ := exists_created ["x", "x_y"]
  refine ⟨state, creates, ?_⟩
  apply ((execute_resolvesTypes LoopInstance.tools (wellFormed _) (hasInitial _)
    (usesDeclaredNames _ (by decide))).1 _ _ creates).mpr
  intro name member
  unfold IsTypable
  rw [dataNames_eq]
  revert name
  decide

open SeparatorInName in
/-- Without it the execution dereferences a null type. -/
theorem execute_null_type :
    (model ["x_y"]).WellFormed ∧ (model ["x_y"]).UsesDeclaredNames ∧
      (∃ path state, CreatesState LoopInstance.tools (model ["x_y"]) path state ∧
        ¬ ResolvesTypes (model ["x_y"]) state.pathCondition) ∧
      ∀ rounds, execute LoopInstance.tools (model ["x_y"]) (rounds + 1) =
        .error .nullPointer := by
  have declaredUses := usesDeclaredNames ["x_y"] (by decide)
  refine ⟨wellFormed _, declaredUses, ?_, fun rounds => rfl⟩
  obtain ⟨state, creates⟩ := exists_created ["x_y"]
  refine ⟨[check], state, creates, ?_⟩
  obtain ⟨earlier, current, above, transition, symbolicAction, explores, listed, stepped, path⟩ :=
    creates
  have created := (explores.created (wellFormed _) declaredUses current rfl).nextZSES
    (wellFormed _) declaredUses listed stepped
  rw [← path] at created
  rw [resolvesTypes_iff declaredUses.names, created.condition, asked_declared_iff]
  intro all
  have read := all "x_y" (by decide)
  unfold IsTypable at read
  rw [dataNames_eq] at read
  exact absurd (read (by decide)) (by decide)

end SymbolicExecution

end Symbolrt
