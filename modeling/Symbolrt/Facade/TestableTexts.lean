import Symbolrt.Compiler.PrintedTexts
import Symbolrt.Facade.GenerationReturns

/-!
# Texts that test cases are generated from

The assumptions of the generation, read off the declarations of a text.  A specification and a
test purpose that meet them are compiled to models that the generation accepts.
-/

namespace Symbolrt

open SYMBOLRT SymbolicExecution SynchronousProduct

section Models

variable {tables : TranslationUnit} {process : AbstractTIOSTS} {model : TIOSTS}

theorem AbstractTIOSTS.IsCompiled.exists_declaration (isCompiled : process.IsCompiled tables model)
    {label : String} {transition : Transition} (member : transition ∈ model.outOf label) :
    transition.source = label ∧
      ∃ trans ∈ process.transitions, CompilesTo model trans transition := by
  obtain ⟨created, compiled, holds⟩ := isCompiled.transitions
  rw [holds.outOf] at member
  obtain ⟨among, isSource⟩ := List.mem_filter.mp member
  obtain ⟨trans, declared, compiles⟩ := InStep.exists_left compiled among
  exact ⟨(of_decide_eq_true isSource).symm, trans, declared, compiles⟩

theorem AbstractTIOSTS.IsCompiled.exists_transition (isCompiled : process.IsCompiled tables model)
    {trans : AbstractTransition} (declared : trans ∈ process.transitions) :
    ∃ transition ∈ model.outOf trans.source, CompilesTo model trans transition := by
  obtain ⟨created, compiled, holds⟩ := isCompiled.transitions
  obtain ⟨transition, among, compiles⟩ := InStep.exists_right compiled declared
  refine ⟨transition, ?_, compiles⟩
  rw [holds.outOf]
  exact List.mem_filter.mpr ⟨among, decide_eq_true compiles.source.symm⟩

/-- The initial locations are the states that are declared as such. -/
theorem AbstractTIOSTS.IsCompiled.isInitial_iff (isCompiled : process.IsCompiled tables model)
    (distinct : process.stateNames.Nodup) (label : String) : model.isInitial label = true ↔
      label ∈ (process.states.filter StateElement.isInitial).map StateElement.name := by
  rw [isCompiled.isInitial]
  constructor
  · intro flag
    cases found : process.states.find? (fun e => e.name == label) with
    | none =>
        rw [found] at flag
        cases flag
    | some e =>
        rw [found] at flag
        have named : (e.name == label) = true := by simpa using List.find?_some found
        exact List.mem_map.mpr ⟨e, List.mem_filter.mpr
          ⟨List.mem_of_find?_eq_some found, flag⟩, eq_of_beq named⟩
  · intro listed
    obtain ⟨e, member, rfl⟩ := List.mem_map.mp listed
    obtain ⟨among, isInitial⟩ := List.mem_filter.mp member
    have found : (process.states.find? (fun other => other.name == e.name)).isSome := by
      rw [List.find?_isSome]
      exact ⟨e, among, beq_self_eq_true _⟩
    obtain ⟨other, isFirst⟩ := Option.isSome_iff_exists.mp found
    have named : (other.name == e.name) = true := by
      simpa using List.find?_some isFirst
    have same := nodup_inj distinct (List.mem_of_find?_eq_some isFirst) among (eq_of_beq named)
    rw [isFirst, same]
    exact isInitial

theorem AbstractTIOSTS.IsCompiled.wellFormed (isCompiled : process.IsCompiled tables model)
    (distinct : process.stateNames.Nodup) (uses : process.UsesDeclared) : model.WellFormed where
  label_eq := isCompiled.labelled
  source_eq := fun member => (isCompiled.exists_declaration member).1
  target_registered := by
    intro label transition member
    obtain ⟨_, trans, declared, compiles⟩ := isCompiled.exists_declaration member
    rw [isCompiled.isRegistered]
    exact (uses trans declared).target _ compiles.target
  action_declared := by
    intro label transition member
    obtain ⟨_, trans, declared, compiles⟩ := isCompiled.exists_declaration member
    obtain ⟨_, type, name⟩ := TIOSTS.getAction_eq_some compiles.action
    refine ⟨transition.action, ?_⟩
    rw [type, name]
    exact compiles.action
  initial_registered := by
    intro label initial
    rw [isCompiled.initialLocation] at initial
    obtain ⟨e, isLast, rfl⟩ := Option.map_eq_some_iff.mp initial
    apply TIOSTS.exists_of_isInitial
    rw [isCompiled.isInitial_iff distinct]
    exact List.mem_map_of_mem (List.mem_of_getLast? isLast)
  stored := by
    intro key transition found
    obtain ⟨created, compiled, holds⟩ := isCompiled.transitions
    rw [holds.lookup] at found
    obtain ⟨among, isKey⟩ := List.mem_filter.mp (List.mem_of_getLast? found)
    refine ⟨(of_decide_eq_true isKey).symm, ?_⟩
    rw [holds.outOf]
    exact List.mem_filter.mpr ⟨among, decide_eq_true rfl⟩

end Models

theorem ParametersText.action_identifier (act : AbstractAction) (text : ParametersText) :
    (text.action act).identifier = act.identifier := by
  have directed : (setDirection (text.direction.map Subtype.val) act).identifier =
      act.identifier := by
    cases text.direction with
    | none => rfl
    | some direction => rfl
  rw [← directed, ParametersText.action]
  generalize setDirection (text.direction.map Subtype.val) act = current
  induction text.parameters generalizing current with
  | nil => rfl
  | cons name names induction =>
      have added : (current.addParameter name.1.image).identifier = current.identifier := by
        rw [AbstractAction.addParameter]
        split
        · rfl
        · rfl
      exact (induction _).trans added

namespace TransitionText

/-- A declaration without sync clause makes the internal step. -/
def actionName (text : TransitionText) : String :=
  text.action.elim "tau" (fun action => action.name.1.image)

/-- What the product tells the transitions apart by. -/
def key (text : TransitionText) : String × String × String :=
  (text.source.1.image, text.actionName, text.destination.1.image)

/-- The tokens of the two guards, none where none is written. -/
def guards (text : TransitionText) : Option (List Token) × Option (List Token) :=
  (text.clockGuard.map ClockGuardText.body, text.guardTokens)

/-- Completion can negate the guards: there is no clock guard, or it is one comparison other
than an equation and the data guard is the constant. -/
def IsNegatable (text : TransitionText) : Prop :=
  text.clockGuard.isNone = true ∨ text.guardTokens = some [.keyword .trueTk] ∧
    text.comparisons.length ≤ 1 ∧
      ∀ comparison ∈ text.comparisons, comparison.operator.1 ≠ .keyword .equalsTk

instance (text : TransitionText) : Decidable text.IsNegatable :=
  inferInstanceAs (Decidable (_ ∨ _ ∧ _ ∧ _))

section Compiled

variable {model : TIOSTS} {tables : TranslationUnit} {text other : TransitionText}
  {transition otherTransition : Transition}

theorem usedAction_name (tables : TranslationUnit) (text : TransitionText) :
    (text.transition tables).usedAction.2 = text.actionName := by
  obtain ⟨source, clockGuard, dataGuard, action, statement, deadline, destination⟩ := text
  rcases action with _ | ⟨name, _ | listed⟩
  · rfl
  · rfl
  · exact listed.action_identifier _

theorem action_name (compiles : CompilesTo model (text.transition tables) transition) :
    transition.action.name = text.actionName := by
  rw [← text.usedAction_name tables]
  exact (TIOSTS.getAction_eq_some compiles.action).2.2

theorem target_eq (compiles : CompilesTo model (text.transition tables) transition) :
    transition.target = text.destination.1.image := (Option.some.inj compiles.target).symm

/-- Declarations with the same guards are compiled to transitions with the same guards. -/
theorem guards_eq (compiles : CompilesTo model (text.transition tables) transition)
    (otherCompiles : CompilesTo model (other.transition tables) otherTransition)
    (same : text.guards = other.guards) :
    transition.dataGuard = otherTransition.dataGuard ∧
      transition.clockGuard = otherTransition.clockGuard := by
  obtain ⟨sameClocks, sameData⟩ := Prod.ext_iff.mp same
  have sameClocks : text.clockGuard.map ClockGuardText.body =
      other.clockGuard.map ClockGuardText.body := sameClocks
  have sameData : text.guardTokens = other.guardTokens := sameData
  constructor
  · rw [compiles.dataGuard, otherCompiles.dataGuard, createGuard_dataGuard,
      createGuard_dataGuard, sameData]
  · have read := compiles.clockGuard
    have otherRead := otherCompiles.clockGuard
    rw [createGuard_clockGuard, sameClocks] at read
    rw [createGuard_clockGuard] at otherRead
    exact Option.some.inj (read.symm.trans otherRead)

theorem isCompletable (compiles : CompilesTo model (text.transition tables) transition)
    (negatable : text.IsNegatable) : transition.IsCompletable := by
  obtain ⟨simples, spells, clockGuard⟩ := text.exists_clockGuard compiles
  have balanced : Formula.BalancedText transition.dataGuard.text := by
    rw [compiles.dataGuard]
    exact text.dataGuard_balanced tables
  rcases negatable with unguarded | ⟨constant, single, noEquation⟩
  · have none : text.comparisons = [] := by
      rw [comparisons, Option.isNone_iff_eq_none.mp unguarded]
      rfl
    rw [none, List.forall₂_nil_left_iff] at spells
    rw [spells] at clockGuard
    refine ⟨Or.inr clockGuard, ?_, ?_, balanced⟩
    · rw [clockGuard]
      exact Nat.zero_le 1
    · rw [clockGuard]
      exact fun simple impossible => absurd impossible List.not_mem_nil
  · have isTrue : transition.dataGuard.text = Constants.guardTrue := by
      rw [compiles.dataGuard, createGuard_dataGuard, constant]
      decide
    refine ⟨Or.inl isTrue, ?_, ?_, balanced⟩
    · rw [clockGuard, ClockGuard.renumber, List.length_map, ← spells.length_eq]
      exact single
    · intro simple member
      rw [clockGuard] at member
      obtain ⟨written, among, rfl⟩ := List.mem_map.mp member
      obtain ⟨comparison, listed, spelled⟩ := InStep.exists_left spells among
      exact spelled.isNegatable (noEquation comparison listed)

end Compiled

end TransitionText

/-- A variable of the specification that is no parameter. -/
def AbstractTIOSTS.IsAssignable (spec : AbstractTIOSTS) (name : String) : Prop :=
  name ∈ spec.modelVariables.map TypedElement.name ∧
    name ∉ spec.parameters.map TypedElement.name

instance (spec : AbstractTIOSTS) (name : String) : Decidable (spec.IsAssignable name) :=
  inferInstanceAs (Decidable (_ ∧ _))

/-- The process is what the parser keeps of the text. -/
structure ProcessText.IsReadAs (specificationID : String) (tables : TranslationUnit)
    (text : ProcessText) (process : AbstractTIOSTS) : Prop where
  transitions : process.transitions = text.transitions.toList.map (TransitionText.transition tables)
  isSpecification : process.isSpecification = decide (text.name.1.image = specificationID)
  states : process.stateNames.Nodup
  labels : ∀ label ∈ process.stateNames, isIdentifier label = true
  named : ∀ element ∈ process.modelVariables ++ process.parameters,
    isIdentifier element.name = true
  parameters : (process.parameters.map TypedElement.name).Nodup

/-- The declarations of a process of a text with these clocks. -/
structure ProcessText.IsTestable (spec : AbstractTIOSTS) (clocks : List String)
    (text : ProcessText) : Prop where
  keyed : ∀ declaration ∈ text.transitions.toList, ∀ other ∈ text.transitions.toList,
    declaration.key = other.key → declaration.guards = other.guards
  plain : ∀ declaration ∈ text.transitions.toList, ∀ token ∈ declaration.guardTokens.getD [],
    '_' ∉ token.image.toList
  assigns : ∀ declaration ∈ text.transitions.toList, ∀ assignment ∈ declaration.assigned,
    assignment.target.1.image ∉ clocks → spec.IsAssignable assignment.target.1.image ∧
      ∀ token ∈ assignment.value.write, '_' ∉ token.image.toList

set_option synthInstance.maxSize 1000 in
instance (spec : AbstractTIOSTS) (clocks : List String) (text : ProcessText) :
    Decidable (text.IsTestable spec clocks) :=
  decidable_of_iff
    ((∀ declaration ∈ text.transitions.toList, ∀ other ∈ text.transitions.toList,
        declaration.key = other.key → declaration.guards = other.guards) ∧
      (∀ declaration ∈ text.transitions.toList, ∀ token ∈ declaration.guardTokens.getD [],
        '_' ∉ token.image.toList) ∧
      ∀ declaration ∈ text.transitions.toList, ∀ assignment ∈ declaration.assigned,
        assignment.target.1.image ∉ clocks → spec.IsAssignable assignment.target.1.image ∧
          ∀ token ∈ assignment.value.write, '_' ∉ token.image.toList)
    ⟨fun all => ⟨all.1, all.2.1, all.2.2⟩,
      fun declares => ⟨declares.keyed, declares.plain, declares.assigns⟩⟩

/-- What is asked of a specification and a test purpose that start at the pair. -/
structure SystemUnit.AreTestable (unit : SystemUnit) (specText tpText : ProcessText)
    (spec tp : AbstractTIOSTS) (root : LocationPair) : Prop where
  specInitial : (spec.states.filter StateElement.isInitial).map StateElement.name =
    [root.specLabel]
  tpInitial : (tp.states.filter StateElement.isInitial).map StateElement.name = [root.tpLabel]
  leaves : ∃ declaration ∈ specText.transitions.toList,
    declaration.source.1.image = root.specLabel
  ordinary : root.tpLabel ≠ Constants.locationLabelReject ∧ ¬ root.NamesAccept
  -- which names and clocks are used
  labels : ∀ label ∈ spec.stateNames, '_' ∉ label.toList
  names : ∀ element ∈ spec.modelVariables ++ spec.parameters, '_' ∉ element.name.toList
  numbered : ∀ declaration ∈ specText.transitions.toList, ∀ comparison ∈ declaration.comparisons,
    comparison.clock.1.image ∈ unit.clocks
  parameters : ∀ act ∈ spec.declaredActions,
    ∀ parameter ∈ (unit.paramTable.lookup act.identifier).getD [],
      parameter ∈ spec.parameters.map TypedElement.name
  tpParameters : ∀ element ∈ tp.parameters,
    element.name ∈ (spec.modelVariables ++ spec.parameters).map TypedElement.name
  -- what is declared
  specDeclares : specText.IsTestable spec unit.clocks
  tpDeclares : tpText.IsTestable spec unit.clocks
  negatable : ∀ declaration ∈ tpText.transitions.toList, declaration.IsNegatable
  rejectsApart : ∀ declaration ∈ tpText.transitions.toList,
    ∀ other ∈ tpText.transitions.toList, declaration.source.1.image = other.source.1.image →
      declaration.destination.1.image = Constants.locationLabelReject →
      other.destination.1.image = other.source.1.image →
      declaration.actionName ≠ other.actionName

set_option synthInstance.maxSize 1000 in
instance (unit : SystemUnit) (specText tpText : ProcessText) (spec tp : AbstractTIOSTS)
    (root : LocationPair) : Decidable (unit.AreTestable specText tpText spec tp root) :=
  decidable_of_iff
    ((spec.states.filter StateElement.isInitial).map StateElement.name = [root.specLabel] ∧
      (tp.states.filter StateElement.isInitial).map StateElement.name = [root.tpLabel] ∧
      (∃ declaration ∈ specText.transitions.toList,
        declaration.source.1.image = root.specLabel) ∧
      (root.tpLabel ≠ Constants.locationLabelReject ∧ ¬ root.NamesAccept) ∧
      (∀ label ∈ spec.stateNames, '_' ∉ label.toList) ∧
      (∀ element ∈ spec.modelVariables ++ spec.parameters, '_' ∉ element.name.toList) ∧
      (∀ declaration ∈ specText.transitions.toList, ∀ comparison ∈ declaration.comparisons,
        comparison.clock.1.image ∈ unit.clocks) ∧
      (∀ act ∈ spec.declaredActions,
        ∀ parameter ∈ (unit.paramTable.lookup act.identifier).getD [],
          parameter ∈ spec.parameters.map TypedElement.name) ∧
      (∀ element ∈ tp.parameters,
        element.name ∈ (spec.modelVariables ++ spec.parameters).map TypedElement.name) ∧
      specText.IsTestable spec unit.clocks ∧ tpText.IsTestable spec unit.clocks ∧
      (∀ declaration ∈ tpText.transitions.toList, declaration.IsNegatable) ∧
      ∀ declaration ∈ tpText.transitions.toList, ∀ other ∈ tpText.transitions.toList,
        declaration.source.1.image = other.source.1.image →
          declaration.destination.1.image = Constants.locationLabelReject →
          other.destination.1.image = other.source.1.image →
          declaration.actionName ≠ other.actionName)
    ⟨fun ⟨specInitial, tpInitial, leaves, ordinary, labels, names, numbered, parameters,
        tpParameters, specDeclares, tpDeclares, negatable, rejectsApart⟩ =>
      ⟨specInitial, tpInitial, leaves, ordinary, labels, names, numbered, parameters,
        tpParameters, specDeclares, tpDeclares, negatable, rejectsApart⟩,
    fun ⟨specInitial, tpInitial, leaves, ordinary, labels, names, numbered, parameters,
        tpParameters, specDeclares, tpDeclares, negatable, rejectsApart⟩ =>
      ⟨specInitial, tpInitial, leaves, ordinary, labels, names, numbered, parameters,
        tpParameters, specDeclares, tpDeclares, negatable, rejectsApart⟩⟩

/-- A text of which two processes are a specification and a test purpose. -/
structure SystemText.IsTestable (system : SystemText) (unit : SystemUnit)
    (specText tpText : ProcessText) (spec tp : AbstractTIOSTS) (root : LocationPair) : Prop where
  compilable : system.IsCompilable specText.name.1.image unit
  specListed : specText ∈ system.processes.toList
  tpListed : tpText ∈ system.processes.toList
  other : tpText.name.1.image ≠ specText.name.1.image
  specKept : spec ∈ unit.models
  specNamed : spec.processName = specText.name.1.image
  tpKept : tp ∈ unit.models
  tpNamed : tp.processName = tpText.name.1.image
  areTestable : unit.AreTestable specText tpText spec tp root

section Testable

variable {specificationID : String} {system : SystemText} {unit : SystemUnit}
  {text specText tpText : ProcessText} {process spec tp : AbstractTIOSTS} {root : LocationPair}
  {tables : TranslationUnit} {model specModel tpModel : TIOSTS}

theorem SystemText.IsCompilable.isReadAs (compilable : system.IsCompilable specificationID unit)
    (listed : text ∈ system.processes.toList) (kept : process ∈ unit.models)
    (named : process.processName = text.name.1.image) :
    text.IsReadAs specificationID unit.toTranslationUnit process := by
  obtain ⟨parameters, are, _, read⟩ := compilable.exists_process listed
  have isOpen := text.declared_isOpen specificationID
  have distinct : (unit.models.map AbstractTIOSTS.processName).Nodup := by
    have names : unit.names.Nodup := compilable.names ▸ compilable.distinct
    exact names
  cases nodup_inj distinct kept read (named.trans isOpen.processName.symm)
  refine ⟨rfl, isOpen.isSpecification, isOpen.states, ?_, ?_, are.distinct⟩
  · exact List.forall_mem_map.mpr isOpen.named.2
  · exact List.forall_mem_append.mpr ⟨isOpen.named.1, are.named⟩

theorem ProcessText.IsReadAs.exists_declaration
    (isReadAs : text.IsReadAs specificationID tables process)
    (isCompiled : process.IsCompiled tables model) {label : String} {transition : Transition}
    (member : transition ∈ model.outOf label) : transition.source = label ∧
      ∃ declaration ∈ text.transitions.toList, declaration.source.1.image = label ∧
        CompilesTo model (declaration.transition tables) transition := by
  obtain ⟨source, trans, declared, compiles⟩ := isCompiled.exists_declaration member
  rw [isReadAs.transitions] at declared
  obtain ⟨declaration, listed, rfl⟩ := List.mem_map.mp declared
  exact ⟨source, declaration, listed, compiles.source.symm.trans source, compiles⟩

theorem ProcessText.IsTestable.keyedGuards (declares : text.IsTestable spec tables.clocks)
    (isReadAs : text.IsReadAs specificationID tables process)
    (isCompiled : process.IsCompiled tables model) : model.KeyedGuards (fun _ => True) := by
  intro label transition member otherTransition otherMember sameAction sameTarget _
  obtain ⟨_, declaration, listed, source, compiles⟩ := isReadAs.exists_declaration isCompiled member
  obtain ⟨_, other, otherListed, otherSource, otherCompiles⟩ :=
    isReadAs.exists_declaration isCompiled otherMember
  apply TransitionText.guards_eq compiles otherCompiles
  apply declares.keyed declaration listed other otherListed
  rw [TransitionText.key, TransitionText.key, source, otherSource,
    ← TransitionText.action_name compiles, ← TransitionText.action_name otherCompiles,
    ← TransitionText.target_eq compiles, ← TransitionText.target_eq otherCompiles, sameAction,
    sameTarget]

theorem ProcessText.IsTestable.isWritten (declares : text.IsTestable spec tables.clocks)
    (isReadAs : text.IsReadAs specificationID tables process)
    (isCompiled : process.IsCompiled tables model) {allowed : String → Prop}
    (assignable : ∀ name, spec.IsAssignable name → allowed name) : model.IsWritten allowed := by
  intro label transition member
  obtain ⟨_, declaration, listed, _, compiles⟩ := isReadAs.exists_declaration isCompiled member
  apply TransitionText.isWritten compiles (declares.plain declaration listed)
  intro assignment among isData
  obtain ⟨target, plain⟩ := declares.assigns declaration listed assignment among isData
  exact ⟨assignable _ target, plain⟩

theorem not_mem_of_isIdentifier {name : String} (isIdentifier : isIdentifier name = true) {c : Char}
    (other : isNameChar c = false) : c ∉ name.toList := by
  intro member
  cases other.symm.trans ((isName_chars (isName_of_isIdentifier isIdentifier)).2 c member)

theorem isWord_of_isIdentifier {name : String} (isIdentifier : isIdentifier name = true) :
    IsWord name := by
  refine ⟨?_, Token.identifier_isWord isIdentifier⟩
  rintro rfl
  cases isIdentifier

theorem map_typedData (elements : List TypedElement) :
    (elements.map TypedElement.typedData).map TypedData.name = elements.map TypedElement.name := by
  rw [List.map_map]
  rfl

/-- Only the inputs and the outputs of a process have parameters. -/
theorem exists_declaredAction {type : ActionType} {action : Action} {parameter : String}
    (member : action ∈ compiledActions tables process type)
    (listed : parameter ∈ action.parameters) : ∃ act ∈ process.declaredActions,
      parameter ∈ (tables.paramTable.lookup act.identifier).getD [] := by
  cases type with
  | input =>
      obtain ⟨act, among, rfl⟩ := List.mem_map.mp member
      exact ⟨act, List.mem_append_left _ among, listed⟩
  | output =>
      obtain ⟨act, among, rfl⟩ := List.mem_map.mp member
      exact ⟨act, List.mem_append_right _ among, listed⟩
  | internal =>
      have member : action ∈ compiledInternalActions process := member
      rw [compiledInternalActions] at member
      split at member
      · cases List.mem_singleton.mp member
        cases listed
      · obtain ⟨act, among, rfl⟩ := List.mem_map.mp member
        cases listed

namespace AbstractTIOSTS.IsCompiled

theorem specClocks (isCompiled : process.IsCompiled tables model)
    (specified : process.isSpecification = true) : model.clocks = tables.clocks := by
  rw [isCompiled.clocks, specified]
  rfl

theorem tpClocks (isCompiled : process.IsCompiled tables model)
    (unspecified : process.isSpecification = false) : model.clocks = [] := by
  rw [isCompiled.clocks, unspecified]
  rfl

theorem specVariables (isCompiled : process.IsCompiled tables model)
    (specified : process.isSpecification = true) :
    model.modelVariables.map TypedData.name =
      process.modelVariables.map TypedElement.name := by
  rw [isCompiled.modelVariables, specified]
  exact map_typedData _

theorem tpVariables (isCompiled : process.IsCompiled tables model)
    (unspecified : process.isSpecification = false) : model.modelVariables = [] := by
  rw [isCompiled.modelVariables, unspecified]
  rfl

theorem parameterNames (isCompiled : process.IsCompiled tables model) :
    model.actionParameters.map TypedData.name = process.parameters.map TypedElement.name := by
  rw [isCompiled.actionParameters]
  exact map_typedData _

end AbstractTIOSTS.IsCompiled

namespace SystemText.IsTestable

theorem specRead (testable : system.IsTestable unit specText tpText spec tp root) :
    specText.IsReadAs specText.name.1.image unit.toTranslationUnit spec :=
  testable.compilable.isReadAs testable.specListed testable.specKept testable.specNamed

theorem tpRead (testable : system.IsTestable unit specText tpText spec tp root) :
    tpText.IsReadAs specText.name.1.image unit.toTranslationUnit tp :=
  testable.compilable.isReadAs testable.tpListed testable.tpKept testable.tpNamed

theorem specified (testable : system.IsTestable unit specText tpText spec tp root) :
    spec.isSpecification = true :=
  testable.specRead.isSpecification.trans (decide_eq_true rfl)

theorem unspecified (testable : system.IsTestable unit specText tpText spec tp root) :
    tp.isSpecification = false :=
  testable.tpRead.isSpecification.trans (decide_eq_false testable.other)

variable (testable : system.IsTestable unit specText tpText spec tp root)

include testable

theorem isTarget (specCompiled : spec.IsCompiled unit.toTranslationUnit specModel)
    (tpCompiled : tp.IsCompiled unit.toTranslationUnit tpModel) {name : String}
    (assignable : spec.IsAssignable name) : IsTarget specModel tpModel name := by
  rw [IsTarget, tpCompiled.tpVariables testable.unspecified, List.append_nil,
    specCompiled.specVariables testable.specified, specCompiled.parameterNames]
  exact assignable

theorem leavesRoot (specCompiled : spec.IsCompiled unit.toTranslationUnit specModel) :
    specModel.outOf root.specLabel ≠ [] := by
  obtain ⟨declaration, listed, source⟩ := testable.areTestable.leaves
  have declared : declaration.transition unit.toTranslationUnit ∈ spec.transitions := by
    rw [testable.specRead.transitions]
    exact List.mem_map_of_mem listed
  obtain ⟨transition, leaves, _⟩ := specCompiled.exists_transition declared
  rw [← source]
  exact List.ne_nil_of_mem leaves

theorem specLabels (specCompiled : spec.IsCompiled unit.toTranslationUnit specModel) :
    specModel.LabelsAvoid ['_', '#'] := by
  intro label registered c excluded
  have declared := (specCompiled.isRegistered label).mp registered
  rcases List.mem_pair.mp excluded with rfl | rfl
  · exact testable.areTestable.labels label declared
  · exact not_mem_of_isIdentifier (testable.specRead.labels label declared) (by decide)

theorem tpLabels (tpCompiled : tp.IsCompiled unit.toTranslationUnit tpModel) :
    tpModel.LabelsAvoid ['#'] := by
  intro label registered
  have declared := (tpCompiled.isRegistered label).mp registered
  exact List.forall_mem_singleton.mpr
    (not_mem_of_isIdentifier (testable.tpRead.labels label declared) (by decide))

theorem rejectsApart (tpCompiled : tp.IsCompiled unit.toTranslationUnit tpModel) :
    tpModel.RejectsApart := by
  intro label transition member otherTransition otherMember rejects returns
  obtain ⟨_, declaration, listed, source, compiles⟩ :=
    testable.tpRead.exists_declaration tpCompiled member
  obtain ⟨_, other, otherListed, otherSource, otherCompiles⟩ :=
    testable.tpRead.exists_declaration tpCompiled otherMember
  rw [TransitionText.action_name compiles, TransitionText.action_name otherCompiles]
  apply testable.areTestable.rejectsApart declaration listed other otherListed
    (source.trans otherSource.symm)
  · exact (TransitionText.target_eq compiles).symm.trans rejects
  · exact (TransitionText.target_eq otherCompiles).symm.trans (returns.trans otherSource.symm)

theorem numberedClocks (specCompiled : spec.IsCompiled unit.toTranslationUnit specModel) :
    specModel.NumberedClocks := by
  intro label transition member simple among
  obtain ⟨_, declaration, listed, _, compiles⟩ :=
    testable.specRead.exists_declaration specCompiled member
  obtain ⟨simples, spells, clockGuard⟩ := declaration.exists_clockGuard compiles
  rw [clockGuard] at among
  obtain ⟨written, inside, rfl⟩ := List.mem_map.mp among
  obtain ⟨comparison, compared, spelled⟩ := InStep.exists_left spells inside
  refine ⟨?_, rfl⟩
  have clock := testable.areTestable.numbered declaration listed comparison compared
  have clocks : specModel.clocks = unit.clocks := specCompiled.specClocks testable.specified
  rw [← spelled.clock, ← clocks] at clock
  exact clock

theorem isCompletable (tpCompiled : tp.IsCompiled unit.toTranslationUnit tpModel) :
    tpModel.IsCompletable := by
  intro label transition member
  obtain ⟨_, declaration, listed, _, compiles⟩ :=
    testable.tpRead.exists_declaration tpCompiled member
  exact TransitionText.isCompletable compiles
    (testable.areTestable.negatable declaration listed)

theorem duplicateFree (tpCompiled : tp.IsCompiled unit.toTranslationUnit tpModel) :
    tpModel.DuplicateFree := by
  refine ⟨?_, ?_, ?_⟩
  · rw [tpCompiled.tpVariables testable.unspecified]
    exact List.nodup_nil
  · rw [tpCompiled.parameterNames]
    exact testable.tpRead.parameters
  · rw [tpCompiled.tpClocks testable.unspecified]
    exact List.nodup_nil

/-- The test purpose has no variables and clocks, so only its parameters are checked. -/
theorem compatible (specCompiled : spec.IsCompiled unit.toTranslationUnit specModel)
    (tpCompiled : tp.IsCompiled unit.toTranslationUnit tpModel) :
    ∃ initial, initializeSyncProduct specModel tpModel = .ok initial := by
  rw [initializeSyncProduct_isOk_iff (testable.duplicateFree tpCompiled),
    tpCompiled.tpVariables testable.unspecified, tpCompiled.tpClocks testable.unspecified]
  refine ⟨nofun, ?_, nofun⟩
  intro data member
  have named : data.name ∈ tp.parameters.map TypedElement.name := by
    rw [← tpCompiled.parameterNames]
    exact List.mem_map_of_mem member
  obtain ⟨element, among, same⟩ := List.mem_map.mp named
  have known := testable.areTestable.tpParameters element among
  rw [List.map_append, same] at known
  rcases List.mem_append.mp known with inVariables | inParameters
  · refine Or.inr (Or.inl ?_)
    rw [TIOSTS.HasVariable, specCompiled.specVariables testable.specified]
    exact inVariables
  · refine Or.inl ?_
    rw [TIOSTS.HasParameter, specCompiled.parameterNames]
    exact inParameters

theorem isWord_of_name (specCompiled : spec.IsCompiled unit.toTranslationUnit specModel)
    (tpCompiled : tp.IsCompiled unit.toTranslationUnit tpModel) {name : String}
    (member : name ∈ (specModel.modelVariables ++ tpModel.modelVariables ++
      specModel.actionParameters).map TypedData.name) : IsWord name ∧ '_' ∉ name.toList := by
  rw [tpCompiled.tpVariables testable.unspecified, List.append_nil, List.map_append,
    specCompiled.specVariables testable.specified, specCompiled.parameterNames,
    ← List.map_append] at member
  obtain ⟨element, among, rfl⟩ := List.mem_map.mp member
  exact ⟨isWord_of_isIdentifier (testable.specRead.named element among),
    testable.areTestable.names element among⟩

theorem parameter_declared (specCompiled : spec.IsCompiled unit.toTranslationUnit specModel)
    {type : ActionType} {action : Action} (member : action ∈ specModel.actionsOf type)
    {parameter : String} (listed : parameter ∈ action.parameters) :
    parameter ∈ specModel.actionParameters.map TypedData.name := by
  rw [specCompiled.actions] at member
  rw [specCompiled.parameterNames]
  obtain ⟨act, declared, inTable⟩ := exists_declaredAction member listed
  exact testable.areTestable.parameters act declared parameter inTable

/-- The compiled models meet the assumptions of the generation. -/
theorem isInput (specCompiled : spec.IsCompiled unit.toTranslationUnit specModel)
    (tpCompiled : tp.IsCompiled unit.toTranslationUnit tpModel) :
    IsInput specModel tpModel root where
  specWellFormed := specCompiled.wellFormed testable.specRead.states
    (testable.compilable.uses spec testable.specKept)
  tpWellFormed := tpCompiled.wellFormed testable.tpRead.states
    (testable.compilable.uses tp testable.tpKept)
  specInitial := by
    rw [specCompiled.initialLocation, ← List.getLast?_map, testable.areTestable.specInitial]
    rfl
  tpInitial := by
    intro label
    rw [tpCompiled.isInitial_iff testable.tpRead.states, testable.areTestable.tpInitial,
      List.mem_singleton]
  leaves := testable.leavesRoot specCompiled
  rejectsNot := testable.areTestable.ordinary.1
  acceptsNot := testable.areTestable.ordinary.2
  specLabels := testable.specLabels specCompiled
  tpLabels := testable.tpLabels tpCompiled
  specKeyed := testable.areTestable.specDeclares.keyedGuards testable.specRead specCompiled
  tpKeyed := testable.areTestable.tpDeclares.keyedGuards testable.tpRead tpCompiled
  rejectsApart := testable.rejectsApart tpCompiled
  numbered := testable.numberedClocks specCompiled
  completable := testable.isCompletable tpCompiled
  duplicateFree := testable.duplicateFree tpCompiled
  compatible := testable.compatible specCompiled tpCompiled
  names := fun _ member => testable.isWord_of_name specCompiled tpCompiled member
  parameters := fun _ _ member _ listed =>
    testable.parameter_declared specCompiled member listed
  specWritten := testable.areTestable.specDeclares.isWritten testable.specRead specCompiled
    (fun _ assignable => testable.isTarget specCompiled tpCompiled assignable)
  tpWritten := testable.areTestable.tpDeclares.isWritten testable.tpRead tpCompiled
    (fun _ assignable => testable.isTarget specCompiled tpCompiled assignable)

end SystemText.IsTestable

end Testable

/-- The declarations of a process as the edges between its states. -/
def ProcessText.graph (text : ProcessText) : Folding.Graph String TransitionText where
  edges := {declaration | declaration ∈ text.transitions.toList}
  source declaration := declaration.source.1.image
  target declaration := declaration.destination.1.image

/-- A transition of a test case tests the transition that the declaration is compiled to. -/
def Tests (tables : TranslationUnit) (model : TIOSTS) (transition : Transition)
    (declaration : TransitionText) : Prop :=
  ∃ specTransition, Mirrors model transition specTransition ∧
    CompilesTo model (declaration.transition tables) specTransition

section Generation

variable {specificationID : String} {system : SystemText} {unit : SystemUnit}
  {text specText tpText : ProcessText} {process spec tp : AbstractTIOSTS} {root : LocationPair}
  {tables : TranslationUnit} {model : TIOSTS}

theorem ProcessText.IsReadAs.simulates
    (isReadAs : text.IsReadAs specificationID tables process)
    (isCompiled : process.IsCompiled tables model) :
    model.graph.IsSimulation text.graph Eq
      (fun transition declaration => CompilesTo model (declaration.transition tables)
        transition) := by
  rintro transition member label rfl
  obtain ⟨_, declaration, listed, source, compiles⟩ := isReadAs.exists_declaration isCompiled member
  exact ⟨declaration, listed, source, compiles, TransitionText.target_eq compiles⟩

/-- However a testable text is laid out, its specification and its test purpose are compiled to
models from which the generation returns one suite of test cases, whatever the tools answer, and
every walk through a test case follows declarations of the specification. -/
theorem TranslationUnit.init_generates
    (testable : system.IsTestable unit specText tpText spec tp root) (gaps : Nat → Lexer.Gap)
    (models : AList (fun _ : String => TIOSTS)) (tools : SymbolicTools) (order : IterationOrder) :
    ∃ stored specModel tpModel testCases,
      TranslationUnit.init specText.name.1.image
        (String.ofList (Lexer.layOut gaps system.write)) models = some stored ∧
      stored.lookup specText.name.1.image = some specModel ∧
      stored.lookup tpText.name.1.image = some tpModel ∧
      (∃ depth rounds,
        generateTestCases tools order depth rounds specModel tpModel = .ok testCases) ∧
      (∀ depth rounds,
        generateTestCases tools order depth rounds specModel tpModel = .ok testCases ∨
          generateTestCases tools order depth rounds specModel tpModel =
            .error .depthExceeded) ∧
      ∀ testCase ∈ testCases, ∃ start, testCase.initialLocation = some start ∧
        ∀ walk ∈ testCase.graph.chains start, ∃ declarations ∈ specText.graph.chains root.specLabel,
          List.Forall₂ (Tests unit.toTranslationUnit specModel) walk declarations ∧
            specPart (testCase.graph.endOf start walk) =
              specText.graph.endOf root.specLabel declarations := by
  obtain ⟨stored, returned, held⟩ := testable.compilable.stores_kept models
  obtain ⟨specModel, specFound, specCompiled⟩ := held spec testable.specKept
  obtain ⟨tpModel, tpFound, tpCompiled⟩ := held tp testable.tpKept
  rw [testable.specNamed] at specFound
  rw [testable.tpNamed] at tpFound
  have input := testable.isInput specCompiled tpCompiled
  have specRead := testable.compilable.isReadAs testable.specListed testable.specKept
    testable.specNamed
  obtain ⟨_, _, _, testCases, steps⟩ := input.exists_steps tools order
  obtain ⟨⟨depth, rounds, generated⟩, only⟩ := steps.generates
  refine ⟨stored, specModel, tpModel, testCases, ?_, specFound, tpFound,
    ⟨depth, rounds, generated⟩, only, ?_⟩
  · rw [TranslationUnit.init_layOut testable.compilable, returned]
    rfl
  · intro testCase member
    have specLabels : specModel.LabelsAvoid ['_'] := by
      intro label registered
      exact List.forall_mem_singleton.mpr
        (input.specLabels label registered '_' List.mem_cons_self)
    obtain ⟨start, initial, specInitial, simulation⟩ := simulates_of_generated
      input.specWellFormed input.tpWellFormed specLabels generated testCase member
    have isRoot : specPart start = root.specLabel :=
      Option.some.inj (specInitial.symm.trans input.specInitial)
    refine ⟨start, initial, fun walk isWalk => ?_⟩
    obtain ⟨declarations, isChain, tested, _, ended, same⟩ :=
      (simulation.trans (specRead.simulates specCompiled)).chain ⟨_, isRoot, rfl⟩ isWalk
    exact ⟨declarations, isChain, tested, ended.trans same⟩

end Generation

namespace RideText

open TramText

theorem isIdentifier_rider : isIdentifier "Rider" = true := by decide

theorem isIdentifier_waiting : isIdentifier "Waiting" = true := by decide

theorem isIdentifier_accept : isIdentifier "Accept" = true := by decide

def waiting : Identifier := named "Waiting" isIdentifier_waiting

def accept : Identifier := named "Accept" isIdentifier_accept

/-- `from Waiting sync Fare out (price) to Accept;` -/
def pay : TransitionText := ⟨waiting, none, none, start.action, none, none, accept⟩

/-- A test purpose over the gate of the tram line. -/
def rider : ProcessText where
  name := named "Rider" isIdentifier_rider
  inputs := none
  outputs := ⟨fare, []⟩
  internals := none
  modelVariables := none
  states := ⟨⟨waiting, true⟩, [⟨accept, false⟩]⟩
  transitions := ⟨pay, []⟩

def system : SystemText := ⟨TramText.system.header, ⟨driver, [rider]⟩⟩

def root : LocationPair := ⟨"Ready", "Waiting"⟩

/-- The conditions on the two processes, as a check that can be run. -/
def checked (unit : SystemUnit) : Bool :=
  match unit.models with
  | [spec, tp] =>
      decide (spec.UsesDeclared ∧ tp.UsesDeclared) &&
        decide (∀ act ∈ spec.declaredActions ++ tp.declaredActions,
          act.identifier ∈ unit.paramTable) &&
        decide (spec.processName = "Driver" ∧ tp.processName = "Rider") &&
        decide (unit.AreTestable driver rider spec tp root)
  | _ => false

theorem testable : ∃ unit spec tp, system.IsTestable unit driver rider spec tp root := by
  have ran : (system.meaning "Driver").toOption.map checked = some true := by decide +kernel
  obtain ⟨unit, means, holds⟩ := Reading.exists_read ran
  rw [checked] at holds
  split at holds
  · rename_i spec tp models
    rw [Bool.and_eq_true, Bool.and_eq_true, Bool.and_eq_true] at holds
    obtain ⟨⟨⟨uses, entered⟩, names⟩, are⟩ := holds
    have uses := of_decide_eq_true uses
    have entered := of_decide_eq_true entered
    have names := of_decide_eq_true names
    have compilable : system.IsCompilable "Driver" unit := by
      refine ⟨by decide, by decide, means, ?_, ?_⟩
      · rw [models]
        exact List.forall_mem_cons.mpr ⟨uses.1, List.forall_mem_singleton.mpr uses.2⟩
      · rw [models]
        obtain ⟨ofSpec, ofTp⟩ := List.forall_mem_append.mp entered
        exact List.forall_mem_cons.mpr ⟨ofSpec, List.forall_mem_singleton.mpr ofTp⟩
    refine ⟨unit, spec, tp, compilable, List.mem_cons_self,
      List.mem_cons_of_mem _ List.mem_cons_self, by decide, ?_, names.1, ?_, names.2,
      of_decide_eq_true are⟩
    · rw [models]
      exact List.mem_cons_self
    · rw [models]
      exact List.mem_cons_of_mem _ List.mem_cons_self
  · cases holds

end RideText

open RideText in
theorem TranslationUnit.init_generates_ride :
    ∃ (unit : SystemUnit) (stored : AList (fun _ : String => TIOSTS)) (specModel tpModel : TIOSTS)
      (testCases : List TIOSTS),
      TranslationUnit.init "Driver" (String.ofList (Lexer.layOut TramText.blanks system.write)) ∅ =
        some stored ∧
      stored.lookup "Driver" = some specModel ∧ stored.lookup "Rider" = some tpModel ∧
      (∃ depth rounds, generateTestCases LoopInstance.tools ⟨id, IterationOrder.id_perm⟩ depth
        rounds specModel tpModel = .ok testCases) ∧
      (∀ depth rounds,
        generateTestCases LoopInstance.tools ⟨id, IterationOrder.id_perm⟩ depth rounds specModel
            tpModel = .ok testCases ∨
          generateTestCases LoopInstance.tools ⟨id, IterationOrder.id_perm⟩ depth rounds specModel
            tpModel = .error .depthExceeded) ∧
      ∀ testCase ∈ testCases, ∃ start, testCase.initialLocation = some start ∧
        ∀ walk ∈ testCase.graph.chains start,
          ∃ declarations ∈ TramText.driver.graph.chains "Ready",
            List.Forall₂ (Tests unit.toTranslationUnit specModel) walk declarations ∧
              specPart (testCase.graph.endOf start walk) =
                TramText.driver.graph.endOf "Ready" declarations := by
  obtain ⟨unit, spec, tp, testable⟩ := RideText.testable
  exact ⟨unit, TranslationUnit.init_generates testable TramText.blanks ∅ LoopInstance.tools
    ⟨id, IterationOrder.id_perm⟩⟩

end Symbolrt
