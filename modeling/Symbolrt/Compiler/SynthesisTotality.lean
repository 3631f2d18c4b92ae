import Symbolrt.Compiler.ActionParameters
import Symbolrt.Compiler.WrittenGuards

/-!
# When the synthesis completes

A text is compiled to the models of all its processes exactly if each declared input
and output action is a gate of the text that some sync clause writes with parentheses.
An action without such a clause has no entry in the parameter table, and the process
that declares it ends the synthesis of all processes.
-/

namespace Symbolrt

open Reading

/-- The declaration has a destination and guards that can be compiled. -/
structure AbstractTransition.IsRead (trans : AbstractTransition) : Prop where
  destination : ∃ target, trans.destination = some target
  guards : ∀ clocks, ∃ guards, compileGuards clocks trans = some guards

section Read

variable {tables later : TranslationUnit} {tokens rest : List Token} {trans : AbstractTransition}

theorem transitionRule_destination
    (returned : transitionRule tables tokens = .ok ((trans, later), rest)) :
    ∃ target, trans.destination = some target := by
  obtain ⟨_, _, returned⟩ := Reading.bind_eq_ok.mp returned
  obtain ⟨_, _, returned⟩ := Reading.bind_eq_ok.mp returned
  obtain ⟨_, _, returned⟩ := Reading.bind_eq_ok.mp returned
  obtain ⟨_, _, returned⟩ := Reading.bind_eq_ok.mp returned
  obtain ⟨_, _, returned⟩ := Reading.bind_eq_ok.mp returned
  obtain ⟨_, _, returned⟩ := Reading.bind_eq_ok.mp returned
  obtain ⟨_, _, returned⟩ := Reading.bind_eq_ok.mp returned
  obtain ⟨_, _, returned⟩ := Reading.bind_eq_ok.mp returned
  obtain ⟨⟨destination, _⟩, _, returned⟩ := Reading.bind_eq_ok.mp returned
  obtain ⟨_, _, returned⟩ := Reading.bind_eq_ok.mp returned
  cases returned
  exact ⟨destination.image, rfl⟩

theorem transitionRule_isRead
    (returned : transitionRule tables tokens = .ok ((trans, later), rest)) : trans.IsRead := by
  refine ⟨transitionRule_destination returned, ?_⟩
  intro clocks
  obtain ⟨declaration, rfl⟩ := (transitionRule_enters returned).suffix
  obtain ⟨guards, compiled, _⟩ :=
    exists_compileGuards (transitionRule_guardClauses returned) clocks
  exact ⟨guards, compiled⟩

end Read

/-- All transitions of the process were read. -/
def AbstractTIOSTS.IsRead (process : AbstractTIOSTS) : Prop :=
  ∀ trans ∈ process.transitions, trans.IsRead

section Processes

variable {unit next : SystemUnit} {tokens rest : List Token}

theorem change_transitions {update : AbstractTIOSTS → AbstractTIOSTS} {process : AbstractTIOSTS}
    (keeps : (update process).transitions = process.transitions) :
    (AbstractTIOSTS.change update process).transitions = process.transitions := by
  rw [AbstractTIOSTS.change]
  split
  · rfl
  · exact keeps

theorem setInputAction_transitions (aux : Token) (process : AbstractTIOSTS) :
    (setInputAction aux process).transitions = process.transitions := change_transitions rfl

theorem setOutputAction_transitions (aux : Token) (process : AbstractTIOSTS) :
    (setOutputAction aux process).transitions = process.transitions := change_transitions rfl

theorem setInternalAction_transitions (aux : Token) (process : AbstractTIOSTS) :
    (setInternalAction aux process).transitions = process.transitions := change_transitions rfl

theorem variablesSection_transitions {process result : AbstractTIOSTS}
    (returned : variablesSection process tokens = .ok (result, rest)) :
    result.transitions = process.transitions := by
  obtain ⟨_, _, looped⟩ := Reading.bind_eq_ok.mp returned
  apply (@repeatWhile_induction _ _ _ _
    (fun current _ => AbstractTIOSTS.transitions current = process.transitions) ?_ _ _ _ _ _ rfl
    looped).1
  intro current next left after same _ round
  obtain ⟨_, _, round⟩ := Reading.bind_eq_ok.mp round
  obtain ⟨_, _, round⟩ := Reading.bind_eq_ok.mp round
  obtain ⟨_, _, round⟩ := Reading.bind_eq_ok.mp round
  obtain ⟨_, _, round⟩ := Reading.bind_eq_ok.mp round
  cases round
  exact (change_transitions rfl).trans same

theorem stateDeclarationRule_transitions {process result : AbstractTIOSTS}
    (returned : stateDeclarationRule process tokens = .ok (result, rest)) :
    result.transitions = process.transitions := by
  rw [stateDeclarationRule] at returned
  split at returned
  · obtain ⟨_, _, returned⟩ := Reading.bind_eq_ok.mp returned
    obtain ⟨_, _, returned⟩ := Reading.bind_eq_ok.mp returned
    obtain ⟨_, _, returned⟩ := Reading.bind_eq_ok.mp returned
    obtain ⟨_, _, returned⟩ := Reading.bind_eq_ok.mp returned
    cases returned
    exact change_transitions rfl
  · obtain ⟨_, _, returned⟩ := Reading.bind_eq_ok.mp returned
    obtain ⟨_, _, returned⟩ := Reading.bind_eq_ok.mp returned
    cases returned
    exact change_transitions rfl

theorem processTransition_isRead {current later : AbstractTIOSTS × SystemUnit}
    (returned : processTransition current tokens = .ok (later, rest))
    (isRead : current.1.IsRead) : later.1.IsRead := by
  obtain ⟨⟨⟨transition, tables⟩, after⟩, read, returned⟩ := Reading.bind_eq_ok.mp returned
  cases returned
  rw [AbstractTIOSTS.IsRead, AbstractTIOSTS.addTransition, AbstractTIOSTS.change]
  split
  · exact isRead
  · intro trans member
    rcases List.mem_append.mp member with before | last
    · exact isRead trans before
    · rw [List.mem_singleton.mp last]
      exact transitionRule_isRead read

theorem processTransitions_isRead {current later : AbstractTIOSTS × SystemUnit}
    {opens : Token → Bool}
    (returned : repeatRule opens processTransition current tokens = .ok (later, rest))
    (isRead : current.1.IsRead) : later.1.IsRead := by
  apply @repeatRule_keeps _ _ _ _ _ (fun pair => pair.1.IsRead) _ _ ?_ returned isRead
  exact processTransition_isRead

theorem foldl_addParameter_transitions (actparams : List TypedElement)
    (process : AbstractTIOSTS) :
    (actparams.foldl (fun process tp => process.addParameter tp) process).transitions =
      process.transitions := by
  induction actparams generalizing process with
  | nil => rfl
  | cons tp actparams induction => exact (induction _).trans (change_transitions rfl)

theorem mem_putModel {process other : AbstractTIOSTS}
    (member : other ∈ (unit.putModel process).models) : other = process ∨ other ∈ unit.models := by
  rw [SystemUnit.putModel] at member
  split at member
  · obtain ⟨held, among, same⟩ := List.mem_map.mp member
    split at same
    · exact Or.inl same.symm
    · exact Or.inr (same ▸ among)
  · rcases List.mem_append.mp member with before | last
    · exact Or.inr before
    · exact Or.inl (List.mem_singleton.mp last)

/-- Each process that is put among the models of the text was read. -/
theorem processRule_isRead (returned : processRule unit tokens = .ok (next, rest))
    (isRead : ∀ process ∈ unit.models, process.IsRead) :
    ∀ process ∈ next.models, process.IsRead := by
  obtain ⟨_, _, returned⟩ := Reading.bind_eq_ok.mp returned
  obtain ⟨⟨proc, _⟩, _, returned⟩ := Reading.bind_eq_ok.mp returned
  obtain ⟨_, _, returned⟩ := Reading.bind_eq_ok.mp returned
  obtain ⟨⟨withInputs, _⟩, inputRead, returned⟩ := Reading.bind_eq_ok.mp returned
  obtain ⟨⟨withOutputs, _⟩, outputRead, returned⟩ := Reading.bind_eq_ok.mp returned
  obtain ⟨⟨withInternals, _⟩, internalRead, returned⟩ := Reading.bind_eq_ok.mp returned
  obtain ⟨⟨withVariables, _⟩, variableRead, returned⟩ := Reading.bind_eq_ok.mp returned
  obtain ⟨_, _, returned⟩ := Reading.bind_eq_ok.mp returned
  obtain ⟨⟨withStates, _⟩, statesRead, returned⟩ := Reading.bind_eq_ok.mp returned
  obtain ⟨_, _, returned⟩ := Reading.bind_eq_ok.mp returned
  obtain ⟨⟨⟨process, later⟩, afterAll⟩, transitionsRead, returned⟩ :=
    Reading.bind_eq_ok.mp returned
  obtain ⟨actparams, _, returned⟩ := Reading.bind_eq_ok.mp returned
  cases returned
  have inputs : withInputs.transitions = [] :=
    optionalSection_keeps AbstractTIOSTS.transitions
      (identifierSection_keeps AbstractTIOSTS.transitions setInputAction_transitions) inputRead
  have outputs : withOutputs.transitions = withInputs.transitions :=
    identifierSection_keeps AbstractTIOSTS.transitions setOutputAction_transitions outputRead
  have internals : withInternals.transitions = withOutputs.transitions :=
    optionalSection_keeps AbstractTIOSTS.transitions
      (identifierSection_keeps AbstractTIOSTS.transitions setInternalAction_transitions)
      internalRead
  have declared : withVariables.transitions = withInternals.transitions :=
    optionalSection_keeps AbstractTIOSTS.transitions variablesSection_transitions variableRead
  have none : withStates.transitions = [] := by
    apply @repeatRule_keeps _ _ _ _ _
      (fun process => AbstractTIOSTS.transitions process = []) _ _ ?_
      statesRead (declared.trans (internals.trans (outputs.trans inputs)))
    intro value next tokens rest read same
    exact (stateDeclarationRule_transitions read).trans same
  have started : withStates.IsRead := by
    intro trans member
    rw [none] at member
    cases member
  have own : process.IsRead := processTransitions_isRead transitionsRead started
  have same : later.models = unit.models := processTransitions_models transitionsRead
  intro other member
  rcases mem_putModel member with rfl | before
  · intro trans listed
    rw [AbstractTIOSTS.finishProcess, foldl_addParameter_transitions] at listed
    exact own trans listed
  · rw [same] at before
    exact isRead other before

theorem systemRule_isRead {specificationID : String}
    (accepted : systemRule specificationID tokens = .ok unit) :
    ∀ process ∈ unit.models, process.IsRead := by
  obtain ⟨⟨declared, afterHeader⟩, headerRead, accepted⟩ := Reading.bind_eq_ok.mp accepted
  obtain ⟨⟨ended, rest⟩, processesRead, accepted⟩ := Reading.bind_eq_ok.mp accepted
  have blank : ∀ process ∈ declared.models, process.IsRead := by
    rw [systemHeader_models headerRead]
    exact fun process member => nomatch member
  have read : ∀ process ∈ ended.models, process.IsRead := by
    apply @repeatRule_keeps _ _ _ _ _
      (fun unit => ∀ process ∈ unit.models, AbstractTIOSTS.IsRead process) _ _ ?_
        processesRead blank
    exact processRule_isRead
  cases rest with
  | cons token rest => cases accepted
  | nil =>
      cases accepted
      exact read

end Processes

namespace AbstractTIOSTS

/-- The names of the actions of one type; without internal actions there is `tau`. -/
def actionNames (process : AbstractTIOSTS) : ActionType → List String
  | .input => process.inputActions.map AbstractAction.identifier
  | .output => process.outputActions.map AbstractAction.identifier
  | .internal =>
      match process.internalActions with
      | [] => ["tau"]
      | internalActions => internalActions.map AbstractAction.identifier

def stateNames (process : AbstractTIOSTS) : List String := process.states.map StateElement.name

end AbstractTIOSTS

/-- The transition leads between declared states and its action is declared with its
direction. -/
structure AbstractTIOSTS.Declares (process : AbstractTIOSTS) (trans : AbstractTransition) :
    Prop where
  source : trans.source ∈ process.stateNames
  target : ∀ target ∈ trans.destination, target ∈ process.stateNames
  action : trans.usedAction.2 ∈ process.actionNames trans.usedAction.1

instance (process : AbstractTIOSTS) (trans : AbstractTransition) :
    Decidable (process.Declares trans) :=
  decidable_of_iff (trans.source ∈ process.stateNames ∧
      (∀ target ∈ trans.destination, target ∈ process.stateNames) ∧
      trans.usedAction.2 ∈ process.actionNames trans.usedAction.1)
    ⟨fun all => ⟨all.1, all.2.1, all.2.2⟩, fun declares => ⟨declares.source, declares.target,
      declares.action⟩⟩

/-- Every transition refers to what the process declares. -/
def AbstractTIOSTS.UsesDeclared (process : AbstractTIOSTS) : Prop :=
  ∀ trans ∈ process.transitions, process.Declares trans

instance (process : AbstractTIOSTS) : Decidable process.UsesDeclared :=
  inferInstanceAs (Decidable (∀ trans ∈ process.transitions, process.Declares trans))

section Compiling

variable {tables : TranslationUnit} {process : AbstractTIOSTS} {model next : TIOSTS}
  {trans : AbstractTransition}

theorem isRegistered_setInitialLocation (model : TIOSTS) (initial label : String) :
    (model.setInitialLocation initial).IsRegistered label ↔ model.IsRegistered label := by
  rw [TIOSTS.isRegistered_iff, TIOSTS.isRegistered_iff, TIOSTS.getLocation_setInitialLocation]
  split
  · simp
  · rfl

theorem setLocations_isRegistered (process : AbstractTIOSTS) (model : TIOSTS) (label : String)
    (listed : label ∈ process.stateNames) : (setLocations process model).IsRegistered label := by
  suffices general : ∀ (states : List StateElement) (model : TIOSTS),
      (label ∈ states.map StateElement.name ∨ model.IsRegistered label) →
        (states.foldl (fun model e =>
          if e.isInitial then
            (model.setInitialLocation e.name).addLocation (Location.new e.name true)
          else model.addLocation (Location.new e.name false)) model).IsRegistered label from
    general process.states model (Or.inl listed)
  intro states
  induction states with
  | nil =>
      rintro model (impossible | registered)
      · cases impossible
      · exact registered
  | cons e states induction =>
      intro model known
      refine induction _ ?_
      have added : label = e.name ∨ model.IsRegistered label →
          (if e.isInitial then
            (model.setInitialLocation e.name).addLocation (Location.new e.name true)
          else model.addLocation (Location.new e.name false)).IsRegistered label := by
        intro either
        split
        · rw [TIOSTS.isRegistered_addLocation, isRegistered_setInitialLocation]
          exact either
        · rw [TIOSTS.isRegistered_addLocation]
          exact either
      rcases known with among | registered
      · rw [List.map_cons, List.mem_cons] at among
        rcases among with here | later
        · exact Or.inr (added (Or.inl here))
        · exact Or.inl later
      · exact Or.inr (added (Or.inr registered))

theorem compiledActions_names (tables : TranslationUnit) (process : AbstractTIOSTS)
    (type : ActionType) :
    (compiledActions tables process type).map Action.name = process.actionNames type := by
  cases type with
  | input => exact List.map_map
  | output => exact List.map_map
  | internal =>
      rw [AbstractTIOSTS.actionNames.eq_def, compiledActions, compiledInternalActions.eq_def]
      cases process.internalActions with
      | nil => rfl
      | cons act rest => exact List.map_map

/-- A transition between registered locations whose action is there is created. -/
theorem setTransition_returns (isRead : trans.IsRead)
    (source : model.IsRegistered trans.source)
    (target : ∀ target ∈ trans.destination, model.IsRegistered target)
    (action : ∃ action, model.getAction trans.usedAction.1 trans.usedAction.2 = some action) :
    ∃ next, setTransition model trans = .ok next := by
  obtain ⟨targetLocation, destination⟩ := isRead.destination
  obtain ⟨guards, compiled⟩ := isRead.guards model.clocks
  obtain ⟨clockGuard, clockRead, _⟩ := Option.map_eq_some_iff.mp compiled
  obtain ⟨location, located⟩ := (model.isRegistered_iff _).mp source
  obtain ⟨targetFound, targetLocated⟩ := (model.isRegistered_iff _).mp (target _ destination)
  obtain ⟨used, found⟩ := action
  have acted : trans.action.elim (model.getAction .internal "tau")
      (fun absAction => model.getAction absAction.type absAction.identifier) = some used := by
    rw [AbstractTransition.usedAction] at found
    cases acts : trans.action with
    | none =>
        rw [acts] at found
        exact found
    | some act =>
        rw [acts] at found
        exact found
  rw [setTransition, destination, located]
  dsimp only [deref_some, ok_bind]
  cases location.isInitialLocation with
  | true =>
      refine ⟨_, bind_eq_ok.mpr ⟨used, deref_eq_ok.mpr ?_, bind_eq_ok.mpr
        ⟨clockGuard, deref_eq_ok.mpr clockRead,
          TIOSTS.createTransition_eq located targetLocated⟩⟩⟩
      rw [← acted]
      cases trans.action <;> rfl
  | false =>
      refine ⟨_, bind_eq_ok.mpr ⟨used, deref_eq_ok.mpr ?_, bind_eq_ok.mpr
        ⟨clockGuard, deref_eq_ok.mpr clockRead,
          TIOSTS.createTransition_eq located targetLocated⟩⟩⟩
      rw [← acted]
      cases trans.action <;> rfl

/-- What the locations and actions of a model are is not changed by its transitions. -/
theorem setTransition_keeps (returned : setTransition model trans = .ok next) :
    next.toAlphabet = model.toAlphabet ∧
      ∀ label, next.IsRegistered label ↔ model.IsRegistered label := by
  obtain ⟨condition, transition, rfl, _⟩ := setTransition_registers returned
  refine ⟨TIOSTS.register_alphabet _ _, ?_⟩
  exact fun label => TIOSTS.isRegistered_register _ _ _

theorem compileModel_returns (isRead : process.IsRead) (uses : process.UsesDeclared)
    (entered : ∀ act ∈ process.declaredActions, act.identifier ∈ tables.paramTable) :
    ∃ model, compileModel tables process = .ok model := by
  have covered : ∀ act ∈ process.inputActions ++ process.outputActions,
      act.identifier ∈ tables.paramTable := entered
  obtain ⟨declared, declares⟩ : ∃ declared, declareModel tables process = .ok declared :=
    ⟨_, (declareModel_eq tables process).trans (if_pos covered)⟩
  have registered : ∀ label ∈ process.stateNames, declared.IsRegistered label := by
    rw [declareModel_eq, if_pos covered] at declares
    rw [← Except.ok.inj declares]
    exact setLocations_isRegistered process _
  have actions := (declareModel_signature declares).2
  obtain ⟨model, created, _⟩ := @Loops.foldlM_returns _ _ _ setTransition (fun _ current =>
      current.toAlphabet = declared.toAlphabet ∧
        ∀ label, current.IsRegistered label ↔ declared.IsRegistered label)
    process.transitions declared ⟨rfl, fun _ => Iff.rfl⟩ (by
      intro done trans rest current whole keeps
      have member : trans ∈ process.transitions := by simp [whole]
      have known := uses trans member
      have source := (keeps.2 _).mpr (registered _ known.source)
      have target : ∀ target ∈ trans.destination, current.IsRegistered target :=
        fun target destination => (keeps.2 _).mpr (registered _ (known.target target destination))
      have action : ∃ action,
          current.getAction trans.usedAction.1 trans.usedAction.2 = some action := by
        have listed := known.action
        rw [← compiledActions_names tables, ← actions] at listed
        obtain ⟨action, among, named⟩ := List.mem_map.mp listed
        rw [← TIOSTS.actionsOf_eq_of_alphabet keeps.1] at among
        rw [← named]
        exact TIOSTS.exists_getAction among
      obtain ⟨next, created⟩ := setTransition_returns (isRead trans member) source target action
      obtain ⟨alphabet, same⟩ := setTransition_keeps created
      exact ⟨next, created, alphabet.trans keeps.1, fun label =>
        (same label).trans (keeps.2 label)⟩)
  exact ⟨model, bind_eq_ok.mpr ⟨declared, declares, created⟩⟩

end Compiling

namespace SynthesisUnit

/-- The synthesis returns, and it has stored the model of every process. -/
def Completes (unit : SystemUnit) (models : AList (fun _ : String => TIOSTS)) : Prop :=
  ∃ stored, init unit models = .ok stored ∧ ∀ process ∈ unit.models, ∃ model,
    compileModel unit.toTranslationUnit process = .ok model ∧
      stored.lookup process.processName = some model

theorem completes_iff {unit : SystemUnit} (distinct : unit.names.Nodup)
    (isRead : ∀ process ∈ unit.models, process.IsRead)
    (uses : ∀ process ∈ unit.models, process.UsesDeclared)
    (models : AList (fun _ : String => TIOSTS)) :
    Completes unit models ↔ ∀ process ∈ unit.models, ∀ act ∈ process.declaredActions,
      act.identifier ∈ unit.paramTable := by
  constructor
  · rintro ⟨stored, _, compiled⟩ process among
    obtain ⟨model, returned, _⟩ := compiled process among
    obtain ⟨declared, declares, _⟩ := compileModel_eq_ok returned
    rw [declareModel_eq] at declares
    split at declares
    · rename_i entered
      exact entered
    · cases declares
  · intro entered
    obtain ⟨stored, returned, _⟩ := @Loops.foldlM_returns _ _ _
      (fun (models : AList (fun _ : String => TIOSTS)) absModel => do
        let model ← compileModel unit.toTranslationUnit absModel
        return models.insert model.name model)
      (fun _ _ => True) unit.models models trivial (by
        intro done process rest current whole _
        have member : process ∈ unit.models := by simp [whole]
        obtain ⟨model, compiled⟩ := compileModel_returns (isRead process member)
          (uses process member) (entered process member)
        exact ⟨_, bind_eq_ok.mpr ⟨model, compiled, rfl⟩, trivial⟩)
    exact ⟨stored, returned, init_stores distinct returned⟩

end SynthesisUnit

theorem mem_paramTable_iff {specificationID : String} {tokens : List Token} {unit : SystemUnit}
    (accepted : systemRule specificationID tokens = .ok unit) (name : String) :
    name ∈ unit.paramTable ↔
      name ∈ gateNames tokens ∧ name ∈ (syncClauses tokens).map Prod.fst := by
  rw [← AList.lookup_isSome, systemRule_paramTable accepted, lastParameters]
  by_cases isGate : name ∈ gateNames tokens
  · rw [if_pos isGate, LastEntry.isSome_last_iff]
    exact (and_iff_right isGate).symm
  · rw [if_neg isGate]
    exact iff_of_false Bool.false_ne_true (fun both => isGate both.1)

/-- A text whose transitions use declared states and actions is compiled to the models of
all its processes exactly if each declared input and output action is a gate that some sync
clause of the text writes with parentheses. -/
theorem init_completes_iff {specificationID : String} {tokens : List Token} {unit : SystemUnit}
    (accepted : systemRule specificationID tokens = .ok unit)
    (uses : ∀ process ∈ unit.models, process.UsesDeclared)
    (models : AList (fun _ : String => TIOSTS)) :
    SynthesisUnit.Completes unit models ↔
      ∀ process ∈ unit.models, ∀ act ∈ process.declaredActions,
        act.identifier ∈ gateNames tokens ∧
          act.identifier ∈ (syncClauses tokens).map Prod.fst := by
  refine (SynthesisUnit.completes_iff (systemRule_names_nodup accepted)
    (systemRule_isRead accepted) uses models).trans ?_
  simp only [mem_paramTable_iff accepted]

namespace SpareGate

open SharedGate

def spare : Token := .identifier "Spare" (by decide)

/-- The driver declares the outputs and uses the gate only. -/
def text (outputs : List Token) : List Token :=
  [.keyword .systemTk, .identifier "Tram" (by decide), .keyword .semicolon, .keyword .gateTk,
    gate, .keyword .openParTk, .keyword .intTk, .keyword .closeParTk, .keyword .semicolon,
    spare, .keyword .semicolon,
    .keyword .processTk, .identifier "Driver" (by decide), .keyword .semicolon,
    .keyword .outputActTk] ++ outputs ++ [.keyword .semicolon] ++ stateLines ++
    syncLine gate .outActTk [own]

def one : List Token := text [gate]

def both : List Token := text [gate, .keyword .comma, spare]

/-- The transitions use what is declared, and whether all declared actions are in the table. -/
def checked (entered : Bool) (unit : SystemUnit) : Bool :=
  unit.models.all (fun process => decide process.UsesDeclared) &&
    (unit.models.all (fun process => process.declaredActions.all (fun act =>
      decide (act.identifier ∈ unit.paramTable))) == entered)

theorem exists_unit {outputs : List Token} {entered : Bool}
    (ran : (systemRule "Driver" (text outputs)).toOption.map (checked entered) = some true) :
    ∃ unit, systemRule "Driver" (text outputs) = .ok unit ∧
      (∀ process ∈ unit.models, process.UsesDeclared) ∧
      ((∀ process ∈ unit.models, ∀ act ∈ process.declaredActions,
        act.identifier ∈ unit.paramTable) ↔ entered = true) := by
  obtain ⟨unit, accepted, holds⟩ := Reading.exists_read ran
  obtain ⟨uses, same⟩ := (Bool.and_eq_true _ _).mp holds
  refine ⟨unit, accepted, fun process among => ?_, ?_⟩
  · exact of_decide_eq_true (List.all_eq_true.mp uses process among)
  · rw [← beq_iff_eq.mp same]
    simp only [List.all_eq_true, decide_eq_true_eq]

end SpareGate

open SpareGate in
theorem init_completes_one : ∃ unit, systemRule "Driver" one = .ok unit ∧
    SynthesisUnit.Completes unit ∅ ∧
    ∀ process ∈ unit.models, ∀ act ∈ process.declaredActions,
      act.identifier ∈ gateNames one ∧ act.identifier ∈ (syncClauses one).map Prod.fst := by
  have ran : (systemRule "Driver" one).toOption.map (checked true) = some true := by
    decide +kernel
  obtain ⟨unit, accepted, uses, entered⟩ := exists_unit ran
  have completes : SynthesisUnit.Completes unit ∅ :=
    (SynthesisUnit.completes_iff (systemRule_names_nodup accepted) (systemRule_isRead accepted)
      uses ∅).mpr (entered.mpr rfl)
  exact ⟨unit, accepted, completes, (init_completes_iff accepted uses ∅).mp completes⟩

open SpareGate in
/-- The output that is declared and not used ends the synthesis. -/
theorem init_ends_unused :
    ¬ ∀ (specificationID : String) (tokens : List Token) (unit : SystemUnit),
      systemRule specificationID tokens = .ok unit →
      (∀ process ∈ unit.models, process.UsesDeclared) →
      ∀ models, SynthesisUnit.Completes unit models := by
  intro claimed
  have ran : (systemRule "Driver" both).toOption.map (checked false) = some true := by
    decide +kernel
  obtain ⟨unit, accepted, uses, entered⟩ := exists_unit ran
  have completes := claimed _ _ unit accepted uses ∅
  have all := (SynthesisUnit.completes_iff (systemRule_names_nodup accepted)
    (systemRule_isRead accepted) uses ∅).mp completes
  exact Bool.false_ne_true (entered.mp all)

end Symbolrt
