import Symbolrt.Compiler.ProcessTexts
import Symbolrt.Compiler.SynthesisTotality
import Symbolrt.Compiler.WrittenTexts
import Symbolrt.Lib.InStep

/-!
# The models of a written text

From the characters of a text to the models of its processes.  A model has the
locations, the actions and the transitions that the text of its process declares, each
transition once and in the place of its declaration.
-/

namespace Symbolrt

/-- One round of `setLocations`. -/
def setLocation (model : TIOSTS) (e : StateElement) : TIOSTS :=
  if e.isInitial then (model.setInitialLocation e.name).addLocation (Location.new e.name true)
  else model.addLocation (Location.new e.name false)

/-- The model has the locations of the states and no other. -/
structure Locates (base : TIOSTS) (states : List StateElement) (model : TIOSTS) : Prop where
  getLocation : ∀ label, model.getLocation label =
    (states.find? (fun e => e.name == label)).map (fun e => Location.new e.name e.isInitial)
  initialLocation : model.initialLocation =
    ((states.filter StateElement.isInitial).getLast?).map StateElement.name
  stores : model = { base with
    locations := model.locations
    initialLocation := model.initialLocation }

section Locations

variable {base model : TIOSTS} {states : List StateElement} {e : StateElement}

theorem getLocation_setLocation (new : model.getLocation e.name = none) (label : String) :
    (setLocation model e).getLocation label =
      if label = e.name then some (Location.new e.name e.isInitial)
      else model.getLocation label := by
  have label_new : ∀ flag, (Location.new e.name flag).label = e.name := fun _ => rfl
  rw [setLocation]
  split
  · rename_i initial
    rw [TIOSTS.getLocation_addLocation, TIOSTS.getLocation_setInitialLocation, label_new, initial]
    by_cases same : label = e.name
    · rw [same, if_pos rfl, if_pos rfl, if_pos rfl, new]
      rfl
    · rw [if_neg same, if_neg same, if_neg same]
  · rename_i notInitial
    rw [Bool.not_eq_true] at notInitial
    rw [TIOSTS.getLocation_addLocation, label_new, notInitial]
    by_cases same : label = e.name
    · rw [same, if_pos rfl, if_pos rfl, new]
      rfl
    · rw [if_neg same, if_neg same]

theorem setLocation_stores (model : TIOSTS) (e : StateElement) :
    setLocation model e = { model with
      locations := (setLocation model e).locations
      initialLocation := if e.isInitial then some e.name else model.initialLocation } := by
  rw [setLocation]
  split
  · rename_i initial
    rw [TIOSTS.addLocation_eq, TIOSTS.setInitialLocation_eq]
  · exact TIOSTS.addLocation_eq _ _

theorem Locates.none_of_new (locates : Locates base states model)
    (new : e.name ∉ states.map StateElement.name) : model.getLocation e.name = none := by
  rw [locates.getLocation, Option.map_eq_none_iff, List.find?_eq_none]
  intro other member same
  exact new (List.mem_map.mpr ⟨other, member, eq_of_beq same⟩)

theorem Locates.step (locates : Locates base states model)
    (new : e.name ∉ states.map StateElement.name) :
    Locates base (states ++ [e]) (setLocation model e) := by
  have absent := locates.none_of_new new
  have stores := setLocation_stores model e
  have initial : (setLocation model e).initialLocation =
      if e.isInitial then some e.name else model.initialLocation :=
    congrArg TIOSTS.initialLocation stores
  constructor
  · intro label
    rw [getLocation_setLocation absent, locates.getLocation, List.find?_append]
    by_cases same : label = e.name
    · subst same
      have missing : states.find? (fun other => other.name == e.name) = none := by
        rw [locates.getLocation, Option.map_eq_none_iff] at absent
        exact absent
      have here : [e].find? (fun other => other.name == e.name) = some e := by simp
      rw [if_pos rfl, missing, Option.none_or, here]
      rfl
    · have different : [e].find? (fun other => other.name == label) = none := by
        simp [Ne.symm same]
      rw [if_neg same, different, Option.or_none]
  · rw [initial, locates.initialLocation, List.filter_append]
    cases flag : e.isInitial with
    | true => simp [flag]
    | false => simp [flag]
  · refine stores.trans ?_
    rw [initial]
    generalize (setLocation model e).locations = locations
    rw [locates.stores]

theorem Locates.steps (locates : Locates base states model) (others : List StateElement)
    (distinct : ((states ++ others).map StateElement.name).Nodup) :
    Locates base (states ++ others) (others.foldl setLocation model) := by
  induction others generalizing states model with
  | nil =>
      rw [List.append_nil]
      exact locates
  | cons e others induction =>
      have new : e.name ∉ states.map StateElement.name := by
        rw [List.map_append, List.nodup_append] at distinct
        intro member
        exact distinct.2.2 _ member _ List.mem_cons_self rfl
      have whole := induction (locates.step new) (by simpa using distinct)
      rw [List.append_assoc] at whole
      exact whole

theorem setLocations_locates {process : AbstractTIOSTS} (locations : model.locations = ∅)
    (initialLocation : model.initialLocation = none) (distinct : process.stateNames.Nodup) :
    Locates model process.states (setLocations process model) := by
  have blank : Locates model [] model := by
    refine ⟨?_, initialLocation, rfl⟩
    intro label
    rw [TIOSTS.getLocation, locations]
    rfl
  exact blank.steps process.states distinct

theorem Locates.labelled (locates : Locates base states model) : model.Labelled := by
  intro label location found
  rw [locates.getLocation, Option.map_eq_some_iff] at found
  obtain ⟨e, listed, rfl⟩ := found
  have named : (e.name == label) = true :=
    @List.find?_some _ (fun e : StateElement => e.name == label) _ _ listed
  exact eq_of_beq named

theorem Locates.outOf (locates : Locates base states model) (label : String) :
    model.outOf label = [] := by
  rw [TIOSTS.outOf, locates.getLocation]
  cases states.find? (fun e => e.name == label) with
  | none => rfl
  | some e => rfl

theorem Locates.inOf (locates : Locates base states model) (label : String) :
    model.inOf label = [] := by
  rw [TIOSTS.inOf, locates.getLocation]
  cases states.find? (fun e => e.name == label) with
  | none => rfl
  | some e => rfl

theorem mem_stateNames_iff {process : AbstractTIOSTS} {label : String} :
    label ∈ process.stateNames ↔ ∃ location,
      (process.states.find? (fun e => e.name == label)).map
        (fun e => Location.new e.name e.isInitial) = some location := by
  rw [← Option.isSome_iff_exists, Option.isSome_map, List.find?_isSome]
  constructor
  · intro listed
    obtain ⟨e, member, rfl⟩ := List.mem_map.mp listed
    exact ⟨e, member, beq_self_eq_true _⟩
  · rintro ⟨e, member, same⟩
    exact List.mem_map.mpr ⟨e, member, eq_of_beq same⟩

end Locations

/-- The transitions of the model are the given ones, each in the list of its source and in
that of its target; of those with one key the map holds the last. -/
structure TIOSTS.HoldsTransitions (model : TIOSTS) (created : List Transition) : Prop where
  outOf : ∀ label, model.outOf label =
    created.filter (fun transition => label = transition.source)
  inOf : ∀ label, model.inOf label =
    created.filter (fun transition => label = transition.target)
  lookup : ∀ key, model.transitions.lookup key =
    (created.filter (fun transition => key = transition.key)).getLast?
  initialCondition : model.initialCondition =
    ((created.filter (fun transition => model.isInitial transition.source)).getLast?).map
      Transition.dataGuard

/-- What the model stores for a declared variable or parameter. -/
def TypedElement.typedData (element : TypedElement) : TypedData := ⟨element.name, element.type⟩

/-- The model that a process is compiled to. -/
structure AbstractTIOSTS.IsCompiled (tables : TranslationUnit) (process : AbstractTIOSTS)
    (model : TIOSTS) : Prop where
  name : model.name = process.processName
  clocks : model.clocks = if process.isSpecification then tables.clocks else []
  modelVariables : model.modelVariables =
    if process.isSpecification then process.modelVariables.map TypedElement.typedData else []
  actionParameters : model.actionParameters = process.parameters.map TypedElement.typedData
  actions : ∀ type, model.actionsOf type = compiledActions tables process type
  isRegistered : ∀ label, model.IsRegistered label ↔ label ∈ process.stateNames
  labelled : model.Labelled
  isInitial : ∀ label, model.isInitial label =
    (process.states.find? (fun e => e.name == label)).any StateElement.isInitial
  initialLocation : model.initialLocation =
    ((process.states.filter StateElement.isInitial).getLast?).map StateElement.name
  transitions : ∃ created, List.Forall₂ (CompilesTo model) process.transitions created ∧
    model.HoldsTransitions created

section Models

variable {tables : TranslationUnit} {process : AbstractTIOSTS} {model declared : TIOSTS}

/-- The model of a process without its locations and transitions. -/
def blankModel (tables : TranslationUnit) (process : AbstractTIOSTS) (alphabet : Alphabet) :
    TIOSTS :=
  { TIOSTS.new process.processName with
    toAlphabet := alphabet
    clocks := if process.isSpecification then tables.clocks else []
    modelVariables :=
      if process.isSpecification then process.modelVariables.map TypedElement.typedData else []
    actionParameters := process.parameters.map TypedElement.typedData }

theorem setParameters_eq (process : AbstractTIOSTS) (model : TIOSTS) :
    setParameters process model = { model with
      actionParameters := model.actionParameters ++
        process.parameters.map TypedElement.typedData } := by
  rw [← TIOSTS.foldl_addActionParameter, List.foldl_map]
  rfl

theorem setVariables_eq (process : AbstractTIOSTS) (model : TIOSTS) :
    setVariables process model = { model with
      modelVariables := model.modelVariables ++
        process.modelVariables.map TypedElement.typedData } := by
  rw [← TIOSTS.foldl_addVariable, List.foldl_map]
  rfl

theorem preparedModel_eq (tables : TranslationUnit) (process : AbstractTIOSTS) :
    ∃ alphabet, preparedModel tables process = blankModel tables process alphabet := by
  have specified : (if process.isSpecification then
      setVariables process (setClocks tables (TIOSTS.new process.processName))
      else TIOSTS.new process.processName) = { TIOSTS.new process.processName with
        clocks := if process.isSpecification then tables.clocks else []
        modelVariables :=
          if process.isSpecification then process.modelVariables.map TypedElement.typedData
          else [] } := by
    cases process.isSpecification with
    | true =>
        have clocked : setClocks tables (TIOSTS.new process.processName) =
            { TIOSTS.new process.processName with clocks := tables.clocks } :=
          TIOSTS.foldl_addClock tables.clocks _
        rw [if_pos rfl, setVariables_eq, clocked]
        rfl
    | false => rfl
  have whole : preparedModel tables process = (compiledInternalActions process).foldl
      (fun model action => model.addAction action) (setParameters process
        (if process.isSpecification then
          setVariables process (setClocks tables (TIOSTS.new process.processName))
        else TIOSTS.new process.processName)) := setInternalActions_eq process _
  rw [whole, specified, TIOSTS.foldl_addAction, setParameters_eq]
  exact ⟨_, rfl⟩

theorem declareModel_locates (distinct : process.stateNames.Nodup)
    (returned : declareModel tables process = .ok declared) :
    ∃ alphabet, Locates (blankModel tables process alphabet) process.states declared := by
  rw [declareModel_eq] at returned
  split at returned
  · obtain ⟨internal, prepared⟩ := preparedModel_eq tables process
    rw [TIOSTS.foldl_addAction, prepared] at returned
    cases returned
    exact ⟨_, @setLocations_locates { blankModel tables process internal with toAlphabet := _ }
      process rfl rfl distinct⟩
  · cases returned

/-- A process is compiled to its model. -/
theorem compileModel_isCompiled (distinct : process.stateNames.Nodup)
    (returned : compileModel tables process = .ok model) :
    process.IsCompiled tables model := by
  obtain ⟨declared, declares, created⟩ := Symbolrt.bind_eq_ok.mp returned
  obtain ⟨alphabet, locates⟩ := declareModel_locates distinct declares
  obtain ⟨transitions, compiled, grows⟩ := setTransitions_compiles locates.labelled created
  obtain ⟨_, sameDeclared, named, sameAlphabet⟩ := compileModel_eq_ok returned
  rw [declares] at sameDeclared
  cases sameDeclared
  have stores := grows.stores
  have base := locates.stores
  constructor
  · exact compileModel_name returned
  · rw [stores, base]
    rfl
  · rw [stores, base]
    rfl
  · rw [stores, base]
    rfl
  · intro type
    rw [TIOSTS.actionsOf_eq_of_alphabet sameAlphabet]
    exact (declareModel_signature declares).2 type
  · intro label
    rw [grows.isRegistered, TIOSTS.isRegistered_iff, locates.getLocation]
    exact mem_stateNames_iff.symm
  · exact grows.labelled
  · intro label
    rw [grows.isInitial, TIOSTS.isInitial, locates.getLocation, Option.any_map]
    rfl
  · rw [stores]
    exact locates.initialLocation
  · have clocks : model.clocks = declared.clocks := by rw [stores]
    refine ⟨transitions, compiled.imp (fun _ _ compiles => compiles.congr clocks sameAlphabet), ?_⟩
    have transitionsBefore : declared.transitions = ∅ := by
      rw [base]
      rfl
    have conditionBefore : declared.initialCondition = none := by
      rw [base]
      rfl
    constructor
    · intro label
      rw [grows.outOf, locates.outOf, List.nil_append]
    · intro label
      rw [grows.inOf, locates.inOf, List.nil_append]
    · intro key
      rw [grows.lookup, transitionsBefore, AList.lookup_empty, Option.or_none]
    · rw [grows.initialCondition, conditionBefore, Option.or_none, funext grows.isInitial]

end Models

/-- The models that are stored when the text is read and synthesized without an
exception. -/
def TranslationUnit.init (specificationID text : String)
    (models : AList (fun _ : String => TIOSTS)) : Option (AList (fun _ : String => TIOSTS)) :=
  (TranslationUnit.read specificationID text).bind
    (fun unit => (SynthesisUnit.init unit models).toOption)

theorem SynthesisUnit.init_frame {unit : SystemUnit}
    {models stored : AList (fun _ : String => TIOSTS)}
    (returned : SynthesisUnit.init unit models = .ok stored) {name : String}
    (other : name ∉ unit.names) : stored.lookup name = models.lookup name := by
  apply Loops.foldlM_returned
    (fun _ (stored : AList (fun _ : String => TIOSTS)) => stored.lookup name = models.lookup name)
    returned rfl
  intro done process rest current next whole same stepped
  obtain ⟨model, compiled, ended⟩ := Symbolrt.bind_eq_ok.mp stepped
  cases ended
  have member : process ∈ unit.models := by simp [whole]
  rw [AList.lookup_insert_ne, same]
  rintro rfl
  apply other
  rw [compileModel_name compiled]
  exact List.mem_map_of_mem member

/-- The transition has neither guards nor assignments. -/
def TransitionText.isPlain (text : TransitionText) : Bool :=
  text.clockGuard.isNone && text.dataGuard.isNone && text.statement.isNone

/-- What of a transition survives unchanged: its two states, the gate and the deadline. -/
def TransitionText.ends (text : TransitionText) :
    String × String × Option String × Option Deadline :=
  (text.source.1.image, text.destination.1.image,
    text.action.map (fun action => action.name.1.image), text.deadline)

/-- The set of a process keeps both declarations, even on one line: an expression is equal to
itself alone, and a declaration without expressions is told apart by the rest. -/
def TransitionText.IsApart (text other : TransitionText) : Prop :=
  text.isPlain = true → other.isPlain = true → text.ends ≠ other.ends

instance (text other : TransitionText) : Decidable (text.IsApart other) :=
  inferInstanceAs (Decidable (_ → _))

/-- A text whose processes are compiled. -/
structure SystemText.IsCompilable (specificationID : String) (text : SystemText)
    (unit : SystemUnit) : Prop where
  distinct : text.names.Nodup
  apart : ∀ process ∈ text.processes.toList,
    process.transitions.toList.Pairwise TransitionText.IsApart
  means : text.meaning specificationID = .ok unit
  uses : ∀ process ∈ unit.models, process.UsesDeclared
  entered : ∀ process ∈ unit.models, ∀ act ∈ process.declaredActions,
    act.identifier ∈ unit.paramTable

/-- The stored model of the text of a process: its declarations are compiled with the tables
of the whole text, its parameters are those of the gates when the process has been read. -/
def ProcessText.IsStored (specificationID : String) (system : SystemText)
    (tables : TranslationUnit) (text : ProcessText) (model : TIOSTS) : Prop :=
  ∃ parameters,
    SystemText.ReadsParameters (system.header.meaning (SystemUnit.setUp specificationID))
      system.processes.toList text parameters ∧
    (text.process specificationID tables parameters).IsCompiled tables model

section Texts

variable {specificationID : String} {system : SystemText} {unit : SystemUnit}

theorem SystemText.IsCompilable.accepted (compilable : system.IsCompilable specificationID unit) :
    systemRule specificationID system.write = .ok unit :=
  (systemRule_write specificationID system).trans compilable.means

theorem SystemText.IsCompilable.names (compilable : system.IsCompilable specificationID unit) :
    unit.names = system.names :=
  (SystemText.keeps_of_meaning compilable.distinct compilable.means).names

theorem SystemText.IsCompilable.exists_process
    (compilable : system.IsCompilable specificationID unit) {text : ProcessText}
    (member : text ∈ system.processes.toList) : ∃ parameters, AreParameters parameters ∧
      SystemText.ReadsParameters (system.header.meaning (SystemUnit.setUp specificationID))
        system.processes.toList text parameters ∧
      text.process specificationID unit.toTranslationUnit parameters ∈ unit.models := by
  have keeps := SystemText.keeps_of_meaning compilable.distinct compilable.means
  obtain ⟨process, kept, parameters, are, reads, same⟩ :=
    InStep.exists_right keeps.models member
  exact ⟨parameters, are, reads, same _ keeps.sameClocks ▸ kept⟩

/-- Every process that is kept is stored as its model. -/
theorem SystemText.IsCompilable.stores_kept
    (compilable : system.IsCompilable specificationID unit)
    (models : AList (fun _ : String => TIOSTS)) :
    ∃ stored, SynthesisUnit.init unit models = .ok stored ∧
      ∀ process ∈ unit.models, ∃ model, stored.lookup process.processName = some model ∧
        process.IsCompiled unit.toTranslationUnit model := by
  have accepted := compilable.accepted
  have completes := (SynthesisUnit.completes_iff (systemRule_names_nodup accepted)
    (systemRule_isRead accepted) compilable.uses models).mpr compilable.entered
  obtain ⟨stored, returned, held⟩ := completes
  refine ⟨stored, returned, fun process kept => ?_⟩
  obtain ⟨model, compiled, found⟩ := held process kept
  have keeps := SystemText.keeps_of_meaning compilable.distinct compilable.means
  obtain ⟨text, _, parameters, _, _, read⟩ := InStep.exists_left keeps.models kept
  have same := read _ keeps.sameClocks
  have states : process.stateNames.Nodup := by
    rw [same]
    exact (text.declared_isOpen specificationID).states
  exact ⟨model, found, compileModel_isCompiled states compiled⟩

theorem SystemText.IsCompilable.stores (compilable : system.IsCompilable specificationID unit)
    (models : AList (fun _ : String => TIOSTS)) :
    ∃ stored, SynthesisUnit.init unit models = .ok stored ∧
      (∀ text ∈ system.processes.toList, ∃ model,
        stored.lookup text.name.1.image = some model ∧
          text.IsStored specificationID system unit.toTranslationUnit model) ∧
      ∀ name, name ∉ system.names → stored.lookup name = models.lookup name := by
  obtain ⟨stored, returned, held⟩ := compilable.stores_kept models
  refine ⟨stored, returned, ?_, ?_⟩
  · intro text member
    obtain ⟨parameters, _, reads, kept⟩ := compilable.exists_process member
    obtain ⟨model, found, isCompiled⟩ := held _ kept
    have named : (text.process specificationID unit.toTranslationUnit parameters).processName =
        text.name.1.image := (text.declared_isOpen specificationID).processName
    rw [named] at found
    exact ⟨model, found, parameters, reads, isCompiled⟩
  · intro name other
    apply SynthesisUnit.init_frame returned
    rw [compilable.names]
    exact other

theorem TranslationUnit.init_layOut (compilable : system.IsCompilable specificationID unit)
    (gaps : Nat → Lexer.Gap) (models : AList (fun _ : String => TIOSTS)) :
    TranslationUnit.init specificationID (String.ofList (Lexer.layOut gaps system.write)) models =
      (SynthesisUnit.init unit models).toOption := by
  have spells := Lexer.spells_layOut system.write gaps
  rw [← @String.toList_ofList (Lexer.layOut gaps system.write)] at spells
  have read : TranslationUnit.read specificationID
      (String.ofList (Lexer.layOut gaps system.write)) = some unit := by
    rw [TranslationUnit.read, tokenize_of_spells spells]
    exact congrArg Except.toOption compilable.accepted
  rw [TranslationUnit.init, read]
  rfl

/-- However a text is laid out, its processes are stored under their names, each as the model
that its declarations are compiled to, and nothing else that is stored changes. -/
theorem TranslationUnit.init_compiles (compilable : system.IsCompilable specificationID unit)
    (gaps : Nat → Lexer.Gap) (models : AList (fun _ : String => TIOSTS)) :
    ∃ stored, TranslationUnit.init specificationID
        (String.ofList (Lexer.layOut gaps system.write)) models = some stored ∧
      (∀ text ∈ system.processes.toList, ∃ model,
        stored.lookup text.name.1.image = some model ∧
          text.IsStored specificationID system unit.toTranslationUnit model) ∧
      ∀ name, name ∉ system.names → stored.lookup name = models.lookup name := by
  obtain ⟨stored, returned, kept⟩ := compilable.stores models
  refine ⟨stored, ?_, kept⟩
  rw [TranslationUnit.init_layOut compilable, returned]
  rfl

end Texts

namespace TramText

open SharedGate

theorem isIdentifier_ready : isIdentifier "Ready" = true := by decide

theorem isIdentifier_moving : isIdentifier "Moving" = true := by decide

theorem isIdentifier_clock : isIdentifier "c" = true := by decide

theorem isIdentifier_fare : isIdentifier "Fare" = true := by decide

theorem isIdentifier_price : isIdentifier "price" = true := by decide

theorem isIdentifier_fee : isIdentifier "fee" = true := by decide

theorem isIdentifier_driver : isIdentifier "Driver" = true := by decide

theorem isIdentifier_tram : isIdentifier "Tram" = true := by decide

theorem isNumeral_three : isNumeral "3" = true := by decide

def named (name : String) (isName : isIdentifier name = true) : Identifier :=
  ⟨.identifier name isName, rfl⟩

def ready : Identifier := named "Ready" isIdentifier_ready

def moving : Identifier := named "Moving" isIdentifier_moving

def clock : Identifier := named "c" isIdentifier_clock

def fare : Identifier := named "Fare" isIdentifier_fare

/-- `from Ready when c <= 3 if (fee) sync Fare out (price) do c := 0 to Moving;` -/
def start : TransitionText where
  source := ready
  clockGuard := some
    ⟨⟨clock, ⟨.keyword .lessThenEqualsTk, rfl⟩, ⟨.integer "3" isNumeral_three, rfl⟩⟩, []⟩
  dataGuard := some (.enclosed (.operand (.identifier "fee" isIdentifier_fee) rfl))
  action := some ⟨fare, some ⟨some ⟨.keyword .outActTk, rfl⟩, [named "price" isIdentifier_price]⟩⟩
  statement := some (.single ⟨clock, .operand (.integer "0" isNumeral_zero) rfl⟩)
  deadline := none
  destination := moving

/-- `from Moving to Ready;` -/
def stop : TransitionText := ⟨moving, none, none, none, none, none, ready⟩

def driver : ProcessText where
  name := named "Driver" isIdentifier_driver
  inputs := none
  outputs := ⟨fare, []⟩
  internals := none
  modelVariables := some [⟨named "fee" isIdentifier_fee, .integer⟩]
  states := ⟨⟨ready, true⟩, [⟨moving, false⟩]⟩
  transitions := ⟨start, [stop]⟩

/-- A tram line: a system with one clock, one gate and one process. -/
def system : SystemText where
  header := ⟨named "Tram" isIdentifier_tram, none, some ⟨clock, []⟩, ⟨⟨fare, some [.integer]⟩, []⟩⟩
  processes := ⟨driver, []⟩

/-- One blank behind each token. -/
def blanks (_ : Nat) : Lexer.Gap := ⟨' ', [], rfl, .nil⟩

theorem compilable : ∃ unit, system.IsCompilable "Driver" unit := by
  have ran : (system.meaning "Driver").toOption.map (SpareGate.checked true) = some true := by
    decide +kernel
  obtain ⟨unit, means, holds⟩ := Reading.exists_read ran
  obtain ⟨uses, entered⟩ := (Bool.and_eq_true _ _).mp holds
  refine ⟨unit, by decide, by decide, means, ?_, ?_⟩
  · exact fun process among => of_decide_eq_true (List.all_eq_true.mp uses process among)
  · intro process among act declared
    have all := List.all_eq_true.mp (beq_iff_eq.mp entered) process among
    exact of_decide_eq_true (List.all_eq_true.mp all act declared)

end TramText

open TramText in
theorem TranslationUnit.init_compiles_tram :
    ∃ (unit : SystemUnit) (stored : AList (fun _ : String => TIOSTS)),
      TranslationUnit.init "Driver" (String.ofList (Lexer.layOut blanks system.write)) ∅ =
        some stored ∧
      (∀ text ∈ system.processes.toList, ∃ model,
        stored.lookup text.name.1.image = some model ∧
          text.IsStored "Driver" system unit.toTranslationUnit model) ∧
      ∀ name, name ∉ system.names →
        stored.lookup name = (∅ : AList (fun _ : String => TIOSTS)).lookup name := by
  obtain ⟨unit, compiles⟩ := TramText.compilable
  exact ⟨unit, TranslationUnit.init_compiles compiles blanks ∅⟩

end Symbolrt
