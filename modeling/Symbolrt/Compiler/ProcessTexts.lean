import Symbolrt.Compiler.SystemTexts
import Symbolrt.Lib.Loops

/-!
# What the parser keeps of a process

The processes that the parser hands to the synthesis hold the declarations of their
texts.  A declaration is read the same way wherever its process stands, since only the
clocks of the text take part in it.
-/

namespace Symbolrt

open Reading

section Transitions

variable {tables other : TranslationUnit}

theorem enterParameters_clocks (act : AbstractAction) (tables : TranslationUnit) :
    (tables.enterParameters act).clocks = tables.clocks := by
  rw [TranslationUnit.enterParameters]
  split
  · rfl
  · rfl

theorem TransitionText.tables_clocks (text : TransitionText) (tables : TranslationUnit) :
    (text.tables tables).clocks = tables.clocks := by
  obtain ⟨source, clockGuard, dataGuard, action, statement, deadline, destination⟩ := text
  rcases action with _ | ⟨name, _ | listed⟩
  · rfl
  · rfl
  · exact enterParameters_clocks _ tables

theorem TransitionText.transition_congr (same : tables.clocks = other.clocks)
    (text : TransitionText) : text.transition tables = text.transition other := by
  have clocks : (text.tables tables).clocks = (text.tables other).clocks := by
    rw [text.tables_clocks, text.tables_clocks, same]
  have statements : ∀ statement : StatementText,
      statement.meaning (text.tables tables) = statement.meaning (text.tables other) := by
    intro statement
    apply List.map_congr_left
    intro assignment _
    rw [AssignmentText.meaning, AssignmentText.meaning, clocks]
  have actions : ∀ action : ActionText, (action.meaning tables).1 = (action.meaning other).1 := by
    rintro ⟨name, _ | listed⟩
    · rfl
    · rfl
  simp only [TransitionText.transition, statements, actions]

end Transitions

theorem Identifier.isIdentifier (name : Identifier) :
    Symbolrt.isIdentifier name.1.image = true := by
  obtain ⟨token, isName⟩ := name
  cases token with
  | keyword word => cases isName
  | identifier name isIdentifier => exact isIdentifier
  | integer numeral isNumeral => cases isName

/-- The parameters in the table are identifiers. -/
def TranslationUnit.IsNamed (tables : TranslationUnit) : Prop :=
  ∀ gate params, tables.paramTable.lookup gate = some params →
    ∀ param ∈ params, isIdentifier param = true

theorem ParametersText.action_named (act : AbstractAction) (text : ParametersText)
    (named : ∀ param ∈ act.parameters, isIdentifier param = true) :
    ∀ param ∈ (text.action act).parameters, isIdentifier param = true := by
  have directed : (setDirection (text.direction.map Subtype.val) act).parameters =
      act.parameters := by
    cases text.direction with
    | none => rfl
    | some direction => rfl
  rw [← directed] at named
  rw [ParametersText.action]
  generalize setDirection (text.direction.map Subtype.val) act = current at named
  induction text.parameters generalizing current with
  | nil => exact named
  | cons name names induction =>
      have added : ∀ param ∈ (current.addParameter name.1.image).parameters,
          isIdentifier param = true := by
        rw [AbstractAction.addParameter]
        split
        · exact named
        · exact List.forall_mem_append.mpr ⟨named, List.forall_mem_singleton.mpr name.isIdentifier⟩
      exact induction _ added

theorem TransitionText.tables_isNamed {tables : TranslationUnit} (isNamed : tables.IsNamed)
    (text : TransitionText) : (text.tables tables).IsNamed := by
  obtain ⟨source, clockGuard, dataGuard, action, statement, deadline, destination⟩ := text
  rcases action with _ | ⟨name, _ | listed⟩
  · exact isNamed
  · exact isNamed
  · intro gate params found
    change (tables.enterParameters (listed.action ⟨name.1.image, .internal, []⟩)).paramTable.lookup
      gate = some params at found
    rw [TranslationUnit.enterParameters] at found
    split at found
    · by_cases same : gate = (listed.action ⟨name.1.image, .internal, []⟩).identifier
      · rw [same, AList.lookup_insert] at found
        cases found
        exact listed.action_named _ (fun _ member => absurd member List.not_mem_nil)
      · rw [AList.lookup_insert_ne same] at found
        exact isNamed gate params found
    · exact isNamed gate params found

/-- Parameters with identifiers of their own as names. -/
structure AreParameters (parameters : List TypedElement) : Prop where
  distinct : (parameters.map TypedElement.name).Nodup
  named : ∀ element ∈ parameters, isIdentifier element.name = true

theorem forall_mem_addDistinct {α : Type} {property : α → Prop} {equals : α → α → Bool}
    {elements : List α} (holds : ∀ other ∈ elements, property other) {element : α}
    (new : property element) : ∀ other ∈ addDistinct equals element elements, property other := by
  rw [addDistinct]
  split
  · exact holds
  · exact List.forall_mem_append.mpr ⟨holds, List.forall_mem_singleton.mpr new⟩

theorem addDistinct_nodup {α : Type} {key : α → String} {equals : α → α → Bool}
    (isKey : ∀ element other, equals element other = (key element == key other))
    {elements : List α} (distinct : (elements.map key).Nodup) (element : α) :
    ((addDistinct equals element elements).map key).Nodup := by
  rw [addDistinct]
  split
  · exact distinct
  · rename_i new
    rw [List.map_append, List.nodup_append]
    refine ⟨distinct, List.nodup_singleton _, ?_⟩
    intro name listed other single same
    obtain ⟨found, member, rfl⟩ := List.mem_map.mp listed
    apply new
    rw [List.any_eq_true]
    refine ⟨found, member, ?_⟩
    rw [isKey, same, List.mem_singleton.mp single]
    exact beq_self_eq_true _

theorem AreParameters.add {parameters : List TypedElement} (are : AreParameters parameters)
    {element : TypedElement} (named : isIdentifier element.name = true) :
    AreParameters (addDistinct (fun element other => element.name == other.name) element
      parameters) where
  distinct := addDistinct_nodup (fun _ _ => rfl) are.distinct element
  named := forall_mem_addDistinct are.named named

theorem actionParameters_are {unit : SystemUnit} (isNamed : unit.toTranslationUnit.IsNamed)
    {parameters : List TypedElement} (found : actionParameters unit = .ok parameters) :
    AreParameters parameters := by
  refine Loops.foldlM_returned (fun _ actparams => AreParameters actparams) found
    ⟨List.nodup_nil, nofun⟩ ?_
  intro done gate rest actparams next whole are stepped
  split at stepped
  · rename_i params types looked _
    refine Loops.foldlM_returned (fun _ actparams => AreParameters actparams) stepped are ?_
    rintro done ⟨param, i⟩ rest actparams next whole are stepped
    dsimp only at stepped
    split at stepped
    · cases stepped
    · cases stepped
      apply are.add
      apply isNamed gate params looked
      have member : (param, i) ∈ params.zipIdx := by simp [whole]
      exact (List.mem_zipIdx member).2.2 ▸ List.getElem_mem _
  · cases stepped
    exact are

/-- A process whose declarations in front of the transitions are read. -/
structure AbstractTIOSTS.IsOpen (name : String) (isSpecification : Bool)
    (process : AbstractTIOSTS) : Prop where
  processName : process.processName = name
  isSpecification : process.isSpecification = isSpecification
  transitions : process.transitions = []
  parameters : process.parameters = []
  finished : process.finished = false
  states : (process.states.map StateElement.name).Nodup
  named : (∀ element ∈ process.modelVariables, isIdentifier element.name = true) ∧
    ∀ e ∈ process.states, isIdentifier e.name = true

namespace AbstractTIOSTS

variable {name : String} {isSpecification : Bool} {process : AbstractTIOSTS}

theorem change_open {update : AbstractTIOSTS → AbstractTIOSTS} (opened : process.finished = false) :
    process.change update = update process := by
  rw [change, opened]
  rfl

theorem IsOpen.setInputAction (isOpen : IsOpen name isSpecification process) (aux : Token) :
    IsOpen name isSpecification (setInputAction aux process) := by
  rw [Symbolrt.setInputAction, addInputAction, change_open isOpen.finished]
  exact { isOpen with }

theorem IsOpen.setOutputAction (isOpen : IsOpen name isSpecification process) (aux : Token) :
    IsOpen name isSpecification (setOutputAction aux process) := by
  rw [Symbolrt.setOutputAction, addOutputAction, change_open isOpen.finished]
  exact { isOpen with }

theorem IsOpen.setInternalAction (isOpen : IsOpen name isSpecification process) (aux : Token) :
    IsOpen name isSpecification (setInternalAction aux process) := by
  rw [Symbolrt.setInternalAction, addInternalAction, change_open isOpen.finished]
  exact { isOpen with }

theorem IsOpen.addVariable (isOpen : IsOpen name isSpecification process)
    (text : VariableText) : IsOpen name isSpecification (text.meaning process) := by
  rw [VariableText.meaning, AbstractTIOSTS.addVariable, change_open isOpen.finished]
  have grown : ∀ element ∈ addDistinct (fun element other => element.name == other.name)
      ⟨text.name.1.image, text.type⟩ process.modelVariables,
      isIdentifier (TypedElement.name element) = true := by
    apply forall_mem_addDistinct isOpen.named.1
    exact text.name.isIdentifier
  exact { isOpen with named := ⟨grown, isOpen.named.2⟩ }

theorem IsOpen.addState (isOpen : IsOpen name isSpecification process) (text : StateText) :
    IsOpen name isSpecification (text.meaning process) := by
  rw [StateText.meaning, AbstractTIOSTS.addState, change_open isOpen.finished]
  have grown : ∀ e ∈ addDistinct (fun element other => element.name == other.name)
      ⟨text.name.1.image, text.isInitial⟩ process.states,
      isIdentifier (StateElement.name e) = true := by
    apply forall_mem_addDistinct isOpen.named.2
    exact text.name.isIdentifier
  exact { isOpen with
    states := addDistinct_nodup (fun _ _ => rfl) isOpen.states _
    named := ⟨isOpen.named.1, grown⟩ }

theorem IsOpen.foldl {T : Type} {add : AbstractTIOSTS → T → AbstractTIOSTS}
    (adds : ∀ {process}, IsOpen name isSpecification process → ∀ text,
      IsOpen name isSpecification (add process text))
    (isOpen : IsOpen name isSpecification process) (texts : List T) :
    IsOpen name isSpecification (texts.foldl add process) := by
  induction texts generalizing process with
  | nil => exact isOpen
  | cons text texts induction => exact induction (adds isOpen text)

theorem IsOpen.optional {T : Type} (add : AbstractTIOSTS → T → AbstractTIOSTS)
    (adds : ∀ {process}, IsOpen name isSpecification process → ∀ text,
      IsOpen name isSpecification (add process text))
    (isOpen : IsOpen name isSpecification process) (text : Option T) :
    IsOpen name isSpecification (text.elim process (add process)) := by
  cases text with
  | none => exact isOpen
  | some text => exact adds isOpen text

end AbstractTIOSTS

namespace ProcessText

section Reading

variable {specificationID : String}

theorem declared_isOpen (specificationID : String) (text : ProcessText) :
    AbstractTIOSTS.IsOpen text.name.1.image (text.name.1.image = specificationID)
      (text.declared specificationID) := by
  have blank : AbstractTIOSTS.IsOpen text.name.1.image (text.name.1.image = specificationID)
      ((AbstractTIOSTS.new text.name.1.image).setIsSpecification
        (text.name.1.image = specificationID)) := 
    ⟨rfl, rfl, rfl, rfl, rfl, List.nodup_nil, nofun, nofun⟩
  have inputs := blank.optional (addNames setInputAction)
    (fun isOpen names => isOpen.foldl (fun isOpen name => isOpen.setInputAction name.1)
      names.toList) text.inputs
  have outputs := inputs.foldl (fun isOpen name => isOpen.setOutputAction name.1)
    text.outputs.toList
  have internals := outputs.optional (addNames setInternalAction)
    (fun isOpen names => isOpen.foldl (fun isOpen name => isOpen.setInternalAction name.1)
      names.toList) text.internals
  have declared := internals.optional (List.foldl VariableText.meaning)
    (fun isOpen texts => isOpen.foldl (fun isOpen text => isOpen.addVariable text) texts)
    text.modelVariables
  exact declared.foldl (fun isOpen text => isOpen.addState text) text.states.toList

/-- The process that the parser hands to the synthesis. -/
def process (specificationID : String) (tables : TranslationUnit)
    (parameters : List TypedElement) (text : ProcessText) : AbstractTIOSTS :=
  { text.declared specificationID with
    transitions := text.transitions.toList.map (TransitionText.transition tables)
    parameters := parameters
    finished := true }

theorem process_congr {tables other : TranslationUnit} (same : tables.clocks = other.clocks)
    (parameters : List TypedElement) (text : ProcessText) :
    text.process specificationID tables parameters =
      text.process specificationID other parameters := by
  have read : text.transitions.toList.map (TransitionText.transition tables) =
      text.transitions.toList.map (TransitionText.transition other) :=
    List.map_congr_left (fun declaration _ => declaration.transition_congr same)
  rw [process, process, read]

theorem foldl_enterTransition (texts : List TransitionText) {process : AbstractTIOSTS}
    (opened : process.finished = false) (unit : SystemUnit) :
    ∃ tables : TranslationUnit, tables.clocks = unit.clocks ∧
      (unit.toTranslationUnit.IsNamed → tables.IsNamed) ∧
      texts.foldl enterTransition (process, unit) =
        ({ process with
            transitions := process.transitions ++
              texts.map (TransitionText.transition unit.toTranslationUnit) },
          unit.setTables tables) := by
  induction texts generalizing process unit with
  | nil =>
      refine ⟨unit.toTranslationUnit, rfl, id, ?_⟩
      rw [List.map_nil, List.append_nil]
      rfl
  | cons text texts induction =>
      let next := unit.setTables (text.tables unit.toTranslationUnit)
      have entered : enterTransition (process, unit) text = ({ process with
          transitions := process.transitions ++ [text.transition unit.toTranslationUnit] },
          next) := by
        rw [enterTransition, AbstractTIOSTS.addTransition, AbstractTIOSTS.change_open opened]
      have clocks : next.clocks = unit.clocks := text.tables_clocks unit.toTranslationUnit
      obtain ⟨tables, same, named, read⟩ := @induction { process with
        transitions := process.transitions ++ [text.transition unit.toTranslationUnit] } opened next
      refine ⟨tables, same.trans clocks, fun isNamed => named (text.tables_isNamed isNamed), ?_⟩
      have alike : texts.map (TransitionText.transition next.toTranslationUnit) =
          texts.map (TransitionText.transition unit.toTranslationUnit) :=
        List.map_congr_left (fun declaration _ => declaration.transition_congr clocks)
      rw [List.foldl_cons, entered, read, alike, List.map_cons, List.append_assoc]
      rfl

theorem foldl_addParameter (actparams : List TypedElement) {process : AbstractTIOSTS}
    (opened : process.finished = false) :
    actparams.foldl (fun process tp => process.addParameter tp) process =
      { process with parameters := process.parameters ++ actparams } := by
  induction actparams generalizing process with
  | nil => rw [List.append_nil]; rfl
  | cons tp actparams induction =>
      have added : process.addParameter tp =
          { process with parameters := process.parameters ++ [tp] } := by
        rw [AbstractTIOSTS.addParameter, AbstractTIOSTS.change_open opened]
      rw [List.foldl_cons, added, @induction
        { process with parameters := process.parameters ++ [tp] } opened, List.append_assoc]
      rfl

/-- A process that was read is put in its place with all its declarations. -/
theorem meaning_puts {unit next : SystemUnit} {text : ProcessText}
    (means : text.meaning unit = .ok next) : ∃ tables parameters,
      tables.clocks = unit.clocks ∧ (unit.toTranslationUnit.IsNamed → tables.IsNamed) ∧
        actionParameters (unit.setTables tables) = .ok parameters ∧
        next = (unit.setTables tables).putModel
          (text.process unit.specificationID unit.toTranslationUnit parameters) := by
  have isOpen := text.declared_isOpen unit.specificationID
  obtain ⟨tables, clocks, named, read⟩ :=
    foldl_enterTransition text.transitions.toList isOpen.finished unit
  rw [ProcessText.meaning, read, finishModel] at means
  obtain ⟨parameters, found, ended⟩ := Reading.bind_eq_ok.mp means
  refine ⟨tables, parameters, clocks, named, found, ?_⟩
  let withTransitions : AbstractTIOSTS := { text.declared unit.specificationID with
    transitions := (text.declared unit.specificationID).transitions ++
      text.transitions.toList.map (TransitionText.transition unit.toTranslationUnit) }
  have added := @foldl_addParameter parameters withTransitions isOpen.finished
  have whole : ({ withTransitions with
      parameters := withTransitions.parameters ++ parameters } : AbstractTIOSTS).finishProcess =
        text.process unit.specificationID unit.toTranslationUnit parameters := by
    simp only [withTransitions, isOpen.transitions, isOpen.parameters, List.nil_append]
    rfl
  rw [← whole, ← added]
  exact (Except.ok.inj ended).symm

end Reading

end ProcessText

theorem HeaderText.meaning_starts (specificationID : String) (text : HeaderText) :
    (text.meaning (SystemUnit.setUp specificationID)).models = [] ∧
      (text.meaning (SystemUnit.setUp specificationID)).specificationID = specificationID ∧
      (text.meaning (SystemUnit.setUp specificationID)).paramTable = ∅ := by
  let starts : SystemUnit → Prop := fun unit =>
    unit.models = [] ∧ unit.specificationID = specificationID ∧ unit.paramTable = ∅
  have folded : ∀ {T : Type} (add : SystemUnit → T → SystemUnit),
      (∀ unit text, starts unit → starts (add unit text)) →
      ∀ (texts : List T) (unit : SystemUnit), starts unit → starts (texts.foldl add unit) := by
    intro T add adds texts
    induction texts with
    | nil => exact fun unit kept => kept
    | cons text texts induction => exact fun unit kept => induction _ (adds unit text kept)
  have clocked : starts (text.clocks.elim (SystemUnit.setUp specificationID)
      (HeaderText.addClocks (SystemUnit.setUp specificationID))) := by
    cases text.clocks with
    | none => exact ⟨rfl, rfl, rfl⟩
    | some names =>
        exact folded (fun unit (name : Identifier) => unit.addClock name.1) (fun _ _ kept => kept)
          names.toList (SystemUnit.setUp specificationID) ⟨rfl, rfl, rfl⟩
  exact folded GateText.meaning (fun _ _ kept => kept) text.gates.toList _ clocked

namespace SystemText

/-- The names of the processes. -/
def names (text : SystemText) : List String :=
  text.processes.toList.map (fun process => process.name.1.image)

/-- The parameters that the gates have in the tables when the process has been read, and no
later one. -/
def ReadsParameters (start : SystemUnit) (texts : List ProcessText) (text : ProcessText)
    (parameters : List TypedElement) : Prop :=
  ∃ before after behind, texts = before ++ text :: after ∧
    (before ++ [text]).foldlM ProcessText.meaning start = .ok behind ∧
    actionParameters behind = .ok parameters

/-- What the parser keeps of the processes, in their order. -/
structure Keeps (specificationID : String) (start : SystemUnit) (texts : List ProcessText)
    (unit : SystemUnit) : Prop where
  returned : texts.foldlM ProcessText.meaning start = .ok unit
  sameClocks : unit.clocks = start.clocks
  sameSpecification : unit.specificationID = specificationID
  isNamed : unit.toTranslationUnit.IsNamed
  models : List.Forall₂ (fun text process => ∃ parameters, AreParameters parameters ∧
    ReadsParameters start texts text parameters ∧
    ∀ tables : TranslationUnit, tables.clocks = start.clocks →
      process = text.process specificationID tables parameters)
    texts unit.models

section Keeping

variable {specificationID : String} {start : SystemUnit} {texts : List ProcessText}
  {text : ProcessText} {unit next : SystemUnit}

theorem ReadsParameters.append {parameters : List TypedElement}
    (reads : ReadsParameters start texts text parameters) (others : List ProcessText) :
    ReadsParameters start (texts ++ others) text parameters := by
  obtain ⟨before, after, behind, whole, returned, found⟩ := reads
  exact ⟨before, after ++ others, behind, by simp [whole], returned, found⟩

theorem actionParameters_putModel (unit : SystemUnit) (process : AbstractTIOSTS) :
    actionParameters (unit.putModel process) = actionParameters unit := by
  unfold SystemUnit.putModel
  split <;> rfl

theorem Keeps.names (keeps : Keeps specificationID start texts unit) :
    unit.models.map AbstractTIOSTS.processName = texts.map (fun text => text.name.1.image) := by
  have same : List.Forall₂ (fun text process => text.name.1.image = process.processName) texts
      unit.models := by
    refine keeps.models.imp ?_
    rintro text process ⟨parameters, _, _, read⟩
    rw [read ⟨start.clocks, ∅, ∅⟩ rfl]
    exact (ProcessText.declared_isOpen _ _).processName.symm
  clear keeps
  generalize unit.models = models at same
  induction same with
  | nil => rfl
  | cons first _ induction => rw [List.map_cons, List.map_cons, induction, first]

theorem putModel_new {process : AbstractTIOSTS}
    (new : process.processName ∉ unit.models.map AbstractTIOSTS.processName) :
    unit.putModel process = { unit with models := unit.models ++ [process] } := by
  apply if_neg
  rw [List.any_eq_true]
  rintro ⟨other, member, same⟩
  exact new (List.mem_map.mpr ⟨other, member, eq_of_beq same⟩)

/-- One more process with a name of its own. -/
theorem Keeps.step (keeps : Keeps specificationID start texts unit)
    (new : text.name.1.image ∉ texts.map (fun text => text.name.1.image))
    (means : text.meaning unit = .ok next) :
    Keeps specificationID start (texts ++ [text]) next := by
  have returned : (texts ++ [text]).foldlM ProcessText.meaning start = .ok next := by
    rw [List.foldlM_append, keeps.returned]
    change [text].foldlM ProcessText.meaning unit = _
    rw [List.foldlM_cons, means]
    rfl
  obtain ⟨tables, parameters, sameClocks, named, found, rfl⟩ := ProcessText.meaning_puts means
  have isNamed := named keeps.isNamed
  have are := @actionParameters_are (unit.setTables tables) isNamed parameters found
  have named : (text.process unit.specificationID unit.toTranslationUnit parameters).processName =
      text.name.1.image := (text.declared_isOpen _).processName
  have isNew : (text.process unit.specificationID unit.toTranslationUnit parameters).processName ∉
      (unit.setTables tables).models.map AbstractTIOSTS.processName := by
    rw [named]
    exact keeps.names ▸ new
  have reads : ReadsParameters start (texts ++ [text]) text parameters :=
    ⟨texts, [], _, rfl, returned, (actionParameters_putModel _ _).trans found⟩
  rw [putModel_new isNew] at returned ⊢
  refine ⟨returned, sameClocks.trans keeps.sameClocks, keeps.sameSpecification, isNamed, ?_⟩
  refine List.rel_append (keeps.models.imp ?_)
    (List.Forall₂.cons ⟨parameters, are, reads, ?_⟩ List.Forall₂.nil)
  · rintro other process ⟨parameters, are, reads, same⟩
    exact ⟨parameters, are, reads.append [text], same⟩
  · intro other same
    rw [keeps.sameSpecification]
    exact ProcessText.process_congr (keeps.sameClocks.trans same.symm) parameters text

theorem Keeps.steps (keeps : Keeps specificationID start texts unit) (others : List ProcessText)
    (distinct : ((texts ++ others).map (fun text => text.name.1.image)).Nodup)
    (means : others.foldlM ProcessText.meaning unit = .ok next) :
    Keeps specificationID start (texts ++ others) next := by
  induction others generalizing texts unit with
  | nil =>
      cases means
      rw [List.append_nil]
      exact keeps
  | cons text others induction =>
      rw [List.foldlM_cons] at means
      obtain ⟨middle, stepped, later⟩ := Reading.bind_eq_ok.mp means
      have new : text.name.1.image ∉ texts.map (fun text => text.name.1.image) := by
        rw [List.map_append, List.nodup_append] at distinct
        intro member
        exact distinct.2.2 _ member _ List.mem_cons_self rfl
      have whole := induction (keeps.step new stepped) (by simpa using distinct) later
      rw [List.append_assoc] at whole
      exact whole

end Keeping

theorem keeps_of_meaning {specificationID : String} {text : SystemText} {unit : SystemUnit}
    (distinct : text.names.Nodup) (means : text.meaning specificationID = .ok unit) :
    Keeps specificationID (text.header.meaning (SystemUnit.setUp specificationID))
      text.processes.toList unit := by
  obtain ⟨models, same, blank⟩ := text.header.meaning_starts specificationID
  have starts : Keeps specificationID
      (text.header.meaning (SystemUnit.setUp specificationID)) []
      (text.header.meaning (SystemUnit.setUp specificationID)) := by
    refine ⟨rfl, rfl, same, ?_, ?_⟩
    · intro gate params found
      rw [blank, AList.lookup_empty] at found
      cases found
    · rw [models]
      exact List.Forall₂.nil
  exact starts.steps text.processes.toList distinct means

end SystemText

end Symbolrt
