import Symbolrt.Compiler.ParameterTable
import Symbolrt.Compiler.SynthesisUnit

/-!
# The parameters of compiled actions

The actions of a process get the parameters of the last sync clause of the whole
text.  They are those of the process itself exactly if that clause writes the list
that the clauses of the process write.
-/

namespace Symbolrt

open Reading

namespace AbstractTIOSTS

/-- The parameter lists that the sync clauses of the process write behind a name. -/
def written (process : AbstractTIOSTS) (name : String) : List (List String) :=
  ((process.transitions.filterMap AbstractTransition.action).filter
    (fun act => act.identifier = name)).map AbstractAction.parameters

/-- The declared input and output actions. -/
def declaredActions (process : AbstractTIOSTS) : List AbstractAction :=
  process.inputActions ++ process.outputActions

/-- The process uses each of its actions, always with the same parameters. -/
def UsesConsistently (process : AbstractTIOSTS) : Prop :=
  ∀ act ∈ process.declaredActions, ∃ parameters ∈ process.written act.identifier,
    ∀ others ∈ process.written act.identifier, others = parameters

instance (process : AbstractTIOSTS) : Decidable process.UsesConsistently :=
  inferInstanceAs (Decidable (∀ act ∈ process.declaredActions,
    ∃ parameters ∈ process.written act.identifier,
      ∀ others ∈ process.written act.identifier, others = parameters))

end AbstractTIOSTS

/-- The actions of the model have the parameters that the process writes. -/
def HasOwnParameters (process : AbstractTIOSTS) (model : TIOSTS) : Prop :=
  ∀ action ∈ model.getInputOutputActions, action.parameters ∈ process.written action.name

/-- The process is compiled with its own parameters, up to its transitions, with them
and in what the synthesis of the text stores. -/
structure KeepsParameters (unit : SystemUnit) (process : AbstractTIOSTS) : Prop where
  declared : ∃ model, declareModel unit.toTranslationUnit process = .ok model ∧
    HasOwnParameters process model
  compiled : ∀ {model}, compileModel unit.toTranslationUnit process = .ok model →
    HasOwnParameters process model
  stored : ∀ {models stored}, SynthesisUnit.init unit models = .ok stored →
    ∃ model, stored.lookup process.processName = some model ∧ HasOwnParameters process model

section Models

variable {unit next : SystemUnit} {tokens rest : List Token}

/-- The names of the processes read so far. -/
def SystemUnit.names (unit : SystemUnit) : List String :=
  unit.models.map AbstractTIOSTS.processName

theorem putModel_names_nodup (process : AbstractTIOSTS) (distinct : unit.names.Nodup) :
    (unit.putModel process).names.Nodup := by
  rw [SystemUnit.putModel]
  split
  · have same : (unit.models.map (fun other =>
        if other.processName = process.processName then process else other)).map
          AbstractTIOSTS.processName = unit.names := by
      rw [List.map_map, SystemUnit.names]
      apply List.map_congr_left
      intro other _
      rw [Function.comp_apply]
      split
      · rename_i equal
        exact equal.symm
      · rfl
    rw [SystemUnit.names, same]
    exact distinct
  · rename_i absent
    have fresh : process.processName ∉ unit.names := by
      intro member
      obtain ⟨other, among, same⟩ := List.mem_map.mp member
      exact absent (List.any_eq_true.mpr ⟨other, among, beq_iff_eq.mpr same⟩)
    rw [SystemUnit.names, List.map_append]
    apply List.nodup_append.mpr
    refine ⟨distinct, List.pairwise_singleton _ _, ?_⟩
    intro name member other last same
    rw [List.map_singleton, List.mem_singleton] at last
    rw [same, last] at member
    exact fresh member

theorem processTransition_models {current later : AbstractTIOSTS × SystemUnit}
    (returned : processTransition current tokens = .ok (later, rest)) :
    later.2.models = current.2.models := by
  obtain ⟨⟨⟨transition, tables⟩, after⟩, read, returned⟩ := Reading.bind_eq_ok.mp returned
  cases returned
  rfl

theorem processTransitions_models {current later : AbstractTIOSTS × SystemUnit}
    {opens : Token → Bool}
    (returned : repeatRule opens processTransition current tokens = .ok (later, rest)) :
    later.2.models = current.2.models := by
  apply @repeatRule_keeps _ _ _ _ _ (fun pair => pair.2.models = current.2.models) _ _ ?_ returned
    rfl
  intro value next tokens rest read same
  exact (processTransition_models read).trans same

theorem processRule_names_nodup (returned : processRule unit tokens = .ok (next, rest))
    (distinct : unit.names.Nodup) : next.names.Nodup := by
  obtain ⟨_, _, returned⟩ := Reading.bind_eq_ok.mp returned
  obtain ⟨_, _, returned⟩ := Reading.bind_eq_ok.mp returned
  obtain ⟨_, _, returned⟩ := Reading.bind_eq_ok.mp returned
  obtain ⟨_, _, returned⟩ := Reading.bind_eq_ok.mp returned
  obtain ⟨_, _, returned⟩ := Reading.bind_eq_ok.mp returned
  obtain ⟨_, _, returned⟩ := Reading.bind_eq_ok.mp returned
  obtain ⟨_, _, returned⟩ := Reading.bind_eq_ok.mp returned
  obtain ⟨_, _, returned⟩ := Reading.bind_eq_ok.mp returned
  obtain ⟨_, _, returned⟩ := Reading.bind_eq_ok.mp returned
  obtain ⟨_, _, returned⟩ := Reading.bind_eq_ok.mp returned
  obtain ⟨⟨⟨process, later⟩, afterAll⟩, transitionsRead, returned⟩ :=
    Reading.bind_eq_ok.mp returned
  obtain ⟨actparams, _, returned⟩ := Reading.bind_eq_ok.mp returned
  cases returned
  have same : later.models = unit.models :=
    processTransitions_models transitionsRead
  apply putModel_names_nodup
  rw [SystemUnit.names, same]
  exact distinct

theorem gateRule_models (returned : gateRule unit tokens = .ok (next, rest)) :
    next.models = unit.models := by
  obtain ⟨_, _, returned⟩ := Reading.bind_eq_ok.mp returned
  obtain ⟨_, _, returned⟩ := Reading.bind_eq_ok.mp returned
  obtain ⟨_, _, returned⟩ := Reading.bind_eq_ok.mp returned
  cases returned
  rfl

theorem systemHeader_models (returned : systemHeader unit tokens = .ok (next, rest)) :
    next.models = unit.models := by
  obtain ⟨_, _, returned⟩ := Reading.bind_eq_ok.mp returned
  obtain ⟨_, _, returned⟩ := Reading.bind_eq_ok.mp returned
  obtain ⟨_, _, returned⟩ := Reading.bind_eq_ok.mp returned
  obtain ⟨_, _, returned⟩ := Reading.bind_eq_ok.mp returned
  obtain ⟨⟨clocked, afterClocks⟩, clocksRead, returned⟩ := Reading.bind_eq_ok.mp returned
  obtain ⟨_, _, repeated⟩ := Reading.bind_eq_ok.mp returned
  have gated : next.models = clocked.models := by
    apply @repeatRule_keeps _ _ _ _ _ (fun unit => unit.models = clocked.models) _ _ ?_ repeated rfl
    intro value next tokens rest read same
    exact (gateRule_models read).trans same
  have same : clocked.models = unit.models := by
    apply optionalSection_keeps SystemUnit.models ?_ clocksRead
    intro later rest read
    have keeps : ∀ (aux : Token) (unit : SystemUnit), (unit.addClock aux).models = unit.models :=
      fun _ _ => rfl
    exact identifierSection_keeps SystemUnit.models keeps read
  exact gated.trans same

theorem systemRule_names_nodup {specificationID : String}
    (accepted : systemRule specificationID tokens = .ok unit) : unit.names.Nodup := by
  obtain ⟨⟨declared, afterHeader⟩, headerRead, accepted⟩ := Reading.bind_eq_ok.mp accepted
  obtain ⟨⟨ended, rest⟩, processesRead, accepted⟩ := Reading.bind_eq_ok.mp accepted
  have blank : declared.names.Nodup := by
    rw [SystemUnit.names, systemHeader_models headerRead]
    exact List.nodup_nil
  have distinct : ended.names.Nodup :=
    @repeatRule_keeps _ _ _ _ _ (fun unit => unit.names.Nodup) _ _ processRule_names_nodup
      processesRead blank
  cases rest with
  | cons token rest => cases accepted
  | nil =>
      cases accepted
      exact distinct

end Models

section Parameters

variable {unit : SystemUnit} {process : AbstractTIOSTS} {model : TIOSTS}

theorem hasOwnParameters_iff
    (declares : declareModel unit.toTranslationUnit process = .ok model) :
    HasOwnParameters process model ↔ ∀ act ∈ process.declaredActions,
      (unit.paramTable.lookup act.identifier).getD [] ∈ process.written act.identifier := by
  rw [HasOwnParameters, (declareModel_actions declares).2, AbstractTIOSTS.declaredActions]
  constructor
  · intro own act member
    rcases List.mem_append.mp member with input | output
    · exact own _ (List.mem_append_left _ (List.mem_map_of_mem input))
    · exact own _ (List.mem_append_right _ (List.mem_map_of_mem output))
  · intro own action member
    rcases List.mem_append.mp member with input | output
    · obtain ⟨act, among, rfl⟩ := List.mem_map.mp input
      exact own act (List.mem_append_left _ among)
    · obtain ⟨act, among, rfl⟩ := List.mem_map.mp output
      exact own act (List.mem_append_right _ among)

theorem HasOwnParameters.of_alphabet {other : TIOSTS} (own : HasOwnParameters process other)
    (same : model.toAlphabet = other.toAlphabet) : HasOwnParameters process model := by
  intro action member
  rw [TIOSTS.getInputOutputActions, same] at member
  exact own action member

/-- A process is compiled with its own parameters exactly if the table holds them
for each of its actions. -/
theorem keepsParameters_iff (distinct : unit.names.Nodup) (among : process ∈ unit.models) :
    KeepsParameters unit process ↔ ∀ act ∈ process.declaredActions, ∃ parameters,
      unit.paramTable.lookup act.identifier = some parameters ∧
        parameters ∈ process.written act.identifier := by
  have declaring := declareModel_eq unit.toTranslationUnit process
  constructor
  · intro keeps act member
    obtain ⟨model, declares, own⟩ := keeps.declared
    have written := (hasOwnParameters_iff declares).mp own act member
    rw [declaring] at declares
    split at declares
    · rename_i entered
      obtain ⟨parameters, held⟩ :=
        Option.isSome_iff_exists.mp (AList.lookup_isSome.mpr (entered act member))
      rw [held] at written
      exact ⟨parameters, held, written⟩
    · cases declares
  · intro holds
    have entered : ∀ act ∈ process.inputActions ++ process.outputActions,
        act.identifier ∈ unit.paramTable := by
      intro act member
      obtain ⟨parameters, held, _⟩ := holds act member
      apply AList.lookup_isSome.mp
      rw [held]
      rfl
    rw [if_pos entered] at declaring
    have own := (hasOwnParameters_iff declaring).mpr (by
      intro act member
      obtain ⟨parameters, held, written⟩ := holds act member
      rw [held]
      exact written)
    have compiled : ∀ {model}, compileModel unit.toTranslationUnit process = .ok model →
        HasOwnParameters process model := by
      intro model returned
      obtain ⟨declared, declares, _, alphabet⟩ := compileModel_eq_ok returned
      rw [declaring] at declares
      cases declares
      exact own.of_alphabet alphabet
    refine ⟨⟨_, declaring, own⟩, compiled, ?_⟩
    intro models stored returned
    obtain ⟨model, returned, held⟩ := SynthesisUnit.init_stores distinct returned process among
    exact ⟨model, held, compiled returned⟩

end Parameters

/-- A process of an accepted text that uses each of its actions with one list keeps
these lists exactly if, for each of the actions, the last sync clause of the whole
text writes the list of the process. -/
theorem systemRule_keepsParameters_iff {specificationID : String} {tokens : List Token}
    {unit : SystemUnit} {process : AbstractTIOSTS}
    (accepted : systemRule specificationID tokens = .ok unit) (among : process ∈ unit.models)
    (consistent : process.UsesConsistently) :
    KeepsParameters unit process ↔ ∀ act ∈ process.declaredActions,
      ∀ parameters ∈ process.written act.identifier,
        lastParameters tokens act.identifier = some parameters := by
  rw [keepsParameters_iff (systemRule_names_nodup accepted) among]
  constructor
  · intro holds act member parameters writes
    obtain ⟨held, found, also⟩ := holds act member
    obtain ⟨own, _, unique⟩ := consistent act member
    rw [← systemRule_paramTable accepted, found, unique held also, unique parameters writes]
  · intro holds act member
    obtain ⟨own, writes, _⟩ := consistent act member
    refine ⟨own, ?_, writes⟩
    rw [systemRule_paramTable accepted]
    exact holds act member own writes

namespace SharedGate

def gate : Token := .identifier "Fare" (by decide)

def reply : Token := .identifier "Paid" (by decide)

def state : Token := .identifier "Ready" (by decide)

def own : Token := .identifier "price" (by decide)

def other : Token := .identifier "amount" (by decide)

/-- `from Ready sync name(parameters) to Ready;` with a direction. -/
def syncLine (name : Token) (direction : Keyword) (parameters : List Token) : List Token :=
  [.keyword .fromTk, state, .keyword .synkTk, name, .keyword direction, .keyword .openParTk] ++
    parameters ++ [.keyword .closeParTk, .keyword .toTk, state, .keyword .semicolon]

/-- The states of a process with one state. -/
def stateLines : List Token :=
  [.keyword .stateTk, .keyword .initStateTk, .keyword .colon, state, .keyword .semicolon,
    .keyword .transitionTk]

/-- The sender writes its own parameter, and the receiver behind it the given one. -/
def text (received : Token) : List Token :=
  [.keyword .systemTk, .identifier "Taxi" (by decide), .keyword .semicolon, .keyword .gateTk,
    gate, .keyword .openParTk, .keyword .intTk, .keyword .closeParTk, .keyword .semicolon,
    reply, .keyword .semicolon,
    .keyword .processTk, .identifier "Sender" (by decide), .keyword .semicolon,
    .keyword .outputActTk, gate, .keyword .semicolon] ++ stateLines ++
    syncLine gate .outActTk [own] ++
  [.keyword .processTk, .identifier "Receiver" (by decide), .keyword .semicolon,
    .keyword .inputActTk, gate, .keyword .semicolon,
    .keyword .outputActTk, reply, .keyword .semicolon] ++ stateLines ++
    syncLine gate .inActTk [received] ++ syncLine reply .outActTk []

/-- The table has the parameters of the process for each of its actions. -/
def isOwnTable (unit : SystemUnit) (process : AbstractTIOSTS) : Bool :=
  process.declaredActions.all (fun act =>
    ((unit.paramTable.lookup act.identifier).any
      (fun parameters => parameters ∈ process.written act.identifier)))

/-- The sender is consistent, and its table is its own or not. -/
def checked (owned : Bool) (unit : SystemUnit) : Bool :=
  unit.models.any (fun process => process.processName == "Sender" &&
    decide process.UsesConsistently && (isOwnTable unit process == owned))

theorem isOwnTable_iff {unit : SystemUnit} {process : AbstractTIOSTS} :
    isOwnTable unit process = true ↔ ∀ act ∈ process.declaredActions, ∃ parameters,
      unit.paramTable.lookup act.identifier = some parameters ∧
        parameters ∈ process.written act.identifier := by
  simp [isOwnTable, Option.any_eq_true]

theorem exists_sender {received : Token} {owned : Bool}
    (ran : (systemRule "Sender" (text received)).toOption.map (checked owned) = some true) :
    ∃ unit process, systemRule "Sender" (text received) = .ok unit ∧ process ∈ unit.models ∧
      process.UsesConsistently ∧ isOwnTable unit process = owned := by
  obtain ⟨unit, accepted, holds⟩ := Reading.exists_read ran
  obtain ⟨process, among, found⟩ := List.any_eq_true.mp holds
  simp only [Bool.and_eq_true, decide_eq_true_eq, beq_iff_eq] at found
  exact ⟨unit, process, accepted, among, found.1.2, found.2⟩

end SharedGate

open SharedGate in
theorem systemRule_keepsParameters_own : ∃ unit process,
    systemRule "Sender" (text own) = .ok unit ∧ process ∈ unit.models ∧
      process.UsesConsistently ∧ KeepsParameters unit process ∧
      ∀ act ∈ process.declaredActions, ∀ parameters ∈ process.written act.identifier,
        lastParameters (text own) act.identifier = some parameters := by
  have ran : (systemRule "Sender" (text own)).toOption.map (checked true) = some true := by
    decide +kernel
  obtain ⟨unit, process, accepted, among, consistent, owned⟩ := exists_sender ran
  have keeps : KeepsParameters unit process :=
    (keepsParameters_iff (systemRule_names_nodup accepted) among).mpr (isOwnTable_iff.mp owned)
  exact ⟨unit, process, accepted, among, consistent, keeps,
    (systemRule_keepsParameters_iff accepted among consistent).mp keeps⟩

open SharedGate in
/-- The sender is compiled with the parameter that the receiver writes. -/
theorem systemRule_loses_parameters :
    ¬ ∀ (specificationID : String) (tokens : List Token) (unit : SystemUnit)
      (process : AbstractTIOSTS), systemRule specificationID tokens = .ok unit →
      process ∈ unit.models → process.UsesConsistently → KeepsParameters unit process := by
  intro claimed
  have ran : (systemRule "Sender" (text other)).toOption.map (checked false) = some true := by
    decide +kernel
  obtain ⟨unit, process, accepted, among, consistent, foreign⟩ := exists_sender ran
  have keeps := claimed _ _ unit process accepted among consistent
  have owned := isOwnTable_iff.mpr
    ((keepsParameters_iff (systemRule_names_nodup accepted) among).mp keeps)
  rw [foreign] at owned
  cases owned

end Symbolrt
