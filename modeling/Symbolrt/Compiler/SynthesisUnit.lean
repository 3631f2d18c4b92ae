import Symbolrt.Compiler.Builder
import Symbolrt.Compiler.SystemRule
import Symbolrt.Lib.Loops

/-!
# Building the models of a text

The synthesis runs when the whole text is read.  The actions of a model take their
parameters from the parameter table, which is the same for all processes; a name
that is not in the table ends the synthesis.
-/

namespace Symbolrt

/-- The list may name a parameter twice: nothing is compared here. -/
def Action.addParameter (parameter : String) (action : Action) : Action :=
  { action with parameters := action.parameters ++ [parameter] }

def setClocks (tables : TranslationUnit) (model : TIOSTS) : TIOSTS :=
  tables.clocks.foldl (fun model e => model.addClock e) model

def setVariables (abstractModel : AbstractTIOSTS) (model : TIOSTS) : TIOSTS :=
  abstractModel.modelVariables.foldl (fun model e => model.addVariable ⟨e.name, e.type⟩) model

def setParameters (abstractModel : AbstractTIOSTS) (model : TIOSTS) : TIOSTS :=
  abstractModel.parameters.foldl (fun model e => model.addActionParameter ⟨e.name, e.type⟩) model

/-- A process without internal actions gets `tau`. -/
def setInternalActions (abstractModel : AbstractTIOSTS) (model : TIOSTS) : TIOSTS :=
  match abstractModel.internalActions with
  | [] => model.addAction ⟨"tau", .internal, []⟩
  | internalActions =>
      internalActions.foldl (fun model act => model.addAction ⟨act.identifier, .internal, []⟩) model

/-- A name without an entry gives a null list, which the loop over it dereferences. -/
def setActionParameters (tables : TranslationUnit) (action : Action) : Except Failure Action := do
  let params ← deref (tables.paramTable.lookup action.name)
  return params.foldl (fun action e => action.addParameter e) action

/-- The actions of one type. -/
def setActions (tables : TranslationUnit) (type : ActionType) (actions : List AbstractAction)
    (model : TIOSTS) : Except Failure TIOSTS :=
  actions.foldlM (fun model act => do
    let action ← setActionParameters tables ⟨act.identifier, type, []⟩
    return model.addAction action) model

def setInputActions (tables : TranslationUnit) (abstractModel : AbstractTIOSTS) :
    TIOSTS → Except Failure TIOSTS :=
  setActions tables .input abstractModel.inputActions

def setOutputActions (tables : TranslationUnit) (abstractModel : AbstractTIOSTS) :
    TIOSTS → Except Failure TIOSTS :=
  setActions tables .output abstractModel.outputActions

/-- Every state becomes a location. The last one marked initial is the initial location of
the model. -/
def setLocations (abstractModel : AbstractTIOSTS) (model : TIOSTS) : TIOSTS :=
  abstractModel.states.foldl (fun model e =>
    if e.isInitial then
      (model.setInitialLocation e.name).addLocation (Location.new e.name true)
    else
      model.addLocation (Location.new e.name false)) model

/-- The model of a process up to its transitions. -/
def declareModel (tables : TranslationUnit) (abstractModel : AbstractTIOSTS) :
    Except Failure TIOSTS := do
  let model := TIOSTS.new abstractModel.processName
  let model :=
    if abstractModel.isSpecification then setVariables abstractModel (setClocks tables model)
    else model
  let model := setParameters abstractModel model
  let model := setInternalActions abstractModel model
  let model ← setInputActions tables abstractModel model
  let model ← setOutputActions tables abstractModel model
  return setLocations abstractModel model

/-- The declarations first, then the transitions, which refer to them. -/
def compileModel (tables : TranslationUnit) (abstractModel : AbstractTIOSTS) :
    Except Failure TIOSTS := do
  let model ← declareModel tables abstractModel
  setTransitions abstractModel.transitions model

namespace SynthesisUnit

/-- The synthesis of all processes of a text, which stores their models by name. -/
def init (unit : SystemUnit) (models : AList (fun _ : String => TIOSTS)) :
    Except Failure (AList (fun _ : String => TIOSTS)) :=
  unit.models.foldlM (fun models absModel => do
    let model ← compileModel unit.toTranslationUnit absModel
    return models.insert model.name model) models

end SynthesisUnit

/-- The action that a declared action is compiled to. -/
def compiledAction (tables : TranslationUnit) (type : ActionType) (act : AbstractAction) :
    Action :=
  ⟨act.identifier, type, (tables.paramTable.lookup act.identifier).getD []⟩

section Actions

variable (tables : TranslationUnit)

theorem foldl_addParameter (params : List String) (action : Action) :
    params.foldl (fun action e => action.addParameter e) action =
      { action with parameters := action.parameters ++ params } := by
  induction params generalizing action with
  | nil => simp
  | cons param params induction =>
      rw [List.foldl_cons, induction]
      simp [Action.addParameter]

theorem setActionParameters_of_mem {type : ActionType} {act : AbstractAction}
    (found : act.identifier ∈ tables.paramTable) :
    setActionParameters tables ⟨act.identifier, type, []⟩ =
      .ok (compiledAction tables type act) := by
  obtain ⟨params, held⟩ := Option.isSome_iff_exists.mp (AList.lookup_isSome.mpr found)
  rw [setActionParameters, held, deref_some, ok_bind, foldl_addParameter, compiledAction, held]
  rfl

theorem setActionParameters_of_notMem {action : Action}
    (missing : action.name ∉ tables.paramTable) :
    setActionParameters tables action = .error .nullPointer := by
  rw [setActionParameters, AList.lookup_eq_none.mpr missing]
  rfl

/-- The actions of one type are added if all of them are in the table. -/
theorem setActions_eq (type : ActionType) (actions : List AbstractAction) (model : TIOSTS) :
    setActions tables type actions model =
      if ∀ act ∈ actions, act.identifier ∈ tables.paramTable then
        .ok ((actions.map (compiledAction tables type)).foldl
          (fun model action => model.addAction action) model)
      else .error .nullPointer := by
  induction actions generalizing model with
  | nil => rfl
  | cons act actions induction =>
      rw [setActions, List.foldlM_cons, List.map_cons, List.foldl_cons]
      by_cases found : act.identifier ∈ tables.paramTable
      · have unfolded : (setActionParameters tables ⟨act.identifier, type, []⟩ >>=
            fun action => pure (model.addAction action)) =
              .ok (model.addAction (compiledAction tables type act)) := by
          rw [setActionParameters_of_mem tables found]
          rfl
        rw [unfolded, ok_bind]
        refine (induction _).trans ?_
        simp only [List.forall_mem_cons, found, true_and]
      · have unfolded : (setActionParameters tables ⟨act.identifier, type, []⟩ >>=
            fun action => (pure (model.addAction action) : Except Failure TIOSTS)) =
              .error .nullPointer := by
          rw [setActionParameters_of_notMem tables found]
          rfl
        rw [unfolded, error_bind, if_neg]
        exact fun all => found (all act List.mem_cons_self)

end Actions

section Stages

variable {tables : TranslationUnit} {abstractModel : AbstractTIOSTS} {model next : TIOSTS}

/-- The name and the actions of a model. -/
def TIOSTS.signature (model : TIOSTS) : String × Alphabet := (model.name, model.toAlphabet)

theorem addLocation_signature (location : Location) :
    (model.addLocation location).signature = model.signature := by
  rw [TIOSTS.addLocation]
  split
  · rfl
  · rfl

theorem setInitialLocation_signature (label : String) :
    (model.setInitialLocation label).signature = model.signature := by
  rw [TIOSTS.signature, TIOSTS.setInitialLocation_alphabet]
  exact congrArg (fun name => (name, model.toAlphabet)) (TIOSTS.updateLocation_name model label _)

theorem foldl_signature {β : Type} {step : TIOSTS → β → TIOSTS}
    (keeps : ∀ model item, (step model item).signature = model.signature) (items : List β)
    (model : TIOSTS) : (items.foldl step model).signature = model.signature := by
  induction items generalizing model with
  | nil => rfl
  | cons item items induction =>
      rw [List.foldl_cons, induction]
      exact keeps model item

theorem setLocations_signature :
    (setLocations abstractModel model).signature = model.signature := by
  apply foldl_signature
  intro model e
  split
  · exact (addLocation_signature _).trans (setInitialLocation_signature _)
  · exact addLocation_signature _

theorem register_signature (transition : Transition) (condition : Option DataGuard) :
    ((model.setInitialCondition condition).register transition).signature = model.signature := by
  rw [TIOSTS.signature, TIOSTS.register_alphabet]
  simp [TIOSTS.signature, TIOSTS.register, TIOSTS.setInitialCondition]

theorem setTransitions_signature {transitions : List AbstractTransition}
    (returned : setTransitions transitions model = .ok next) :
    next.signature = model.signature := by
  apply Loops.foldlM_returned (fun _ current => current.signature = model.signature) returned rfl
  intro done trans rest current after _ same stepped
  obtain ⟨condition, transition, rfl, _⟩ := setTransition_registers stepped
  exact (register_signature transition condition).trans same

theorem setClocks_signature : (setClocks tables model).signature = model.signature := by
  apply foldl_signature
  exact fun model e => rfl

theorem setVariables_signature :
    (setVariables abstractModel model).signature = model.signature := by
  apply foldl_signature
  exact fun model e => rfl

theorem setParameters_signature :
    (setParameters abstractModel model).signature = model.signature := by
  apply foldl_signature
  exact fun model e => rfl

/-- The model before the actions that the tables take part in. -/
def preparedModel (tables : TranslationUnit) (abstractModel : AbstractTIOSTS) : TIOSTS :=
  let model := TIOSTS.new abstractModel.processName
  let model :=
    if abstractModel.isSpecification then setVariables abstractModel (setClocks tables model)
    else model
  setInternalActions abstractModel (setParameters abstractModel model)

/-- The internal actions of a model. -/
def compiledInternalActions (abstractModel : AbstractTIOSTS) : List Action :=
  match abstractModel.internalActions with
  | [] => [⟨"tau", .internal, []⟩]
  | internalActions => internalActions.map (fun act => ⟨act.identifier, .internal, []⟩)

theorem setInternalActions_eq (abstractModel : AbstractTIOSTS) (model : TIOSTS) :
    setInternalActions abstractModel model =
      (compiledInternalActions abstractModel).foldl (fun model action => model.addAction action)
        model := by
  rw [setInternalActions.eq_def, compiledInternalActions.eq_def]
  split
  · rfl
  · rw [List.foldl_map]

theorem foldl_addAction_actionsOf (added : List Action) (type : ActionType) :
    (added.foldl (fun model action => model.addAction action) model).actionsOf type =
      model.actionsOf type ++ added.filter (fun action => action.type = type) := by
  rw [TIOSTS.foldl_addAction]
  exact Alphabet.actionsOf_foldl added model.toAlphabet type

theorem filter_of_type {added : List Action} {own : ActionType}
    (typed : ∀ action ∈ added, action.type = own) (type : ActionType) :
    added.filter (fun action => action.type = type) = if own = type then added else [] := by
  split
  · rename_i same
    apply List.filter_eq_self.mpr
    exact fun action member => decide_eq_true ((typed action member).trans same)
  · rename_i other
    apply List.filter_eq_nil_iff.mpr
    exact fun action member same =>
      other ((typed action member).symm.trans (of_decide_eq_true same))

theorem compiledInternalActions_type (abstractModel : AbstractTIOSTS) :
    ∀ action ∈ compiledInternalActions abstractModel, action.type = .internal := by
  rw [compiledInternalActions.eq_def]
  split
  · exact fun action member => congrArg Action.type (List.mem_singleton.mp member)
  · intro action member
    obtain ⟨act, _, rfl⟩ := List.mem_map.mp member
    rfl

theorem compiledAction_type (type : ActionType) (acts : List AbstractAction) :
    ∀ action ∈ acts.map (compiledAction tables type), action.type = type := by
  intro action member
  obtain ⟨act, _, rfl⟩ := List.mem_map.mp member
  rfl

theorem preparedModel_signature :
    (preparedModel tables abstractModel).name = abstractModel.processName ∧
      ∀ type, (preparedModel tables abstractModel).actionsOf type =
        if .internal = type then compiledInternalActions abstractModel else [] := by
  let specified : TIOSTS :=
    if abstractModel.isSpecification then
      setVariables abstractModel (setClocks tables (TIOSTS.new abstractModel.processName))
    else TIOSTS.new abstractModel.processName
  have declared : (setParameters abstractModel specified).signature =
      (TIOSTS.new abstractModel.processName).signature := by
    refine setParameters_signature.trans ?_
    dsimp only [specified]
    split
    · exact setVariables_signature.trans setClocks_signature
    · rfl
  have blank : (setParameters abstractModel specified).toAlphabet = Alphabet.empty :=
    congrArg Prod.snd declared
  have whole : preparedModel tables abstractModel =
      (compiledInternalActions abstractModel).foldl (fun model action => model.addAction action)
        (setParameters abstractModel specified) := setInternalActions_eq abstractModel _
  constructor
  · rw [whole, TIOSTS.foldl_addAction]
    exact congrArg Prod.fst declared
  · intro type
    have none : (setParameters abstractModel specified).actionsOf type = [] := by
      rw [blank]
      cases type with
      | _ => rfl
    rw [whole, foldl_addAction_actionsOf, none, List.nil_append]
    exact filter_of_type (compiledInternalActions_type abstractModel) type

/-- The actions that the process is compiled to, by type. -/
def compiledActions (tables : TranslationUnit) (abstractModel : AbstractTIOSTS) :
    ActionType → List Action
  | .input => abstractModel.inputActions.map (compiledAction tables .input)
  | .output => abstractModel.outputActions.map (compiledAction tables .output)
  | .internal => compiledInternalActions abstractModel

theorem declareModel_eq (tables : TranslationUnit) (abstractModel : AbstractTIOSTS) :
    declareModel tables abstractModel =
      if ∀ act ∈ abstractModel.inputActions ++ abstractModel.outputActions,
          act.identifier ∈ tables.paramTable then
        .ok (setLocations abstractModel
          ((abstractModel.inputActions.map (compiledAction tables .input) ++
            abstractModel.outputActions.map (compiledAction tables .output)).foldl
              (fun model action => model.addAction action) (preparedModel tables abstractModel)))
      else .error .nullPointer := by
  have unfolded : declareModel tables abstractModel =
      (setActions tables .input abstractModel.inputActions
        (preparedModel tables abstractModel) >>= fun model =>
          setActions tables .output abstractModel.outputActions model >>= fun model =>
            pure (setLocations abstractModel model)) := rfl
  rw [unfolded, setActions_eq]
  simp only [List.forall_mem_append]
  by_cases inputs : ∀ act ∈ abstractModel.inputActions, act.identifier ∈ tables.paramTable
  · rw [if_pos inputs, ok_bind, setActions_eq]
    by_cases outputs : ∀ act ∈ abstractModel.outputActions, act.identifier ∈ tables.paramTable
    · rw [if_pos outputs, if_pos ⟨inputs, outputs⟩, List.foldl_append]
      rfl
    · rw [if_neg outputs, if_neg (fun both => outputs both.2)]
      rfl
  · rw [if_neg inputs, if_neg (fun both => inputs both.1)]
    rfl

/-- The name and the actions of a model that the synthesis declares. -/
theorem declareModel_signature (returned : declareModel tables abstractModel = .ok model) :
    model.name = abstractModel.processName ∧
      ∀ type, model.actionsOf type = compiledActions tables abstractModel type := by
  let added := abstractModel.inputActions.map (compiledAction tables .input) ++
    abstractModel.outputActions.map (compiledAction tables .output)
  let declared := added.foldl (fun model action => model.addAction action)
    (preparedModel tables abstractModel)
  rw [declareModel_eq] at returned
  split at returned
  · cases returned
    obtain ⟨named, prepared⟩ := @preparedModel_signature tables abstractModel
    have signature : (setLocations abstractModel declared).signature = declared.signature :=
      setLocations_signature
    have declaredName : declared.name = (preparedModel tables abstractModel).name := by
      have whole := TIOSTS.foldl_addAction added (preparedModel tables abstractModel)
      have names := congrArg TIOSTS.name whole
      exact names
    refine ⟨(congrArg Prod.fst signature).trans (declaredName.trans named), ?_⟩
    intro type
    refine (TIOSTS.actionsOf_eq_of_alphabet (congrArg Prod.snd signature) type).trans ?_
    rw [foldl_addAction_actionsOf, prepared, List.filter_append,
      filter_of_type (compiledAction_type .input _), filter_of_type (compiledAction_type .output _)]
    cases type with
    | input => exact List.append_nil _
    | output => rfl
    | internal => exact List.append_nil _
  · cases returned

theorem declareModel_actions (returned : declareModel tables abstractModel = .ok model) :
    model.name = abstractModel.processName ∧ model.getInputOutputActions =
      abstractModel.inputActions.map (compiledAction tables .input) ++
        abstractModel.outputActions.map (compiledAction tables .output) := by
  obtain ⟨named, actions⟩ := declareModel_signature returned
  have whole : model.getInputOutputActions = model.actionsOf .input ++ model.actionsOf .output :=
    rfl
  refine ⟨named, whole.trans ?_⟩
  rw [actions, actions]
  rfl

theorem compileModel_eq_ok (returned : compileModel tables abstractModel = .ok model) :
    ∃ declared, declareModel tables abstractModel = .ok declared ∧
      model.name = declared.name ∧ model.toAlphabet = declared.toAlphabet := by
  obtain ⟨declared, stepped, created⟩ := bind_eq_ok.mp returned
  have signature := setTransitions_signature created
  exact ⟨declared, stepped, congrArg Prod.fst signature, congrArg Prod.snd signature⟩

theorem compileModel_name (returned : compileModel tables abstractModel = .ok model) :
    model.name = abstractModel.processName := by
  obtain ⟨declared, declares, named, _⟩ := compileModel_eq_ok returned
  exact named.trans (declareModel_actions declares).1

end Stages

/-- When the synthesis returns, it stores the model of every process under its
name. -/
theorem SynthesisUnit.init_stores {unit : SystemUnit} {models stored : AList (fun _ => TIOSTS)}
    (distinct : (unit.models.map AbstractTIOSTS.processName).Nodup)
    (returned : SynthesisUnit.init unit models = .ok stored) :
    ∀ absModel ∈ unit.models, ∃ model, compileModel unit.toTranslationUnit absModel = .ok model ∧
      stored.lookup absModel.processName = some model := by
  apply Loops.foldlM_returned (fun done (stored : AList (fun _ : String => TIOSTS)) =>
    ∀ absModel ∈ done, ∃ model, compileModel unit.toTranslationUnit absModel = .ok model ∧
      stored.lookup absModel.processName = some model) returned
  · intro absModel member
    cases member
  · intro done process rest current next whole holds stepped absModel member
    obtain ⟨model, compiled, ended⟩ := bind_eq_ok.mp stepped
    cases ended
    have named := compileModel_name compiled
    rcases List.mem_append.mp member with earlier | last
    · obtain ⟨own, ownCompiled, held⟩ := holds absModel earlier
      refine ⟨own, ownCompiled, ?_⟩
      rw [AList.lookup_insert_ne, held]
      rw [named]
      rw [whole, List.map_append, List.map_cons] at distinct
      intro same
      apply (List.nodup_append.mp distinct).2.2 _ (List.mem_map_of_mem earlier) _
        List.mem_cons_self same
    · rw [List.mem_singleton] at last
      rw [last, ← named]
      exact ⟨model, compiled, AList.lookup_insert current⟩

end Symbolrt
