import Symbolrt.Algorithms.ProductCompatibility
import Symbolrt.Facade.GeneratedSuite
import Symbolrt.SymbolicExecution.ExecutionFailures
import Symbolrt.SymbolicExecution.WrittenModels

/-!
# Generation returns

For a specification and a test purpose that are written as the compiler writes them and meet
the assumptions of the steps, every step returns: completion finds negations of all guards,
the recursion of the product ends, all branches of the product can be computed, and the
selected test trees are translated.
-/

namespace Symbolrt

open SynchronousProduct SymbolicExecution TestCaseSelection TestTreeTransformation

/-- A step that is cut off at a bound has one value, and no bound makes it throw anything but
the cut. -/
structure EndsWith {α : Type} (step : Nat → Except Failure α) (value : α) : Prop where
  reaches : ∃ bound, step bound = .ok value
  only : ∀ bound, step bound = .ok value ∨ step bound = .error .depthExceeded

section Product

variable {spec tp initial sp : TIOSTS} {root : LocationPair}

theorem synchronousProduct_endsWith {depth : Nat} (specWellFormed : spec.WellFormed)
    (tpWellFormed : tp.WellFormed) (returned : synchronousProduct depth spec tp = .ok sp) :
    EndsWith (fun depth => synchronousProduct depth spec tp) sp := by
  refine ⟨⟨depth, returned⟩, fun bound => ?_⟩
  obtain ⟨initial, specLoc, tpLoc, final, initialized, specStart, tpStart, expands, finished⟩ :=
    synchronousProduct_inversion specWellFormed tpWellFormed returned
  have product := (initializeSyncProduct_declares initialized).isProductSetUp specWellFormed
    tpWellFormed
  have simulated : syncProduct spec tp bound specLoc tpLoc initial = _ :=
    syncProduct_build product bound ((initialLocationOf_eq_ok specWellFormed).mp specStart).2
      ((initialLocationOf_eq_ok tpWellFormed).mp tpStart).2 []
  have steps : synchronousProduct bound spec tp = built initial
      ((productSearch spec tp initial.clocks).visit bound ⟨specLoc.label, tpLoc.label⟩ []) >>=
        finish specLoc tpLoc := by
    rw [synchronousProduct, initialized, ok_bind, specStart, ok_bind, tpStart, ok_bind, simulated]
  cases visited : (productSearch spec tp initial.clocks).visit bound
      ⟨specLoc.label, tpLoc.label⟩ [] with
  | none =>
      rw [visited] at steps
      exact Or.inr steps
  | some other =>
      cases expands.unique (KeyedSearch.visit_expands visited)
      rw [visited] at steps
      exact Or.inl (steps.trans finished)

theorem build_data (initial : TIOSTS) (log : List ProductMove) :
    (build initial log).modelVariables = initial.modelVariables ∧
      (build initial log).actionParameters = initial.actionParameters := by
  induction log with
  | nil => exact ⟨rfl, rfl⟩
  | cons move log induction =>
      rw [build_cons, ProductMove.enter, TIOSTS.register_eq, TIOSTS.addLocation_eq,
        TIOSTS.addLocation_eq]
      exact induction

/-- The product has the variables of both models and the parameters of the specification. -/
theorem synchronousProduct_data {depth : Nat} (specWellFormed : spec.WellFormed)
    (tpWellFormed : tp.WellFormed) (returned : synchronousProduct depth spec tp = .ok sp) :
    sp.modelVariables = spec.modelVariables ++ tp.modelVariables ∧
      sp.actionParameters = spec.actionParameters := by
  obtain ⟨initial, specLoc, tpLoc, final, initialized, _, _, _, finished⟩ :=
    synchronousProduct_inversion specWellFormed tpWellFormed returned
  have declares := initializeSyncProduct_declares initialized
  obtain ⟨first, rest, _, rfl⟩ :=
    (finish_eq_ok (declares.isProductSetUp specWellFormed tpWellFormed)).mp finished
  obtain ⟨variables_eq, parameters_eq⟩ := build_data initial final
  rw [← declares.modelVariables, ← declares.actionParameters, ← variables_eq, ← parameters_eq,
    mirror, TIOSTS.setInitialCondition, TIOSTS.setInitialLocation_eq]
  exact ⟨rfl, rfl⟩

/-- The product is returned when no move loses its entry on a cycle and the first pair can be
left. -/
theorem exists_synchronousProduct (specWellFormed : spec.WellFormed)
    (tpWellFormed : tp.WellFormed) (accepted : initializeSyncProduct spec tp = .ok initial)
    (specInitial : spec.initialLocation = some root.specLabel)
    (tpInitial : tp.initialLocation = some root.tpLabel)
    (leaves : spec.outOf root.specLabel ≠ []) (specLabels : spec.LabelsAvoid ['_'])
    (ordinary : isSpecialLabel root.tpLabel = false)
    (acyclic : ¬ HasEvictableCycle spec tp initial.clocks root) :
    ∃ depth sp, synchronousProduct depth spec tp = .ok sp := by
  have declares := initializeSyncProduct_declares accepted
  obtain ⟨specLoc, specFound, _⟩ := specWellFormed.initial_registered specInitial
  obtain ⟨tpLoc, tpFound, _⟩ := tpWellFormed.initial_registered tpInitial
  have registered : root.IsRegistered spec tp :=
    ⟨(spec.isRegistered_iff _).mpr ⟨specLoc, specFound⟩,
      (tp.isRegistered_iff _).mpr ⟨tpLoc, tpFound⟩⟩
  obtain ⟨final, expands⟩ :=
    (syncProductEnds_iff specWellFormed tpWellFormed declares registered).mp
      (ends_of_no_cycle specWellFormed tpWellFormed declares registered acyclic)
  have leavesRoot : ∃ move ∈ final, root.label = move.source.label := by
    obtain ⟨first, rest, moves⟩ := List.exists_cons_of_ne_nil
      (movesAt_ne_nil ordinary registered.2 leaves)
    have atRoot : first ∈ movesAt spec tp root := by simp [moves]
    have locates := stampsLocate specWellFormed tpWellFormed specLabels initial.clocks
    have source := source_of_mem_movesAt specWellFormed atRoot
    rcases expands.covers_reachable locates Relation.ReflTransGen.refl first atRoot with
      taken | ⟨taken, inFinal, _, stamped⟩
    · exact ⟨first, taken, by rw [source]⟩
    · have sameSource : taken.source.label = first.source.label :=
        congrArg ProductMark.source stamped
      exact ⟨taken, inFinal, by rw [sameSource, source]⟩
  exact synchronousProduct_of_expands specWellFormed tpWellFormed accepted specInitial tpInitial
    expands leavesRoot

end Product

section Execution

variable {tools : SymbolicTools} {tiosts : TIOSTS} {location : Location}

theorem visitAll_mono {rounds more : Nat} {unvisited : List Nat}
    {zset tree : SymbolicExecutionTree}
    (returned : visitAll tools tiosts rounds unvisited zset = .ok tree) (enough : rounds ≤ more) :
    visitAll tools tiosts more unvisited zset = .ok tree := by
  induction rounds generalizing more unvisited zset with
  | zero =>
      cases unvisited with
      | nil =>
          rw [visitAll] at returned ⊢
          exact returned
      | cons currentZSES unvisited => cases returned
  | succ rounds induction =>
      cases unvisited with
      | nil =>
          rw [visitAll] at returned ⊢
          exact returned
      | cons currentZSES unvisited =>
          obtain ⟨more, rfl⟩ : ∃ less, more = less + 1 :=
            Nat.exists_eq_succ_of_ne_zero (Nat.ne_of_gt (Nat.lt_of_lt_of_le
              (Nat.succ_pos rounds) enough))
          rw [visitAll] at returned ⊢
          obtain ⟨current, found, returned⟩ := bind_eq_ok.mp returned
          obtain ⟨⟨pending, after⟩, inner, later⟩ := bind_eq_ok.mp returned
          refine bind_eq_ok.mpr ⟨current, found, bind_eq_ok.mpr ⟨(pending, after), inner, ?_⟩⟩
          exact induction later (Nat.le_of_succ_le_succ enough)

theorem execute_mono {rounds more : Nat} {tree : SymbolicExecutionTree}
    (returned : execute tools tiosts rounds = .ok tree) (enough : rounds ≤ more) :
    execute tools tiosts more = .ok tree := by
  obtain ⟨location, isInitial, ran⟩ := bind_eq_ok.mp returned
  exact bind_eq_ok.mpr ⟨location, isInitial, visitAll_mono ran enough⟩

/-- The execution of an executable model ends with one tree. -/
theorem execute_endsWith {isParameter : String → Prop} (tools : SymbolicTools)
    (wellFormed : tiosts.WellFormed) (executable : tiosts.IsExecutable isParameter)
    (isInitial : initialLocationOf tiosts = .ok location) :
    ∃ tree, EndsWith (execute tools tiosts) tree := by
  have registers := initialLocationOf_registers wellFormed isInitial
  have computable : Computable tools tiosts (initialState tools tiosts location) :=
    computable_of_executable wellFormed executable registers
  obtain ⟨rounds, tree, returned⟩ :=
    execute_returns isInitial computable (finite_runs wellFormed registers)
  refine ⟨tree, ⟨rounds, returned⟩, fun bound => ?_⟩
  cases outcome : execute tools tiosts bound with
  | ok other =>
      rcases Nat.le_total rounds bound with enough | short
      · exact Or.inl (outcome.symm.trans (execute_mono returned enough))
      · exact Or.inl ((execute_mono outcome short).symm.trans returned)
  | error failure =>
      refine Or.inr (congrArg Except.error ?_)
      by_contra notCut
      obtain ⟨choices, history, run, transition, member, failed⟩ :=
        execute_failed isInitial outcome notCut
      obtain ⟨result, computed⟩ := computable choices history run transition member
      cases failed.symm.trans computed

end Execution

theorem TIOSTS.exists_of_isInitial {model : TIOSTS} {label : String}
    (flag : model.isInitial label = true) : ∃ location, model.getLocation label = some location ∧
      location.isInitialLocation = true := by
  rw [TIOSTS.isInitial] at flag
  cases found : model.getLocation label with
  | none =>
      rw [found] at flag
      cases flag
  | some location =>
      rw [found] at flag
      exact ⟨location, rfl, flag⟩

/-- A variable of one of the models that is no action parameter. -/
def IsTarget (spec tp : TIOSTS) (name : String) : Prop :=
  name ∈ (spec.modelVariables ++ tp.modelVariables).map TypedData.name ∧
    name ∉ spec.actionParameters.map TypedData.name

instance (spec tp : TIOSTS) (name : String) : Decidable (IsTarget spec tp name) :=
  inferInstanceAs (Decidable (_ ∧ _))

/-- A specification and a test purpose that start at the pair and meet the assumptions of all
steps. -/
structure SYMBOLRT.IsInput (spec tp : TIOSTS) (root : LocationPair) : Prop where
  specWellFormed : spec.WellFormed
  tpWellFormed : tp.WellFormed
  -- where the models start
  specInitial : spec.initialLocation = some root.specLabel
  tpInitial : ∀ label, tp.isInitial label = true ↔ label = root.tpLabel
  leaves : spec.outOf root.specLabel ≠ []
  rejectsNot : root.tpLabel ≠ Constants.locationLabelReject
  acceptsNot : ¬ root.NamesAccept
  -- what their transitions, labels and clocks are told apart by
  specLabels : spec.LabelsAvoid ['_', '#']
  tpLabels : tp.LabelsAvoid ['#']
  specKeyed : spec.KeyedGuards (fun _ => True)
  tpKeyed : tp.KeyedGuards (fun _ => True)
  rejectsApart : tp.RejectsApart
  numbered : spec.NumberedClocks
  -- what the test purpose may contain
  completable : tp.IsCompletable
  duplicateFree : tp.DuplicateFree
  compatible : ∃ initial, initializeSyncProduct spec tp = .ok initial
  -- how the names and the texts are written
  names : ∀ name ∈ (spec.modelVariables ++ tp.modelVariables ++ spec.actionParameters).map
    TypedData.name, IsWord name ∧ '_' ∉ name.toList
  parameters : ∀ type, ∀ action ∈ spec.actionsOf type, ∀ parameter ∈ action.parameters,
    parameter ∈ spec.actionParameters.map TypedData.name
  specWritten : spec.IsWritten (IsTarget spec tp)
  tpWritten : tp.IsWritten (IsTarget spec tp)

namespace SYMBOLRT

section Input

variable {spec tp tpComplete sp : TIOSTS} {root : LocationPair} {order : IterationOrder}

theorem IsInput.ordinary (input : IsInput spec tp root) : isSpecialLabel root.tpLabel = false := by
  rw [isSpecialLabel, Bool.or_eq_false_iff, beq_eq_false_iff_ne, beq_eq_false_iff_ne]
  exact ⟨fun accepts => input.acceptsNot (LocationPair.namesAccept_of_accept accepts),
    input.rejectsNot⟩

/-- The completed test purpose starts where the test purpose does. -/
theorem IsInput.completeInitial (input : IsInput spec tp root)
    (completed : Completion.complete order tp = .ok tpComplete) :
    tpComplete.initialLocation = some root.tpLabel := by
  obtain ⟨copy, isCopied, grown⟩ := Completion.complete_grown input.tpWellFormed completed
  have stores : tpComplete.initialLocation = copy.initialLocation := by rw [grown.stores]
  rw [stores, isCopied.initialLocation]
  have flagged : ∀ location ∈ (tp.getLocations order).filter Location.isInitialLocation,
      location.label = root.tpLabel := by
    intro location member
    obtain ⟨listed, flag⟩ := List.mem_filter.mp member
    obtain ⟨label, found⟩ := (TIOSTS.mem_getLocations order tp).mp listed
    rw [input.tpWellFormed.label_eq found]
    exact (input.tpInitial label).mp ((Completion.isInitial_eq found).trans flag)
  obtain ⟨location, found, flag⟩ :=
    TIOSTS.exists_of_isInitial ((input.tpInitial root.tpLabel).mpr rfl)
  have member : location ∈ (tp.getLocations order).filter Location.isInitialLocation :=
    List.mem_filter.mpr ⟨(TIOSTS.mem_getLocations order tp).mpr ⟨root.tpLabel, found⟩, flag⟩
  have isLast := List.getLast?_eq_some_getLast (List.ne_nil_of_mem member)
  rw [isLast, Option.map_some, flagged _ (List.getLast_mem _)]

theorem IsInput.completeLabels (input : IsInput spec tp root)
    (completed : Completion.complete order tp = .ok tpComplete) :
    tpComplete.LabelsAvoid ['#'] := by
  obtain ⟨copy, isCopied, grown⟩ := Completion.complete_grown input.tpWellFormed completed
  intro label registered
  rw [grown.isRegistered, isCopied.isRegistered] at registered
  rcases registered with rfl | inTp
  · decide
  · exact input.tpLabels label inTp

/-- Completion does not change what the set-up of the product checks. -/
theorem IsInput.completeAccepted (input : IsInput spec tp root)
    (completed : Completion.complete order tp = .ok tpComplete) :
    (∃ initial, initializeSyncProduct spec tpComplete = .ok initial) ∧
      tpComplete.modelVariables = tp.modelVariables := by
  obtain ⟨copy, isCopied, grown⟩ := Completion.complete_grown input.tpWellFormed completed
  have modelVariables : tpComplete.modelVariables = tp.modelVariables := by
    rw [grown.stores, ← isCopied.modelVariables]
  have actionParameters : tpComplete.actionParameters = tp.actionParameters := by
    rw [grown.stores, ← isCopied.actionParameters]
  have clocks : tpComplete.clocks = tp.clocks := by
    rw [grown.stores, ← isCopied.clocks]
  have free : tpComplete.DuplicateFree := by
    refine ⟨?_, ?_, ?_⟩
    · rw [modelVariables]
      exact input.duplicateFree.modelVariables
    · rw [actionParameters]
      exact input.duplicateFree.actionParameters
    · rw [clocks]
      exact input.duplicateFree.clocks
  refine ⟨?_, modelVariables⟩
  have checked := (initializeSyncProduct_isOk_iff input.duplicateFree).mp input.compatible
  have hasVariable : ∀ name, tpComplete.HasVariable name ↔ tp.HasVariable name := by
    intro name
    rw [TIOSTS.HasVariable, TIOSTS.HasVariable, modelVariables]
  rw [initializeSyncProduct_isOk_iff free, modelVariables, actionParameters, clocks]
  simp only [hasVariable]
  exact checked

theorem IsInput.exists_product (input : IsInput spec tp root)
    (completed : Completion.complete order tp = .ok tpComplete) :
    ∃ depth sp, synchronousProduct depth spec tpComplete = .ok sp := by
  obtain ⟨⟨initial, accepted⟩, _⟩ := input.completeAccepted completed
  have completeWellFormed := complete_wellFormed input.tpWellFormed completed
  have acyclic : ¬ HasEvictableCycle spec tpComplete initial.clocks root :=
    not_hasEvictableCycle_of_keyedGuards input.specWellFormed completeWellFormed
      (initializeSyncProduct_declares accepted) input.specKeyed
      (Completion.complete_keyedGuards input.tpWellFormed input.tpKeyed input.rejectsApart
        completed)
      input.specLabels (input.completeLabels completed) input.numbered
  have joints : spec.LabelsAvoid ['_'] := fun label registered c member =>
    input.specLabels label registered c (by simp_all)
  exact exists_synchronousProduct input.specWellFormed completeWellFormed accepted
    input.specInitial (input.completeInitial completed) input.leaves joints input.ordinary acyclic

/-- All branches of the product can be computed. -/
theorem IsInput.isExecutable (input : IsInput spec tp root)
    (completed : Completion.complete order tp = .ok tpComplete) {depth : Nat}
    (composed : synchronousProduct depth spec tpComplete = .ok sp) :
    sp.IsExecutable (fun name => name ∈ spec.actionParameters.map TypedData.name) := by
  have completeWellFormed := complete_wellFormed input.tpWellFormed completed
  obtain ⟨_, sameVariables⟩ := input.completeAccepted completed
  obtain ⟨modelVariables, actionParameters⟩ :=
    synchronousProduct_data input.specWellFormed completeWellFormed composed
  rw [sameVariables] at modelVariables
  have dataNames : sp.dataNames =
      (spec.modelVariables ++ tp.modelVariables ++ spec.actionParameters).map TypedData.name := by
    rw [TIOSTS.dataNames, modelVariables, actionParameters]
  obtain ⟨_, _, _, _, run⟩ := isProductRun_of_ok input.specWellFormed completeWellFormed composed
  have written := product_isWritten run input.specWritten
    (complete_isWritten input.tpWellFormed input.tpWritten completed)
  apply Transition.IsWritten.isExecutable
  · intro label transition member
    refine (written label transition member).mono ?_
    rintro target ⟨isVariable, notParameter⟩
    refine ⟨?_, notParameter⟩
    rw [dataNames, List.map_append]
    exact List.mem_append_left _ isVariable
  · rw [dataNames]
    exact input.names
  · intro label transition member parameter listed
    have declared := run.action_mem member
    have isParameter : parameter ∈ spec.actionParameters.map TypedData.name := by
      obtain ⟨type, mirrored⟩ : ∃ type : ActionType, type.mirror = transition.action.type := by
        cases transition.action.type with
        | input => exact ⟨.output, rfl⟩
        | output => exact ⟨.input, rfl⟩
        | internal => exact ⟨.internal, rfl⟩
      rw [← mirrored, run.actionsOf] at declared
      obtain ⟨action, inSpec, same⟩ := List.mem_map.mp declared
      rw [← same, Action.mirror_parameters] at listed
      exact input.parameters type action inSpec parameter listed
    refine ⟨isParameter, ?_⟩
    rw [dataNames, List.map_append]
    exact List.mem_append_right _ isParameter

end Input

/-- What each step of the generation ends with. -/
structure StepsEnd (tools : SymbolicTools) (order : IterationOrder) (spec tp tpComplete sp : TIOSTS)
    (zset : SymbolicExecutionTree) (testCases : List TIOSTS) : Prop where
  completed : Completion.complete order tp = .ok tpComplete
  products : EndsWith (fun depth => synchronousProduct depth spec tpComplete) sp
  executions : EndsWith (execute tools sp) zset
  translated : (do
    let testTrees ← selectAllTestCases zset
    testTrees.mapM (fun testTree => translateTestTree order testTree sp)) = .ok testCases

/-- Whatever a step throws on the way is the cut. -/
theorem StepsEnd.generates {tools : SymbolicTools} {order : IterationOrder}
    {spec tp tpComplete sp : TIOSTS} {zset : SymbolicExecutionTree} {testCases : List TIOSTS}
    (steps : StepsEnd tools order spec tp tpComplete sp zset testCases) :
    (∃ depth rounds, generateTestCases tools order depth rounds spec tp = .ok testCases) ∧
      ∀ depth rounds, generateTestCases tools order depth rounds spec tp = .ok testCases ∨
        generateTestCases tools order depth rounds spec tp = .error .depthExceeded := by
  have generated : ∀ {depth rounds}, synchronousProduct depth spec tpComplete = .ok sp →
      execute tools sp rounds = .ok zset →
        generateTestCases tools order depth rounds spec tp = .ok testCases := by
    intro depth rounds composed executed
    rw [generateTestCases_eq steps.completed composed executed]
    exact steps.translated
  constructor
  · obtain ⟨depth, composed⟩ := steps.products.reaches
    obtain ⟨rounds, executed⟩ := steps.executions.reaches
    exact ⟨depth, rounds, generated composed executed⟩
  · intro depth rounds
    rcases steps.products.only depth with composed | cut
    · rcases steps.executions.only rounds with executed | cut
      · exact Or.inl (generated composed executed)
      · refine Or.inr ?_
        rw [generateTestCases, steps.completed]
        simp only [printing, ok_bind, deref_some] at composed ⊢
        rw [composed]
        simp only [ok_bind, deref_some, cut]
        rfl
    · refine Or.inr ?_
      rw [generateTestCases, steps.completed]
      simp only [printing, ok_bind, deref_some] at cut ⊢
      rw [cut]
      rfl

theorem IsInput.exists_steps {spec tp : TIOSTS} {root : LocationPair}
    (input : IsInput spec tp root) (tools : SymbolicTools) (order : IterationOrder) :
    ∃ tpComplete sp zset testCases,
      StepsEnd tools order spec tp tpComplete sp zset testCases := by
  obtain ⟨tpComplete, completed, _⟩ :=
    Completion.exists_complete order input.tpWellFormed input.completable
  have completeWellFormed := complete_wellFormed input.tpWellFormed completed
  obtain ⟨depth, sp, composed⟩ := input.exists_product completed
  have products := synchronousProduct_endsWith input.specWellFormed completeWellFormed composed
  obtain ⟨_, productRoot, _, _, run⟩ :=
    isProductRun_of_ok input.specWellFormed completeWellFormed composed
  have sameRoot : productRoot = root :=
    run.root_eq input.specInitial (input.completeInitial completed)
  obtain ⟨location, found, _⟩ := run.wellFormed.initial_registered run.initialLocation
  have label := run.wellFormed.label_eq found
  have isInitial : initialLocationOf sp = .ok location := by
    rw [initialLocationOf_eq_ok run.wellFormed, label]
    exact ⟨run.initialLocation, found⟩
  have rejects : (initialState tools sp location).isAcceptZSES = false := by
    rw [Bool.eq_false_iff]
    intro accepts
    apply input.acceptsNot
    rw [← sameRoot, ← LocationPair.contains_label_iff, ← label]
    exact accepts
  obtain ⟨zset, executions⟩ := execute_endsWith tools run.wellFormed
    (input.isExecutable completed composed) isInitial
  obtain ⟨rounds, executed⟩ := executions.reaches
  obtain ⟨_, testCases, returned, _⟩ := exists_suite input.specWellFormed completeWellFormed
    composed executed isInitial rejects order
  exact ⟨tpComplete, sp, zset, testCases, completed, products, executions, returned⟩

/-- For every input generation ends with the same test cases, whatever the tools answer; cut
off too early, it throws nothing but the cut. -/
theorem generateTestCases_returns {spec tp : TIOSTS} {root : LocationPair}
    (input : IsInput spec tp root) (tools : SymbolicTools) (order : IterationOrder) :
    ∃ testCases, (∃ depth rounds,
        generateTestCases tools order depth rounds spec tp = .ok testCases) ∧
      ∀ depth rounds, generateTestCases tools order depth rounds spec tp = .ok testCases ∨
        generateTestCases tools order depth rounds spec tp = .error .depthExceeded := by
  obtain ⟨_, _, _, testCases, steps⟩ := input.exists_steps tools order
  exact ⟨testCases, steps.generates⟩

end SYMBOLRT

namespace FareInstance

open AcceptInstance (enter)

def pay : Action := ⟨"pay", .output, ["p"]⟩

theorem isIdentifier_total : isIdentifier "total" = true := by decide

theorem isIdentifier_p : isIdentifier "p" = true := by decide

/-- `total := p` -/
def added : AbstractExpression :=
  ⟨[.identifier "total" isIdentifier_total, .keyword .assignment,
    .identifier "p" isIdentifier_p], false⟩

/-- `x := 0` -/
def reset : AbstractExpression :=
  ⟨[.identifier "x" isIdentifier_x, .keyword .assignment, .integer "0" isNumeral_zero], true⟩

def specTransitions : List Transition :=
  [{ Transition.bare "Start" enter "Ready" with
      clockAssignments := transformAssignment (some [reset]) },
    { Transition.bare "Ready" pay "Ready" with
      dataGuard := .written "p > 0"
      clockGuard := ⟨[⟨1, "x", .gt, "5", isName_x, isNumeral_five⟩]⟩
      dataAssignments := transformAssignment (some [added]) }]

def specDeclared : TIOSTS :=
  .declare "S" [enter, pay] [⟨"total", .integer⟩] [⟨"p", .integer⟩] ["x"]

/-- A fare is paid again and again, and added up. -/
def spec : TIOSTS := .assemble specDeclared ["Start", "Ready"] "Start" specTransitions

def tpTransitions : List Transition :=
  [{ Transition.bare "Begin" enter "Wait" with dataGuard := .constantTrue },
    { Transition.bare "Wait" pay "Accept" with dataGuard := .written "total > 3" },
    .bare "Wait" pay "Wait"]

def tpDeclared : TIOSTS := .declare "T" [enter, pay] [] [⟨"p", .integer⟩] []

/-- Waits until more than three is paid in. -/
def tp : TIOSTS := .assemble tpDeclared ["Begin", "Wait", "Accept"] "Begin" tpTransitions

theorem specBlank : specDeclared.IsBlank := TIOSTS.declare_isBlank _ _ _ _ _

theorem tpBlank : tpDeclared.IsBlank := TIOSTS.declare_isBlank _ _ _ _ _

theorem specUses : specDeclared.Uses ["Start", "Ready"] "Start" specTransitions := by decide

theorem tpUses : tpDeclared.Uses ["Begin", "Wait", "Accept"] "Begin" tpTransitions := by decide

theorem added_assigns : added.Assigns (IsTarget spec tp) where
  isAssignment := ⟨⟨"total", _, _, rfl, by decide, by decide, by decide⟩⟩
  target := by decide
  rightHandSide := by decide

theorem reset_isAssignment : reset.IsAssignment :=
  ⟨⟨"x", _, _, rfl, by decide, by decide, by decide⟩⟩

theorem spec_isWritten : ∀ transition ∈ specTransitions,
    transition.IsWritten (IsTarget spec tp) := by
  intro transition member
  rcases List.mem_pair.mp member with rfl | rfl
  · refine ⟨by decide, ⟨[], .none, fun _ none => nomatch none⟩, [reset], ?_, ?_⟩
    · exact transformAssignment_holds (List.forall_mem_singleton.mpr reset_isAssignment)
    · exact List.forall_mem_singleton.mpr reset_isAssignment
  · refine ⟨by decide, ⟨[added], ?_, ?_⟩, [], .none, fun _ none => nomatch none⟩
    · exact transformAssignment_holds (List.forall_mem_singleton.mpr added_assigns.isAssignment)
    · exact List.forall_mem_singleton.mpr added_assigns

theorem isInput : SYMBOLRT.IsInput spec tp ⟨"Start", "Begin"⟩ := by
  have specUnique : spec.UniqueTransitions :=
    TIOSTS.assemble_uniqueTransitions specBlank specUses (by decide)
  have tpUnique : tp.UniqueTransitions :=
    TIOSTS.assemble_uniqueTransitions tpBlank tpUses (by decide)
  have ofSpec : ∀ {label transition}, transition ∈ spec.outOf label →
      transition ∈ specTransitions := by
    intro label transition member
    rw [spec, TIOSTS.assemble_outOf specBlank specUses] at member
    exact (List.mem_filter.mp member).1
  have ofTp : ∀ {label transition}, transition ∈ tp.outOf label →
      transition ∈ tpTransitions := by
    intro label transition member
    rw [tp, TIOSTS.assemble_outOf tpBlank tpUses] at member
    exact (List.mem_filter.mp member).1
  have neverRejects : ∀ transition ∈ tpTransitions,
      transition.target ≠ Constants.locationLabelReject := by decide
  have completable : ∀ transition ∈ tpTransitions,
      (transition.dataGuard.text = Constants.guardTrue ∨
        transition.clockGuard = ClockGuard.empty) ∧
      transition.clockGuard.clockGuard.length ≤ 1 ∧
      (∀ simple ∈ transition.clockGuard.clockGuard, simple.relation.IsNegatable) ∧
      Formula.BalancedText transition.dataGuard.text := by decide
  have bare : ∀ transition ∈ tpTransitions, '_' ∉ transition.dataGuard.text.toList ∧
      transition.dataAssignments = none ∧ transition.clockAssignments = none := by decide
  constructor
  · exact TIOSTS.assemble_wellFormed specBlank specUses
  · exact TIOSTS.assemble_wellFormed tpBlank tpUses
  · exact TIOSTS.assemble_initialLocation
  · intro label
    constructor
    · intro flag
      have registered : tp.IsRegistered label := by
        rw [TIOSTS.isRegistered_iff]
        obtain ⟨location, found, _⟩ := TIOSTS.exists_of_isInitial flag
        exact ⟨location, found⟩
      rw [tp, TIOSTS.assemble_isRegistered tpBlank] at registered
      have each : ∀ label ∈ ["Begin", "Wait", "Accept"], tp.isInitial label = true →
          label = "Begin" := by decide
      exact each label registered flag
    · rintro rfl
      decide
  · rw [spec, TIOSTS.assemble_outOf specBlank specUses]
    decide
  · decide
  · decide
  · exact TIOSTS.assemble_labelsAvoid specBlank (by decide)
  · exact TIOSTS.assemble_labelsAvoid tpBlank (by decide)
  · exact specUnique.keyedGuards _
  · exact tpUnique.keyedGuards _
  · intro label transition member other otherMember rejects _
    exact absurd rejects (neverRejects transition (ofTp member))
  · exact TIOSTS.assemble_numberedClocks specBlank specUses (by decide)
  · intro label transition member
    obtain ⟨oneTrue, oneConstraint, negatable, balanced⟩ := completable transition (ofTp member)
    exact ⟨oneTrue, oneConstraint, negatable, balanced⟩
  · decide
  · exact exists_ok (by decide)
  · decide
  · intro type
    cases type with
    | _ => decide
  · exact fun label transition member => spec_isWritten transition (ofSpec member)
  · intro label transition member
    obtain ⟨dataGuard, dataAssignments, clockAssignments⟩ := bare transition (ofTp member)
    exact .bare dataGuard dataAssignments clockAssignments

end FareInstance

open FareInstance in
theorem SYMBOLRT.generateTestCases_returns_fare : ∃ testCases, (∃ depth rounds,
      generateTestCases LoopInstance.tools GenerationInstance.order depth rounds spec tp =
        .ok testCases) ∧
    ∀ depth rounds,
      generateTestCases LoopInstance.tools GenerationInstance.order depth rounds spec tp =
        .ok testCases ∨
      generateTestCases LoopInstance.tools GenerationInstance.order depth rounds spec tp =
        .error .depthExceeded :=
  SYMBOLRT.generateTestCases_returns isInput _ _

end Symbolrt
