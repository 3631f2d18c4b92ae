import Symbolrt.Algorithms.ProductCorrectness
import Symbolrt.Base.Walks
import Symbolrt.Facade.TestCaseGeneration

/-!
# Test cases refine the specification

A label of a test case begins with a label of the specification: the one that the product
has joined with a label of the test purpose.  Every transition of a test case comes from a
transition of the specification between these labels, with inputs and outputs exchanged.
So every walk through a test case is a walk through the specification.
-/

namespace Symbolrt

open SynchronousProduct SymbolicExecution TestCaseSelection TestTreeTransformation

/-- The text before the first separator. -/
def specPart (label : String) : String :=
  String.ofList (label.toList.takeWhile (fun c => c != '_'))

theorem specPart_eq {label specLabel : String} {rest : List Char}
    (avoids : '_' ∉ specLabel.toList) (whole : label.toList = specLabel.toList ++ '_' :: rest) :
    specPart label = specLabel := by
  rw [specPart, whole, List.takeWhile_append_of_pos, List.takeWhile_cons_of_neg (by decide),
    List.append_nil, String.ofList_toList]
  intro c member
  exact bne_iff_ne.mpr (fun isSeparator => avoids (isSeparator ▸ member))

theorem specPart_pairLabel {specLabel : String} (avoids : '_' ∉ specLabel.toList)
    (tpLabel : String) : specPart (pairLabel specLabel tpLabel) = specLabel :=
  specPart_eq avoids (pairLabel_toList specLabel tpLabel)

/-- A word at the end is not behind the last occurrence that is found. -/
theorem le_lastIndexOf {text word : String} {position start : Nat}
    (found : Text.lastIndexOf text word = some position)
    (inside : start ≤ text.toList.length) (occurs : word.toList <+: text.toList.drop start) :
    start ≤ position := by
  rw [Text.lastIndexOf, List.find?_eq_some_iff_append] at found
  obtain ⟨_, later, earlier, split, none⟩ := found
  have member : start ∈ (List.range (text.toList.length + 1)).reverse := by
    rw [List.mem_reverse, List.mem_range]
    omega
  rw [split] at member
  rcases List.mem_append.mp member with inLater | atEnd
  · have isThere := none start inLater
    rw [List.isPrefixOf_iff_prefix.mpr occurs] at isThere
    cases isThere
  · rcases List.mem_cons.mp atEnd with rfl | inEarlier
    · exact Nat.le_refl _
    · have sorted : ((List.range (text.toList.length + 1)).reverse).Pairwise (· > ·) :=
        List.pairwise_reverse.mpr List.pairwise_lt_range
      rw [split, List.pairwise_append] at sorted
      exact Nat.le_of_lt ((List.pairwise_cons.mp sorted.2.1).1 start inEarlier)

/-- A special label at the end stands behind the separator, so cutting it off leaves the
label of the specification. -/
theorem cutLabel_toList {label word cut specLabel : String} {rest : List Char}
    (whole : label.toList = specLabel.toList ++ '_' :: rest) (avoids : '_' ∉ word.toList)
    (ends : Text.endsWith label word = true) (isCut : cutLabel label word = .ok cut) :
    ∃ count, cut.toList = specLabel.toList ++ ('_' :: rest).take count := by
  obtain ⟨before, split⟩ := List.isSuffixOf_iff_suffix.mp ends
  have behind : specLabel.toList.length < before.length := by
    by_contra notBehind
    -- otherwise the separator would stand inside the word
    have dropped : word.toList = (label.toList).drop before.length := by
      rw [← split, List.drop_left]
    rw [whole, List.drop_append_of_le_length (by omega)] at dropped
    apply avoids
    rw [dropped]
    exact List.mem_append_right _ List.mem_cons_self
  cases found : Text.lastIndexOf label word with
  | none =>
      rw [cutLabel, found] at isCut
      cases isCut
  | some index =>
      have length := congrArg List.length split
      rw [List.length_append] at length
      have occurs : word.toList <+: label.toList.drop before.length := by
        rw [← split, List.drop_left]
      have last := le_lastIndexOf found (by omega) occurs
      cases index with
      | zero => omega
      | succ position =>
          rw [cutLabel, found] at isCut
          cases isCut
          refine ⟨position - specLabel.toList.length, ?_⟩
          rw [Text.takePrefix, String.toList_ofList, whole, List.take_append,
            List.take_of_length_le (by omega)]

/-- An inconclusive label begins with the label of the specification. -/
theorem createInconclusiveLocation_toList {location created : Location} {specLabel : String}
    {rest : List Char} (whole : location.label.toList = specLabel.toList ++ '_' :: rest)
    (isCreated : createInconclusiveLocation location = .ok created) :
    ∃ others, created.label.toList = specLabel.toList ++ '_' :: others := by
  obtain ⟨newLabel, shortened, returned⟩ := bind_eq_ok.mp isCreated
  have shape : ∃ count, newLabel.toList = specLabel.toList ++ ('_' :: rest).take count := by
    unfold shortenLabel at shortened
    split at shortened
    · rename_i rejects
      exact cutLabel_toList whole (by decide) rejects shortened
    · split at shortened
      · rename_i accepts
        exact cutLabel_toList whole (by decide) accepts shortened
      · cases shortened
        exact ⟨rest.length + 1, by rw [List.take_of_length_le (by simp), whole]⟩
  obtain ⟨count, shape⟩ := shape
  cases returned
  have label : (newLabel ++ "_" ++ Constants.verdictInconclusive).toList =
      newLabel.toList ++ '_' :: Constants.verdictInconclusive.toList := by
    simp
  cases count with
  | zero =>
      refine ⟨Constants.verdictInconclusive.toList, ?_⟩
      rw [Location.new, label, shape, List.take_zero, List.append_nil]
  | succ count =>
      refine ⟨rest.take count ++ '_' :: Constants.verdictInconclusive.toList, ?_⟩
      rw [Location.new, label, shape, List.take_succ_cons, List.append_assoc]
      rfl

/-- What a transition of the product takes over from one of the specification. -/
structure TakesOver (spec : TIOSTS) (transition specTransition : Transition) : Prop where
  name : transition.action.name = specTransition.action.name
  type : transition.action.type = specTransition.action.type.mirror
  parameters : ∃ declared, spec.getAction specTransition.action.type specTransition.action.name =
    some declared ∧ transition.action.parameters.length = declared.parameters.length
  clockGuard : ∀ clocks, transition.clockGuard.holds clocks → specTransition.clockGuard.holds clocks
  clockAssignments : ∃ others, transition.clockAssignments =
    createAssignments specTransition.clockAssignments others
  deadline : transition.deadline = specTransition.deadline

/-- The text of a guard with symbolic values put in for the names. -/
def instantiate (symbolicValues : SymbolicMapping) (guard : DataGuard) : String :=
  if guard.text = Constants.guardTrue then guard.text
  else updateExpression guard.text symbolicValues

/-- A transition of a test case mirrors one of the specification between the locations that
its ends stand for: its data guard conjoins the instantiated guard of the specification, and
that of the test purpose, to the path condition before it. -/
structure Mirrors (spec : TIOSTS) (transition specTransition : Transition) : Prop
    extends TakesOver spec transition specTransition where
  source : specPart transition.source = specTransition.source
  target : specPart transition.target = specTransition.target
  dataGuard : ∃ condition symbolicValues tpGuard, transition.dataGuard.text =
    createNextPathCondition condition
      (instantiate symbolicValues (createDataGuard specTransition.dataGuard tpGuard))

/-- A transition that mirrors one of the specification takes a step from a state of the
execution tree at its source: its parameters are the new symbols, and its data guard conjoins
the guards, seen with these symbols, to the path condition of the state. -/
structure MirrorsIn (zset : SymbolicExecutionTree) (spec : TIOSTS)
    (transition specTransition : Transition) : Prop
    extends TakesOver spec transition specTransition where
  source : specPart transition.source = specTransition.source
  target : specPart transition.target = specTransition.target
  executed : ∃ reference state declared update tpGuard,
    zset.getState reference = some state ∧ state.location.label = transition.source ∧
      spec.getAction specTransition.action.type specTransition.action.name = some declared ∧
      declared.parameters.foldlM updateParameter ⟨[], ∅, state.mapping⟩ = .ok update ∧
      transition.action.parameters = update.paramIds ∧
      transition.dataGuard.text = createNextPathCondition state.pathCondition
        (instantiate update.nextSymbolicValues
          (createDataGuard specTransition.dataGuard tpGuard))

theorem MirrorsIn.mirrors {zset : SymbolicExecutionTree} {spec : TIOSTS}
    {transition specTransition : Transition}
    (mirrorsIn : MirrorsIn zset spec transition specTransition) :
    Mirrors spec transition specTransition := by
  obtain ⟨_, state, _, update, tpGuard, _, _, _, _, _, dataGuard⟩ := mirrorsIn.executed
  exact ⟨mirrorsIn.toTakesOver, mirrorsIn.source, mirrorsIn.target,
    state.pathCondition, update.nextSymbolicValues, tpGuard, dataGuard⟩

section Product

variable {spec tp sp : TIOSTS}

theorem clockGuard_of_created {clocks : List String} {move : ProductMove} {values : String → ℝ}
    (holds : (move.createdClockGuard clocks).holds values) :
    move.specTransition.clockGuard.holds values := by
  unfold ProductMove.createdClockGuard at holds
  split at holds
  · exact (ClockGuard.holds_renumber _ _ _).mp holds
  · exact fun simple member => holds simple (List.mem_append_left _ member)

theorem clockAssignments_eq (move : ProductMove) :
    ∃ others, move.clockAssignments =
      createAssignments move.specTransition.clockAssignments others := by
  unfold ProductMove.clockAssignments
  cases move.tpTransition with
  | none => exact ⟨none, by cases move.specTransition.clockAssignments <;> rfl⟩
  | some tpTransition => exact ⟨_, rfl⟩

theorem dataGuard_eq (move : ProductMove) :
    ∃ tpGuard, move.dataGuard = createDataGuard move.specTransition.dataGuard tpGuard := by
  unfold ProductMove.dataGuard
  cases move.tpTransition with
  | none => exact ⟨.constantTrue, (if_pos rfl).symm⟩
  | some tpTransition => exact ⟨_, rfl⟩

/-- A transition of the product takes over one of the specification, between the parts of its
labels that belong to the specification. -/
theorem exists_mirrored {depth : Nat} (specWellFormed : spec.WellFormed)
    (tpWellFormed : tp.WellFormed) (returned : synchronousProduct depth spec tp = .ok sp)
    {label : String} {transition : Transition} (member : transition ∈ sp.outOf label) :
    ∃ specTransition ∈ spec.outOf specTransition.source,
      (∃ tpLabel, label = pairLabel specTransition.source tpLabel) ∧
      (∃ tpLabel, transition.target = pairLabel specTransition.target tpLabel) ∧
      (∃ tpGuard, transition.dataGuard = createDataGuard specTransition.dataGuard tpGuard) ∧
      (∃ declared, spec.getAction specTransition.action.type specTransition.action.name =
        some declared ∧ transition.action.parameters = declared.parameters) ∧
      TakesOver spec transition specTransition := by
  obtain ⟨initial, root, final, _, run⟩ :=
    isProductRun_of_ok specWellFormed tpWellFormed returned
  rw [run.outOf] at member
  obtain ⟨move, listed, rfl⟩ := List.mem_map.mp member
  obtain ⟨inFinal, isSource⟩ := List.mem_filter.mp listed
  obtain ⟨node, _, atNode⟩ := run.expands.sound_root move (List.mem_reverse.mp inFinal)
  obtain ⟨_, inOut, tpLabel, choice⟩ := mem_movesAt spec tp atNode
  have product := run.declares.isProductSetUp specWellFormed tpWellFormed
  have declared := actionIn_eq product move inOut
  obtain ⟨_, type, name⟩ := TIOSTS.getAction_eq_some declared
  have source := specWellFormed.source_eq inOut
  rw [product.declares] at declared
  refine ⟨move.specTransition, source ▸ inOut, ⟨move.tpLabel, of_decide_eq_true isSource⟩, ?_,
    dataGuard_eq move, ⟨_, declared, Action.mirror_parameters _⟩, ?_⟩
  · rcases choice with ⟨alone, _⟩ | ⟨tpTransition, _, together, _⟩
    · refine ⟨move.tpLabel, ?_⟩
      simp only [Transition.mirror, ProductMove.transition, ProductMove.target, alone]
      rfl
    · refine ⟨tpTransition.target, ?_⟩
      simp only [Transition.mirror, ProductMove.transition, ProductMove.target, together]
      rfl
  · refine ⟨(Action.mirror_name _).trans name, (Action.mirror_type _).trans
      (congrArg ActionType.mirror type), ?_, ?_, clockAssignments_eq move, rfl⟩
    · exact ⟨_, declared, congrArg List.length (Action.mirror_parameters _)⟩
    · exact fun clocks holds => clockGuard_of_created holds

end Product

section Trees

variable {tools : SymbolicTools} {tiosts : TIOSTS} {root : SymbolicState}
  {zset testTree : SymbolicExecutionTree} {trace : Nat → Trace}

theorem updateParameters_length {parameters : List String} {update result : ParameterUpdate}
    (updated : parameters.foldlM updateParameter update = .ok result) :
    result.paramIds.length = update.paramIds.length + parameters.length := by
  refine Loops.foldlM_returned (fun done (state : ParameterUpdate) =>
    state.paramIds.length = update.paramIds.length + done.length) updated rfl ?_
  intro done parameter rest state next _ count stepped
  obtain ⟨_, _, stepped⟩ := bind_eq_ok.mp stepped
  obtain ⟨newParamId, _, returned⟩ := bind_eq_ok.mp stepped
  cases returned
  simp only [List.length_append, List.length_singleton]
  omega

theorem nextZSES_written {current next : SymbolicState} {transition : Transition}
    {symbolicAction : SymbolicAction}
    (stepped : nextZSES tools tiosts current transition = .ok (symbolicAction, next)) :
    ∃ update, transition.action.parameters.foldlM updateParameter ⟨[], ∅, current.mapping⟩ =
        .ok update ∧
      symbolicAction.paramIds = update.paramIds ∧
      next.pathCondition = createNextPathCondition current.pathCondition
        (instantiate update.nextSymbolicValues transition.dataGuard) := by
  obtain ⟨update, updated, stepped⟩ := bind_eq_ok.mp stepped
  obtain ⟨_, _, stepped⟩ := bind_eq_ok.mp stepped
  obtain ⟨_, _, stepped⟩ := bind_eq_ok.mp stepped
  obtain ⟨_, _, stepped⟩ := bind_eq_ok.mp stepped
  obtain ⟨isAction, isNext⟩ := Prod.mk.inj (Except.ok.inj stepped)
  refine ⟨update, updated, ?_, ?_⟩
  · rw [← isAction]
  · rw [← isNext]
    rfl

/-- A child transition is the step that one transition of the model takes. -/
theorem SymbolicExecution.IsExecutionTree.child_origin
    (isTree : IsExecutionTree tools tiosts root zset trace)
    {source : Nat} {node : SymbolicNode} (found : zset.getNode source = some node)
    {symbolicTransition : SymbolicTransition}
    (member : symbolicTransition ∈ node.childrenTransitions) :
    ∃ choice target transition, zset.getNode symbolicTransition.targetZSES = some target ∧
      (trace symbolicTransition.targetZSES).choices = (trace source).choices ++ [choice] ∧
      node.state.location.outTransitions[choice]? = some transition ∧
      nextZSES tools tiosts node.state transition =
        .ok (symbolicTransition.symbolicAction, target.state) ∧
      symbolicTransition.clockGuard = transition.clockGuard ∧
      symbolicTransition.clockAssignments = transition.clockAssignments ∧
      symbolicTransition.deadline = transition.deadline := by
  obtain ⟨choice, branch, chosen, choices, isBranch⟩ := Traced.choices_child isTree found member
  obtain ⟨above, history⟩ := isTree.head found
  rw [history] at chosen
  obtain ⟨transition, listed, stepped, _, _, guard, assignments, deadline⟩ := choose_eq_some chosen
  obtain ⟨state, targetState, rfl⟩ := Option.map_eq_some_iff.mp isBranch
  obtain ⟨target, targetFound, rfl⟩ := Option.map_eq_some_iff.mp targetState
  exact ⟨choice, target, transition, targetFound, choices, listed, stepped, guard, assignments,
    deadline⟩

/-- The copied state is the state itself, or the state at an inconclusive location. -/
def StandsFor (state copied : SymbolicState) : Prop :=
  copied = state ∨ ∃ created, createInconclusiveLocation state.location = .ok created ∧
    copied = { state with location := created }

theorem StandsFor.pathCondition {state copied : SymbolicState}
    (standsFor : StandsFor state copied) : copied.pathCondition = state.pathCondition := by
  rcases standsFor with rfl | ⟨created, _, rfl⟩ <;> rfl

/-- Every edge of a test tree copies a transition of the full tree, from a state with the
same label to one that stands for the target. -/
theorem CopiesPath.origins {acceptZSES reference copy : Nat}
    {parent : Option SymbolicTransition} {path : List SymbolicTransition} {references : List Nat}
    (copies : CopiesPath zset testTree acceptZSES (inputsBeside zset) reference parent copy path
      references) :
    ∀ edge ∈ testTree.edgesAt references, ∃ source node original,
      zset.getNode source = some node ∧ original ∈ node.childrenTransitions ∧
        edge.IsCopyOf original ∧ testTree.labelOf edge.sourceZSES = node.state.location.label ∧
        ∀ target, zset.getState original.targetZSES = some target →
          ∃ copied, testTree.getState edge.targetZSES = some copied ∧ StandsFor target copied := by
  induction copies with
  | accept _ copyFound =>
      intro edge member
      rw [SymbolicExecutionTree.edgesAt, List.flatMap_singleton, childrenAt_eq copyFound] at member
      cases member
  | step found taken copyFound isCopyOf source areLeafEdges below induction =>
      intro edge member
      rw [edgesAt_step copyFound (areLeaves_of_forall₂ areLeafEdges)] at member
      have label := labelOf_eq copyFound
      rcases List.mem_append.mp member with here | later
      · rcases List.mem_cons.mp here with rfl | among
        · refine ⟨_, _, _, found, taken, isCopyOf, ?_, ?_⟩
          · rw [source, label]
          · intro target targetFound
            exact ⟨target, below.copy_state.trans targetFound, Or.inl rfl⟩
        · obtain ⟨input, isInput, isLeaf⟩ := InStep.exists_left areLeafEdges among
          have isChild := List.mem_of_mem_filter (List.mem_of_mem_filter isInput)
          refine ⟨_, _, input, found, isChild, isLeaf.isCopyOf, ?_, ?_⟩
          · rw [isLeaf.sourceZSES, label]
          · intro target targetFound
            obtain ⟨state, created, stateFound, isCreated, leafFound⟩ := isLeaf.target
            cases targetFound.symm.trans stateFound
            exact ⟨_, congrArg (Option.map SymbolicNode.state) leafFound,
              Or.inr ⟨created, isCreated, rfl⟩⟩
      · exact induction edge later

end Trees

section Walks

variable {tools : SymbolicTools} {order : IterationOrder} {depth rounds : Nat}
  {spec tp sp testCase : TIOSTS} {zset testTree : SymbolicExecutionTree}
  {testTrees : List SymbolicExecutionTree}

theorem specPart_of_standsFor {state copied : SymbolicState} {specLabel tpLabel : String}
    (avoids : '_' ∉ specLabel.toList)
    (isPair : state.location.label = pairLabel specLabel tpLabel)
    (standsFor : StandsFor state copied) : specPart copied.location.label = specLabel := by
  have whole : state.location.label.toList = specLabel.toList ++ '_' :: tpLabel.toList := by
    rw [isPair, pairLabel_toList]
  rcases standsFor with rfl | ⟨created, isCreated, rfl⟩
  · exact specPart_eq avoids whole
  · obtain ⟨others, shape⟩ := createInconclusiveLocation_toList whole isCreated
    exact specPart_eq avoids shape

/-- The specification simulates a translated test tree. -/
theorem isSimulation_of_translated (specWellFormed : spec.WellFormed)
    (tpWellFormed : tp.WellFormed) (specLabels : spec.LabelsAvoid ['_'])
    (composed : synchronousProduct depth spec tp = .ok sp)
    (executed : execute tools sp rounds = .ok zset)
    {acceptZSES reference copy : Nat} {parent : Option SymbolicTransition}
    {path : List SymbolicTransition} {references : List Nat} {initial : String}
    (copies : CopiesPath zset testTree acceptZSES (inputsBeside zset) reference parent copy path
      references)
    (translated : Translated testTree initial (testTree.edgesAt references) testCase) :
    testCase.graph.IsSimulation spec.graph (fun label specLabel => specPart label = specLabel)
      (MirrorsIn zset spec) := by
  obtain ⟨_, _, _, _, run⟩ := isProductRun_of_ok specWellFormed tpWellFormed composed
  obtain ⟨location, trace, isInitial, isTree⟩ := execute_returned executed
  have registers := initialLocationOf_registers run.wellFormed isInitial
  intro transition inGraph _ isSpecPart
  cases isSpecPart
  have inOut : transition ∈ testCase.outOf transition.source := inGraph
  rw [translated.stores.outOf] at inOut
  obtain ⟨edge, listed, rfl⟩ := List.mem_map.mp (List.mem_of_mem_filter inOut)
  obtain ⟨source, node, original, found, isChild, isCopyOf, sourceLabel, targetLabel⟩ :=
    copies.origins edge listed
  obtain ⟨_, target, inProduct, targetFound, _, chosen, stepped, guard, assignments, deadline⟩ :=
    isTree.child_origin found isChild
  have action := nextZSES_action stepped
  obtain ⟨update, updated, ids, condition⟩ := nextZSES_written stepped
  obtain ⟨copied, copiedFound, standsFor⟩ :=
    targetLabel _ (congrArg (Option.map SymbolicNode.state) targetFound)
  have nodeRegisters := isTree.registers run.wellFormed registers found
  have inSp : inProduct ∈ sp.outOf node.state.location.label := by
    rw [TIOSTS.outOf_eq _ _ nodeRegisters]
    exact List.mem_of_getElem? chosen
  obtain ⟨specTransition, inSpec, ⟨tpLabel, isSource⟩, ⟨targetTpLabel, isTarget⟩,
    ⟨tpGuard, isGuard⟩, ⟨declared, isDeclared, listed⟩, takesOver⟩ :=
      exists_mirrored specWellFormed tpWellFormed composed inSp
  have sourceAvoids := specLabels _ (TIOSTS.isRegistered_of_mem_outOf inSpec) '_' (by simp)
  have targetAvoids := specLabels _ (specWellFormed.target_registered inSpec) '_' (by simp)
  have isPair : target.state.location.label = pairLabel specTransition.target targetTpLabel := by
    rw [run.wellFormed.label_eq (nextZSES_target stepped), isTarget]
  have fromSource : specPart (testTree.labelOf edge.sourceZSES) = specTransition.source := by
    rw [sourceLabel, isSource, specPart_pairLabel sourceAvoids]
  have toTarget : specPart (testTree.labelOf edge.targetZSES) = specTransition.target := by
    rw [SymbolicExecutionTree.labelOf, copiedFound]
    exact specPart_of_standsFor targetAvoids isPair standsFor
  refine ⟨specTransition, inSpec, fromSource.symm, ?_, toTarget⟩
  · obtain ⟨others, resets⟩ := takesOver.clockAssignments
    rw [listed] at updated
    have count := updateParameters_length updated
    rw [List.length_nil, Nat.zero_add] at count
    refine ⟨⟨?_, ?_, ⟨declared, isDeclared, ?_⟩, ?_, ⟨others, ?_⟩, ?_⟩, fromSource, toTarget,
      ⟨source, node.state, declared, update, tpGuard,
        congrArg (Option.map SymbolicNode.state) found, sourceLabel.symm, isDeclared, updated,
        ?_, ?_⟩⟩
    · change edge.symbolicAction.action.name = specTransition.action.name
      rw [isCopyOf.symbolicAction, action, takesOver.name]
    · change edge.symbolicAction.action.type = specTransition.action.type.mirror
      rw [isCopyOf.symbolicAction, action, takesOver.type]
    · change edge.symbolicAction.paramIds.length = declared.parameters.length
      rw [isCopyOf.symbolicAction, ids, count]
    · intro clocks holds
      apply takesOver.clockGuard clocks
      change edge.clockGuard.clone.holds clocks at holds
      rw [ClockGuard.clone_eq, isCopyOf.clockGuard, guard] at holds
      exact holds
    · change edge.clockAssignments = _
      rw [isCopyOf.clockAssignments, assignments, resets]
    · change edge.deadline = specTransition.deadline
      rw [isCopyOf.deadline, deadline, takesOver.deadline]
    · change edge.symbolicAction.paramIds = update.paramIds
      rw [isCopyOf.symbolicAction, ids]
    · change ((testTree.getState edge.targetZSES).map SymbolicState.pathCondition).getD "" = _
      rw [copiedFound, ← isGuard, ← condition, ← standsFor.pathCondition]
      rfl

/-- A translated test tree starts at a label with the initial label of the specification. -/
theorem specPart_initial (specWellFormed : spec.WellFormed) (tpWellFormed : tp.WellFormed)
    (specLabels : spec.LabelsAvoid ['_'])
    (composed : synchronousProduct depth spec tp = .ok sp)
    (executed : execute tools sp rounds = .ok zset)
    {acceptZSES copy : Nat} {path : List SymbolicTransition} {references : List Nat}
    (lists : ListsStates zset testTree acceptZSES (inputsBeside zset) 0 copy path references) :
    spec.initialLocation = some (specPart (testTree.labelOf copy)) := by
  obtain ⟨_, pair, _, _, run⟩ := isProductRun_of_ok specWellFormed tpWellFormed composed
  obtain ⟨location, trace, isInitial, isTree⟩ := execute_returned executed
  obtain ⟨node, found, state, _⟩ := isTree.rootNode
  have label : testTree.labelOf copy = location.label := by
    have same : zset.getState 0 = some node.state := congrArg (Option.map SymbolicNode.state) found
    rw [SymbolicExecutionTree.labelOf, lists.copies.copy_state, same, state]
    rfl
  have isPair : location.label = pair.label := by
    have known := ((initialLocationOf_eq_ok run.wellFormed).mp isInitial).1
    rw [run.initialLocation] at known
    exact (Option.some.inj known).symm
  obtain ⟨specLocation, specFound, _⟩ := specWellFormed.initial_registered run.specInitial
  have avoids := specLabels pair.specLabel ((spec.isRegistered_iff _).mpr ⟨_, specFound⟩) '_'
    (by simp)
  rw [label, isPair, LocationPair.label, specPart_pairLabel avoids]
  exact run.specInitial

end Walks

section Generated

variable {tools : SymbolicTools} {order : IterationOrder} {depth rounds : Nat} {spec tp : TIOSTS}
  {testCases : List TIOSTS}

/-- The specification simulates every generated test case from its initial location on, each
transition by a step of the execution tree. -/
theorem SYMBOLRT.executes_of_generated (specWellFormed : spec.WellFormed)
    (tpWellFormed : tp.WellFormed) (specLabels : spec.LabelsAvoid ['_'])
    (generated : generateTestCases tools order depth rounds spec tp = .ok testCases) :
    ∃ tpComplete sp zset, Completion.complete order tp = .ok tpComplete ∧
      synchronousProduct depth spec tpComplete = .ok sp ∧
      execute tools sp rounds = .ok zset ∧
      ∀ testCase ∈ testCases, ∃ start, testCase.initialLocation = some start ∧
        spec.initialLocation = some (specPart start) ∧
        testCase.graph.IsSimulation spec.graph
          (fun label specLabel => specPart label = specLabel) (MirrorsIn zset spec) := by
  obtain ⟨tpComplete, sp, zset, testTrees, completed, composed, executed, selected, translated⟩ :=
    generateTestCases_eq_ok.mp generated
  have completeWellFormed := complete_wellFormed tpWellFormed completed
  obtain ⟨_, _, _, _, run⟩ := isProductRun_of_ok specWellFormed completeWellFormed composed
  obtain ⟨location, trace, isInitial, isTree⟩ := execute_returned executed
  refine ⟨tpComplete, sp, zset, completed, composed, executed, ?_⟩
  intro testCase member
  obtain ⟨testTree, inTrees, returned⟩ := Loops.mapM_mem translated member
  obtain ⟨acceptZSES, notRoot, isTestTree⟩ := isTestTree_of_selected isTree run.wellFormed
    (initialLocationOf_registers run.wellFormed isInitial) selected inTrees
  obtain ⟨other, copy, path, references, otherReturned, lists, isTranslated⟩ :=
    exists_translated isTree isTestTree notRoot order sp
  cases returned.symm.trans otherReturned
  exact ⟨_, isTranslated.initialLocation,
    specPart_initial specWellFormed completeWellFormed specLabels composed executed lists,
    isSimulation_of_translated specWellFormed completeWellFormed specLabels composed executed
      lists.copies isTranslated⟩

theorem SYMBOLRT.simulates_of_generated (specWellFormed : spec.WellFormed)
    (tpWellFormed : tp.WellFormed) (specLabels : spec.LabelsAvoid ['_'])
    (generated : generateTestCases tools order depth rounds spec tp = .ok testCases) :
    ∀ testCase ∈ testCases, ∃ start, testCase.initialLocation = some start ∧
      spec.initialLocation = some (specPart start) ∧
      testCase.graph.IsSimulation spec.graph (fun label specLabel => specPart label = specLabel)
        (Mirrors spec) := by
  obtain ⟨_, _, zset, _, _, _, simulated⟩ :=
    executes_of_generated specWellFormed tpWellFormed specLabels generated
  intro testCase member
  obtain ⟨start, initial, specInitial, simulation⟩ := simulated testCase member
  exact ⟨start, initial, specInitial, simulation.mono (fun _ _ mirrored => mirrored.mirrors)⟩

/-- Every walk through a generated test case from its initial location is matched, transition
by transition, by a walk through the specification from its initial location, which leads to
the part of the label that belongs to the specification.  Each transition stands for a step
from a state of the execution tree. -/
theorem SYMBOLRT.generateTestCases_refine (specWellFormed : spec.WellFormed)
    (tpWellFormed : tp.WellFormed) (specLabels : spec.LabelsAvoid ['_'])
    (generated : generateTestCases tools order depth rounds spec tp = .ok testCases) :
    ∃ tpComplete sp zset, Completion.complete order tp = .ok tpComplete ∧
      synchronousProduct depth spec tpComplete = .ok sp ∧
      execute tools sp rounds = .ok zset ∧
      ∀ testCase ∈ testCases, ∃ start specStart, testCase.initialLocation = some start ∧
        spec.initialLocation = some specStart ∧
        ∀ walk ∈ testCase.graph.chains start, ∃ specWalk ∈ spec.graph.chains specStart,
          List.Forall₂ (MirrorsIn zset spec) walk specWalk ∧
            specPart (testCase.graph.endOf start walk) =
              spec.graph.endOf specStart specWalk := by
  obtain ⟨tpComplete, sp, zset, completed, composed, executed, simulated⟩ :=
    executes_of_generated specWellFormed tpWellFormed specLabels generated
  refine ⟨tpComplete, sp, zset, completed, composed, executed, ?_⟩
  intro testCase member
  obtain ⟨start, initial, specInitial, simulation⟩ := simulated testCase member
  exact ⟨start, _, initial, specInitial, fun walk isWalk => simulation.chain rfl isWalk⟩

end Generated

open GenerationInstance in
theorem generateTestCases_refine_tick : ∃ testCases zset, generated = .ok testCases ∧
    testCases.length = 2 ∧ ∀ testCase ∈ testCases, ∃ start specStart,
      testCase.initialLocation = some start ∧ TickInstance.spec.initialLocation = some specStart ∧
      ∀ walk ∈ testCase.graph.chains start,
        ∃ specWalk ∈ TickInstance.spec.graph.chains specStart,
          List.Forall₂ (MirrorsIn zset TickInstance.spec) walk specWalk ∧
            specPart (testCase.graph.endOf start walk) =
              TickInstance.spec.graph.endOf specStart specWalk := by
  obtain ⟨testCases, returned, length⟩ := exists_testCases
  have labels : TickInstance.spec.LabelsAvoid ['_'] :=
    TIOSTS.assemble_labelsAvoid (TIOSTS.declare_isBlank _ _ _ _ _) (by decide)
  obtain ⟨_, _, zset, _, _, _, refined⟩ := SYMBOLRT.generateTestCases_refine
    TickInstance.spec_wellFormed AcceptInstance.tp_wellFormed labels returned
  exact ⟨testCases, zset, returned, length, refined⟩

end Symbolrt
