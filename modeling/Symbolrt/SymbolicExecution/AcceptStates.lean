import Symbolrt.Algorithms.ProductCorrectness
import Symbolrt.SymbolicExecution.RootPaths

/-!
# Accept states of the tree of a product

A state is collected as an accept state when its label contains the accept label
somewhere.  The label of a product location joins the names of a pair, so a name of the
specification may make a state an accept state that the test purpose does not accept.
-/

namespace Symbolrt

open SynchronousProduct

/-- The product reaches the pair, and the pair has the label. -/
structure IsPairOf (spec tp : TIOSTS) (label : String) (pair : LocationPair) : Prop where
  reached : ∃ root : LocationPair, spec.initialLocation = some root.specLabel ∧
    tp.initialLocation = some root.tpLabel ∧
    (productSearch spec tp (spec.clocks ++ tp.clocks)).Reaches root pair
  label_eq : pair.label = label

/-- Some name of the pair contains the accept label. -/
def LocationPair.NamesAccept (pair : LocationPair) : Prop :=
  Text.contains pair.specLabel Constants.locationLabelAccept = true ∨
    Text.contains pair.tpLabel Constants.locationLabelAccept = true

instance (pair : LocationPair) : Decidable pair.NamesAccept :=
  inferInstanceAs (Decidable (_ ∨ _))

/-- The separator is no part of the accept label, so the label lies within one name. -/
theorem LocationPair.contains_label_iff (pair : LocationPair) :
    Text.contains pair.label Constants.locationLabelAccept = true ↔ pair.NamesAccept := by
  have absent : '_' ∉ Constants.locationLabelAccept.toList := by decide
  have nonempty : Constants.locationLabelAccept.toList ≠ [] := by decide
  simp only [NamesAccept, Text.contains, decide_eq_true_eq]
  rw [label, pairLabel_toList]
  exact Text.infix_join_iff absent nonempty

theorem LocationPair.namesAccept_of_accept {pair : LocationPair}
    (accepts : pair.tpLabel = Constants.locationLabelAccept) : pair.NamesAccept := by
  refine Or.inr ?_
  rw [accepts]
  exact decide_eq_true (List.infix_refl _)

theorem exists_isPairOf {spec tp product : TIOSTS} {depth : Nat}
    (specWellFormed : spec.WellFormed) (tpWellFormed : tp.WellFormed)
    (returned : synchronousProduct depth spec tp = .ok product) {label : String}
    (registered : product.IsRegistered label) : ∃ pair, IsPairOf spec tp label pair := by
  obtain ⟨initial, root, final, _, run⟩ :=
    isProductRun_of_ok specWellFormed tpWellFormed returned
  obtain ⟨pair, reaches, label_eq⟩ := run.reaches_of_registered registered
  rw [run.declares.clocks] at reaches
  exact ⟨pair, ⟨root, run.specInitial, run.tpInitial, reaches⟩, label_eq⟩

namespace SymbolicExecution

variable {tools : SymbolicTools} {tiosts : TIOSTS} {tree : SymbolicExecutionTree}

theorem IsExecutionTree.registers {root : SymbolicState} {trace : Nat → Trace}
    (isTree : IsExecutionTree tools tiosts root tree trace) (wellFormed : tiosts.WellFormed)
    (rootRegisters : tiosts.Registers root.location) {reference : Nat} {node : SymbolicNode}
    (found : tree.getNode reference = some node) : tiosts.Registers node.state.location := by
  have run := ((run_iff wellFormed rootRegisters).mp (isTree.run reference node found)).1
  obtain ⟨above, history⟩ := isTree.head found
  apply run.registers wellFormed rootRegisters
  rw [history]
  exact List.mem_cons_self

theorem execute_registers {rounds : Nat} (wellFormed : tiosts.WellFormed)
    (executed : execute tools tiosts rounds = .ok tree) {reference : Nat} {state : SymbolicState}
    (found : tree.getState reference = some state) : tiosts.IsRegistered state.location.label := by
  obtain ⟨location, trace, isInitial, isTree⟩ := execute_returned executed
  obtain ⟨node, nodeFound, rfl⟩ := Option.map_eq_some_iff.mp found
  have registers := isTree.registers wellFormed
    (initialLocationOf_registers wellFormed isInitial) nodeFound
  exact (tiosts.isRegistered_iff _).mpr ⟨_, registers⟩

end SymbolicExecution

open SymbolicExecution

/-- A state of the tree of a product is collected exactly if the test purpose accepts there,
unless it does not and one of the two names contains the accept label. -/
theorem getAcceptZSESs_accepts_iff (tools : SymbolicTools) {spec tp product : TIOSTS}
    {depth rounds : Nat} {tree : SymbolicExecutionTree} (specWellFormed : spec.WellFormed)
    (tpWellFormed : tp.WellFormed) (returned : synchronousProduct depth spec tp = .ok product)
    (executed : execute tools product rounds = .ok tree) {reference : Nat}
    {state : SymbolicState} (found : tree.getState reference = some state) :
    (∃ pair, IsPairOf spec tp state.location.label pair) ∧
      ∀ pair, IsPairOf spec tp state.location.label pair →
        ((reference ∈ tree.getAcceptZSESs ↔ pair.tpLabel = Constants.locationLabelAccept) ↔
          pair.tpLabel = Constants.locationLabelAccept ∨ ¬ pair.NamesAccept) := by
  obtain ⟨_, _, _, _, run⟩ := isProductRun_of_ok specWellFormed tpWellFormed returned
  refine ⟨exists_isPairOf specWellFormed tpWellFormed returned
    (execute_registers run.wellFormed executed found), ?_⟩
  intro pair isPair
  obtain ⟨node, nodeFound, same⟩ := Option.map_eq_some_iff.mp found
  have collected : reference ∈ tree.getAcceptZSESs ↔ pair.NamesAccept := by
    rw [SymbolicExecutionTree.mem_getAcceptZSESs, ← pair.contains_label_iff,
      isPair.label_eq, ← same]
    constructor
    · rintro ⟨other, otherFound, accept⟩
      cases nodeFound.symm.trans otherFound
      exact accept
    · exact fun accept => ⟨node, nodeFound, accept⟩
  rw [collected]
  constructor
  · intro agrees
    by_cases accepts : pair.tpLabel = Constants.locationLabelAccept
    · exact Or.inl accepts
    · exact Or.inr fun names => accepts (agrees.mp names)
  · rintro (accepts | plain)
    · exact iff_of_true (LocationPair.namesAccept_of_accept accepts) accepts
    · exact iff_of_false plain fun accepts =>
        plain (LocationPair.namesAccept_of_accept accepts)

namespace AcceptInstance

def enter : Action := ⟨"i", .input, []⟩

def pay : Action := ⟨"pay", .output, []⟩

/-- The payment is made at the named location. -/
def specTransitions (label : String) : List Transition :=
  [.bare "Start" enter label, .bare label pay "Paid"]

def spec (label : String) : TIOSTS :=
  .assemble (.declare "S" [enter, pay] [] [] []) ["Start", label, "Paid"] "Start"
    (specTransitions label)

def tpTransitions : List Transition := [.bare "Begin" pay "Accept"]

def tp : TIOSTS :=
  .assemble (.declare "T" [pay] [] [] []) ["Begin", "Accept"] "Begin" tpTransitions

/-- The product and its tree. -/
def run (label : String) : Except Failure (TIOSTS × SymbolicExecutionTree) := do
  let product ← synchronousProduct 4 (spec label) tp
  let tree ← execute LoopInstance.tools product 4
  return (product, tree)

/-- The label of the numbered state, and whether the state is collected. -/
def checked (reference : Nat) (label : String) (ran : TIOSTS × SymbolicExecutionTree) : Bool :=
  (ran.2.getState reference).map (fun state => state.location.label) == some label &&
    ran.2.getAcceptZSESs.contains reference

theorem spec_wellFormed (label : String)
    (uses : TIOSTS.Uses (.declare "S" [enter, pay] [] [] []) ["Start", label, "Paid"] "Start"
      (specTransitions label)) : (spec label).WellFormed :=
  TIOSTS.assemble_wellFormed (TIOSTS.declare_isBlank _ _ _ _ _) uses

theorem tp_wellFormed : tp.WellFormed :=
  TIOSTS.assemble_wellFormed (TIOSTS.declare_isBlank _ _ _ _ _) (by decide)

theorem exists_state {named label : String} {reference : Nat}
    (ran : (run named).toOption.map (checked reference label) = some true) :
    ∃ product tree state, synchronousProduct 4 (spec named) tp = .ok product ∧
      execute LoopInstance.tools product 4 = .ok tree ∧
      tree.getState reference = some state ∧ state.location.label = label ∧
      reference ∈ tree.getAcceptZSESs := by
  obtain ⟨⟨product, tree⟩, returned, holds⟩ := exists_checked ran
  obtain ⟨_, composed, returned⟩ := bind_eq_ok.mp returned
  obtain ⟨_, executed, returned⟩ := bind_eq_ok.mp returned
  cases returned
  obtain ⟨labelled, collected⟩ := (Bool.and_eq_true _ _).mp holds
  obtain ⟨state, found, same⟩ := Option.map_eq_some_iff.mp (beq_iff_eq.mp labelled)
  exact ⟨product, tree, state, composed, executed, found, same, List.contains_iff_mem.mp collected⟩

end AcceptInstance

open AcceptInstance in
theorem getAcceptZSESs_accepts_paid : ∃ product tree state pair,
    synchronousProduct 4 (spec "Ready") tp = .ok product ∧
      execute LoopInstance.tools product 4 = .ok tree ∧ tree.getState 2 = some state ∧
      IsPairOf (spec "Ready") tp state.location.label pair ∧
      ((2 ∈ tree.getAcceptZSESs ↔ pair.tpLabel = "Accept") ↔
        pair.tpLabel = "Accept" ∨ ¬ pair.NamesAccept) := by
  have ran : (run "Ready").toOption.map (checked 2 "Paid_Accept") = some true := by decide +kernel
  obtain ⟨product, tree, state, composed, executed, found, _, _⟩ := exists_state ran
  have exact := getAcceptZSESs_accepts_iff LoopInstance.tools (spec_wellFormed "Ready" (by decide))
    tp_wellFormed composed executed found
  obtain ⟨pair, isPair⟩ := exact.1
  exact ⟨product, tree, state, pair, composed, executed, found, isPair, exact.2 pair isPair⟩

open AcceptInstance in
/-- The state behind the first transition is collected, although the test purpose has not
moved. -/
theorem getAcceptZSESs_named_accept :
    ¬ ∀ (tools : SymbolicTools) (spec tp product : TIOSTS) (depth rounds : Nat)
      (tree : SymbolicExecutionTree), spec.WellFormed → tp.WellFormed →
      synchronousProduct depth spec tp = .ok product → execute tools product rounds = .ok tree →
      ∀ (reference : Nat) (state : SymbolicState) (pair : LocationPair),
        tree.getState reference = some state → IsPairOf spec tp state.location.label pair →
        (reference ∈ tree.getAcceptZSESs ↔ pair.tpLabel = Constants.locationLabelAccept) := by
  intro claimed
  have ran : (run "AcceptCard").toOption.map (checked 1 "AcceptCard_Begin") = some true := by
    decide +kernel
  obtain ⟨product, tree, state, composed, executed, found, labelled, collected⟩ :=
    exists_state ran
  have step : ∃ move ∈ movesAt (spec "AcceptCard") tp ⟨"Start", "Begin"⟩,
      move.target = ⟨"AcceptCard", "Begin"⟩ := by decide
  have isPair : IsPairOf (spec "AcceptCard") tp state.location.label ⟨"AcceptCard", "Begin"⟩ :=
    ⟨⟨⟨"Start", "Begin"⟩, TIOSTS.assemble_initialLocation, TIOSTS.assemble_initialLocation,
      Relation.ReflTransGen.single step⟩, labelled.symm⟩
  have accepts := (claimed _ _ _ _ _ _ _ (spec_wellFormed "AcceptCard" (by decide))
    tp_wellFormed composed executed 1 state _ found isPair).mp collected
  exact absurd accepts (by decide)

end Symbolrt
