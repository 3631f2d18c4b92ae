import Symbolrt.Algorithms.ProductRuns
import Symbolrt.Compositions.Relabelling

/-!
# Hiding

The transitions on an input or output action become internal ones on the action Tau.  Tau
is the only internal action of the result, so other internal actions are carried by its
transitions without being declared.
-/

namespace Symbolrt

namespace HidingOperator

def tau : Action := ⟨"Tau", .internal, []⟩

def hiddenActions (a : Action) (actions : List Action) : List Action :=
  actions.filter (fun action => !action.equals a)

/-- The internal actions of the model are lost: only the silent action is declared. -/
def hiddenAlphabet (a : Action) (alphabet : Alphabet) : Alphabet where
  inputActions := hiddenActions a alphabet.inputActions
  outputActions := hiddenActions a alphabet.outputActions
  internalActions := [tau]
  inputActions_type := fun action member =>
    alphabet.inputActions_type action (List.mem_filter.mp member).1
  outputActions_type := fun action member =>
    alphabet.outputActions_type action (List.mem_filter.mp member).1
  internalActions_type := by simp [tau]

/-- The declarations, under a name that says what is hidden. -/
def initializeResult (order : IterationOrder) (tiosts1 : TIOSTS) (a : Action) : TIOSTS :=
  tiosts1.initializeWith order ("HIDE " ++ a.name ++ " IN " ++ tiosts1.name)
    (hiddenAlphabet a tiosts1.toAlphabet)

/-- Every transition is created anew, those of the hidden action with the silent one. -/
def hidingOperator (order : IterationOrder) (model1 : TIOSTS) (aName : String) :
    Except Failure TIOSTS := do
  let tiosts1 ← model1.clone order
  -- without an action of the name a null is passed on, whose name is read first
  let a ← deref (tiosts1.lastAction aName)
  let result := initializeResult order tiosts1 a
  (tiosts1.getTransitions order).foldlM (TIOSTS.createRelabelled a tau) result

section Hidden

variable {order : IterationOrder} {model copy result : TIOSTS} {a : Action}

theorem hiddenAlphabet_congr {other : Action} (same : a.name = other.name)
    (alphabet : Alphabet) : hiddenAlphabet a alphabet = hiddenAlphabet other alphabet := by
  unfold hiddenAlphabet hiddenActions Action.equals
  simp only [same]

theorem mem_hiddenActions {actions : List Action} {action : Action} :
    action ∈ hiddenActions a actions ↔ action ∈ actions ∧ action.name ≠ a.name := by
  rw [hiddenActions, List.mem_filter]
  simp [Action.equals]

/-- Hiding a declared action of a well-formed model always returns. -/
theorem hidingOperator_ok (order : IterationOrder) (wellFormed : model.WellFormed)
    (declared : a ∈ model.getActions) :
    ∃ copy result, TIOSTS.IsExactCopy order model copy ∧
      hidingOperator order model a.name = .ok result ∧
      IsRelabelling order (hiddenAlphabet a copy.toAlphabet) a tau copy result := by
  obtain ⟨copy, copied, isCopy⟩ := TIOSTS.clone_isExactCopy order wellFormed
  have inCopy : a ∈ copy.getActions := by
    obtain ⟨type, listed⟩ := TIOSTS.mem_getActions.mp declared
    apply TIOSTS.mem_getActions.mpr
    refine ⟨type, ?_⟩
    rw [isCopy.actionsOf]
    exact listed
  obtain ⟨last, found⟩ := TIOSTS.exists_lastAction inCopy
  have same : last.name = a.name := (TIOSTS.lastAction_eq_some found).2
  obtain ⟨result, returned, isRelabelling⟩ := createRelabelled_ok isCopy
    ("HIDE " ++ last.name ++ " IN " ++ copy.name) (hiddenAlphabet a copy.toAlphabet) a tau
  refine ⟨copy, result, isCopy, ?_, isRelabelling⟩
  have relabels : TIOSTS.createRelabelled last tau = TIOSTS.createRelabelled a tau := by
    funext state transition
    rw [TIOSTS.createRelabelled, TIOSTS.createRelabelled, Transition.relabel_congr same]
  rw [hidingOperator, copied, ok_bind, found, deref_some, ok_bind, initializeResult, relabels,
    hiddenAlphabet_congr same]
  exact returned

/-- Inputs and outputs stay declared, and of the internal actions only Tau is. -/
theorem declared_relabelled_iff {alphabet : Alphabet} {transition : Transition}
    (declared : transition.action.name ∈
      (alphabet.actionsOf transition.action.type).map Action.name) :
    (transition.relabel a tau).action.name ∈ ((hiddenAlphabet a alphabet).actionsOf
        (transition.relabel a tau).action.type).map Action.name ↔
      (transition.action.type = .internal →
        transition.action.name = tau.name ∨ transition.action.name = a.name) := by
  by_cases hidden : transition.action.name = a.name
  · rw [Transition.relabel_of_eq _ hidden]
    apply iff_of_true
    · exact List.mem_map_of_mem List.mem_cons_self
    · exact fun _ => Or.inr hidden
  · rw [Transition.relabel_of_ne _ hidden]
    obtain ⟨action, listed, name⟩ := List.mem_map.mp declared
    have kept : ∀ actions, action ∈ actions →
        transition.action.name ∈ (hiddenActions a actions).map Action.name := by
      intro actions member
      rw [← name] at hidden ⊢
      exact List.mem_map_of_mem (mem_hiddenActions.mpr ⟨member, hidden⟩)
    cases type : transition.action.type with
    | input =>
        rw [type] at listed
        apply iff_of_true
        · exact kept _ listed
        · intro impossible
          cases impossible
    | output =>
        rw [type] at listed
        apply iff_of_true
        · exact kept _ listed
        · intro impossible
          cases impossible
    | internal =>
        simp [hiddenAlphabet, Alphabet.actionsOf, hidden]

/-- The internal transitions are on Tau or on the hidden action. -/
def InternalsHidden (a : Action) (transitions : List Transition) : Prop :=
  ∀ transition ∈ transitions, transition.action.type = .internal →
    transition.action.name = tau.name ∨ transition.action.name = a.name

theorem declaresActions_iff (isCopy : TIOSTS.IsExactCopy order model copy)
    (isRelabelling : IsRelabelling order (hiddenAlphabet a copy.toAlphabet) a tau copy
      result) :
    result.DeclaresActions ↔ InternalsHidden a (model.getTransitions order) := by
  have permutation := copy_transitions_perm isCopy
  have declared : ∀ transition ∈ copy.getTransitions order,
      ((transition.relabel a tau).action.name ∈ (result.actionsOf
        (transition.relabel a tau).action.type).map Action.name ↔
          (transition.action.type = .internal →
            transition.action.name = tau.name ∨ transition.action.name = a.name)) := by
    intro transition member
    rw [isRelabelling.alphabet_eq]
    exact declared_relabelled_iff (declared_in_lists isCopy member)
  constructor
  · intro declares transition member internal
    have listed : model.copied transition ∈ copy.getTransitions order :=
      permutation.mem_iff.mpr (List.mem_map_of_mem member)
    obtain ⟨label, leaves⟩ :=
      isRelabelling.exists_transition_iff.mpr ⟨_, listed, rfl⟩
    have hidden := (declared _ listed).mp (declares label _ leaves)
    rw [TIOSTS.copied_actionType, TIOSTS.copied_actionName] at hidden
    exact hidden internal
  · intro internals label transition leaves
    obtain ⟨original, listed, rfl⟩ :=
      isRelabelling.exists_transition_iff.mp ⟨label, leaves⟩
    apply (declared original listed).mpr
    obtain ⟨transition, member, rfl⟩ := List.mem_map.mp (permutation.mem_iff.mp listed)
    rw [TIOSTS.copied_actionType, TIOSTS.copied_actionName]
    exact internals transition member

end Hidden

open SynchronousProduct in
/-- The recursion of a product with a well-formed specification looks up declared actions
only. -/
theorem syncProduct_looks_up {spec tp initial : TIOSTS} {specLoc tpLoc : Location}
    (specWellFormed : spec.WellFormed) (tpWellFormed : tp.WellFormed)
    (initialized : initializeSyncProduct spec tp = .ok initial)
    (specStart : initialLocationOf spec = .ok specLoc)
    (tpStart : initialLocationOf tp = .ok tpLoc) (depth : Nat) :
    syncProduct spec tp depth specLoc tpLoc initial ≠ .error .nullPointer := by
  have product := (initializeSyncProduct_declares initialized).isProductSetUp specWellFormed
    tpWellFormed
  have specFound := ((initialLocationOf_eq_ok specWellFormed).mp specStart).2
  have tpFound := ((initialLocationOf_eq_ok tpWellFormed).mp tpStart).2
  have simulated : syncProduct spec tp depth specLoc tpLoc initial = _ :=
    syncProduct_build product depth specFound tpFound []
  rw [simulated]
  cases (productSearch spec tp initial.clocks).visit depth ⟨specLoc.label, tpLoc.label⟩ [] with
  | none =>
      intro impossible
      cases impossible
  | some final =>
      intro impossible
      cases impossible

open SynchronousProduct in
/-- Only the action of some transitions has been replaced, and the result can be hidden
from, copied and multiplied without looking up an action in vain. -/
structure Hides (order : IterationOrder) (model : TIOSTS) (a : Action) (result : TIOSTS) :
    Prop where
  transitions : (result.getTransitions order).Perm ((model.getTransitions order).map
    (fun transition => (model.copied transition).relabel a tau))
  declares : result.DeclaresActions
  hidesAgain : ∀ other ∈ result.getInputOutputActions, ∃ again,
    hidingOperator order result other.name = .ok again
  copies : ∃ copy, result.clone order = .ok copy
  multiplies : ∀ {tp initial : TIOSTS} {specLoc tpLoc : Location}, tp.WellFormed →
    initializeSyncProduct result tp = .ok initial → initialLocationOf result = .ok specLoc →
      initialLocationOf tp = .ok tpLoc → ∀ depth,
        syncProduct result tp depth specLoc tpLoc initial ≠ .error .nullPointer

/-- Hiding an input or output action does so exactly if all internal transitions of the
model are on Tau or on the name of the hidden action, and no two transitions have one
key once the hidden action is called Tau. -/
theorem hidingOperator_hides_iff {order : IterationOrder} {model : TIOSTS} {a : Action}
    (wellFormed : model.WellFormed) (declared : a ∈ model.getInputOutputActions) :
    (∃ result, hidingOperator order model a.name = .ok result ∧ Hides order model a result) ↔
      InternalsHidden a (model.getTransitions order) ∧
        KeysApart a tau (model.getTransitions order) := by
  obtain ⟨copy, result, isCopy, returned, isRelabelling⟩ :=
    hidingOperator_ok order wellFormed (List.mem_append_left _ declared)
  constructor
  · rintro ⟨other, otherReturned, hides⟩
    obtain rfl := Except.ok.inj (returned.symm.trans otherReturned)
    constructor
    · exact (declaresActions_iff isCopy isRelabelling).mp hides.declares
    · exact (isRelabelling.transitions_perm_iff wellFormed isCopy).mp hides.transitions
  · rintro ⟨internals, apart⟩
    have declares := (declaresActions_iff isCopy isRelabelling).mpr internals
    have resultWellFormed := isRelabelling.wellFormed declares
    refine ⟨result, returned, ?_⟩
    constructor
    · exact (isRelabelling.transitions_perm_iff wellFormed isCopy).mpr apart
    · exact declares
    · intro other member
      obtain ⟨_, again, _, againReturned, _⟩ :=
        hidingOperator_ok order resultWellFormed (List.mem_append_left _ member)
      exact ⟨again, againReturned⟩
    · obtain ⟨second, copied, _⟩ := TIOSTS.clone_isExactCopy order resultWellFormed
      exact ⟨second, copied⟩
    · intro tp initial specLoc tpLoc tpWellFormed initialized specStart tpStart
      exact syncProduct_looks_up resultWellFormed tpWellFormed initialized specStart tpStart

namespace HidingInstance

def order : IterationOrder := ⟨id, IterationOrder.id_perm⟩

def press : Action := ⟨"press", .input, []⟩

def enter (name : String) : Action := ⟨name, .internal, []⟩

/-- An internal action and an input. -/
def model (name : String) : TIOSTS :=
  .assemble (.declare "M" [enter name, press] [] [] []) ["s", "a", "b"] "s"
    [.bare "s" (enter name) "a", .bare "a" press "b"]

theorem model_wellFormed {name : String}
    (uses : (TIOSTS.declare "M" [enter name, press] [] [] []).Uses ["s", "a", "b"] "s"
      [.bare "s" (enter name) "a", .bare "a" press "b"]) : (model name).WellFormed :=
  TIOSTS.assemble_wellFormed (TIOSTS.declare_isBlank _ _ _ _ _) uses

end HidingInstance

open HidingInstance in
/-- A model whose internal action is Tau keeps it. -/
theorem hidingOperator_hides_tau :
    ∃ result, hidingOperator order (model "Tau") press.name = .ok result ∧
      Hides order (model "Tau") press result := by
  apply (hidingOperator_hides_iff (model_wellFormed (by decide)) (by decide)).mpr
  constructor
  · unfold InternalsHidden
    decide
  · unfold KeysApart
    decide

open HidingInstance in
/-- An internal action with another name is not declared any more, and the result cannot
be copied. -/
theorem hidingOperator_loses_internal :
    ∃ result, hidingOperator order (model "i") press.name = .ok result ∧
      result.clone order = .error .indexOutOfBounds ∧ ¬ Hides order (model "i") press result := by
  have ran : (hidingOperator order (model "i") press.name).toOption.map (fun result =>
      match result.clone order with
      | .error failure => failure == .indexOutOfBounds
      | .ok _ => false) = some true := by decide
  obtain ⟨result, returned, checked⟩ := exists_checked ran
  have failed : result.clone order = .error .indexOutOfBounds := by
    split at checked
    · next failure outcome =>
        rw [outcome, eq_of_beq checked]
    · cases checked
  refine ⟨result, returned, failed, ?_⟩
  intro hides
  obtain ⟨copy, copied⟩ := hides.copies
  rw [failed] at copied
  cases copied

end HidingOperator

end Symbolrt
