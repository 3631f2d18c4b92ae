import Symbolrt.SymbolicExecution.ReachedMappings

/-!
# Values of updated expressions

An updated expression has the value that the expression has in the store of the symbolic
values if the operators around every name leave the operators of its value to it, or may
change places with them.
-/

namespace Symbolrt

namespace SymbolicExecution

open SynchronousProduct (initialLocationOf)
open Expression (Tree grammar)

/-- The values of the names can be read, and the operators around each of them fit its
value. -/
def ValuesFit (symbolicValues : SymbolicMapping) (tree : Tree) : Prop :=
  ValuesRead symbolicValues tree.words ∧
    Precedence.Fits grammar Expression.exchange (tree.bind (valueTree symbolicValues))

instance (symbolicValues : SymbolicMapping) (tree : Tree) :
    Decidable (ValuesFit symbolicValues tree) := inferInstanceAs (Decidable (_ ∧ _))

/-- Under every reached mapping, an expression that its values fit is updated to a text with
its value in the store.  The text is read as the expression with the values put in exactly
if the levels of all operators group it that way, and only operators that may change places
always do so without changing a value. -/
theorem updateExpression_evaluates (tools : SymbolicTools) {tiosts : TIOSTS}
    (wellFormed : tiosts.WellFormed) (uses : tiosts.UsesIdentifiers) {location : Location}
    (isInitial : initialLocationOf tiosts = .ok location) {symbolicValues : SymbolicMapping}
    (reached : ReachedMapping tools tiosts (initialState tools tiosts location) symbolicValues)
    {expression : String} (plain : PlainBlanks expression) {tree : Tree}
    (isRead : Expression.read expression = some tree) :
    (ValuesFit symbolicValues tree → ∀ interpretation,
      Expression.value interpretation (updateExpression expression symbolicValues) =
        Expression.value (store interpretation symbolicValues) expression) ∧
    (ValuesRead symbolicValues tree.words →
      (Expression.read (updateExpression expression symbolicValues) =
          some (tree.bind (valueTree symbolicValues)) ↔
        Precedence.Grouped grammar (tree.bind (valueTree symbolicValues)))) ∧
    Expression.RegroupingDiffers := by
  have registers := initialLocationOf_registers wellFormed isInitial
  have identifiers := reached.namesIdentifiers wellFormed uses registers
  refine ⟨?_, ?_, Expression.regroupingDiffers⟩
  · rintro ⟨valuesRead, fits⟩ interpretation
    exact value_updateExpression identifiers plain isRead valuesRead fits interpretation
  · intro valuesRead
    rw [read_updateExpression identifiers plain isRead valuesRead]
    constructor
    · intro same
      have grouped := @Precedence.grouped_regroup _ _ _ _ grammar
        (tree.bind (valueTree symbolicValues))
      rw [Option.some.inj same] at grouped
      exact grouped
    · intro grouped
      rw [grouped.regroup_eq]

namespace CoinInstance

def enter : Action := ⟨"init", .internal, []⟩

def insertCoin : Action := ⟨"insertCoin", .input, ["coin"]⟩

def declared : TIOSTS :=
  .declare "VendingMachine" [enter, insertCoin] [⟨"total", .integer⟩] [⟨"coin", .integer⟩] []

def transitions : List Transition :=
  [.bare "START" enter "Idle",
    { Transition.bare "Idle" insertCoin "Idle" with
      dataAssignments := some "total := total + coin" }]

def model : TIOSTS := .assemble declared ["START", "Idle"] "START" transitions

theorem uses : declared.Uses ["START", "Idle"] "START" transitions := by
  constructor
  · decide
  · intro transition member
    rcases List.mem_pair.mp member with rfl | rfl
    · exact ⟨by simp [Transition.bare], by simp [Transition.bare], rfl⟩
    · exact ⟨by simp [Transition.bare], by simp [Transition.bare], rfl⟩

theorem wellFormed : model.WellFormed :=
  TIOSTS.assemble_wellFormed (TIOSTS.declare_isBlank _ _ _ _ _) uses

theorem usesIdentifiers : model.UsesIdentifiers := by
  have listed : ∀ {label transition}, transition ∈ model.outOf label →
      transition ∈ transitions := by
    intro label transition member
    have blank : declared.IsBlank := TIOSTS.declare_isBlank _ _ _ _ _
    rw [model, TIOSTS.assemble_outOf blank uses] at member
    exact (List.mem_filter.mp member).1
  constructor
  · rw [model, TIOSTS.assemble_dataNames]
    decide
  · intro label transition member
    have every : ∀ transition ∈ transitions, ∀ parameter ∈ transition.action.parameters,
        IsIdentifier parameter := by decide
    exact every transition (listed member)
  · intro label transition member
    have every : ∀ transition ∈ transitions, ∀ text ∈ transition.dataAssignments,
        ∀ assignment ∈ Text.split assignmentBar text,
          ∀ target ∈ (Text.split Constants.assignmentSymbol assignment).head?,
            IsIdentifier (Text.trim target) := by decide
    exact every transition (listed member)

/-- The run that inserts one coin. -/
def history : Option (List SymbolicState) := do
  let location ← (initialLocationOf model).toOption
  [0, 0].foldlM (follow LoopInstance.tools model) [initialState LoopInstance.tools model location]

theorem exists_reached {checked : SymbolicMapping → Bool}
    (passes : (history.bind List.head?).map (fun state => checked state.mapping) = some true) :
    ∃ location symbolicValues, initialLocationOf model = .ok location ∧
      ReachedMapping LoopInstance.tools model (initialState LoopInstance.tools model location)
        symbolicValues ∧ checked symbolicValues = true := by
  obtain ⟨state, isState, checkedState⟩ := Option.map_eq_some_iff.mp passes
  obtain ⟨states, isHistory, isHead⟩ := Option.bind_eq_some_iff.mp isState
  unfold history at isHistory
  obtain ⟨location, isInitial, followed⟩ := Option.bind_eq_some_iff.mp isHistory
  have run := followAll_reachable ReachableRun.root followed
  exact ⟨location, state.mapping, toOption_eq_some isInitial,
    ReachedMapping.state run (List.mem_of_mem_head? isHead), checkedState⟩

/-- The comparison of the total with a price. -/
def comparison : Tree := .binary .greater (.word "total") (.word "5")

end CoinInstance

open CoinInstance in
/-- A sum can be compared without parentheses. -/
theorem updateExpression_evaluates_comparison : ∃ symbolicValues : SymbolicMapping,
    symbolicValues.lookup "total" = some "total_0 + coin_1" ∧ ∀ interpretation,
      Expression.value interpretation (updateExpression "total > 5" symbolicValues) =
        Expression.value (store interpretation symbolicValues) "total > 5" := by
  obtain ⟨location, symbolicValues, isInitial, reached, checked⟩ := @exists_reached
    (fun symbolicValues => decide (symbolicValues.lookup "total" = some "total_0 + coin_1" ∧
      ValuesFit symbolicValues comparison)) (by decide)
  obtain ⟨looked, fits⟩ := of_decide_eq_true checked
  have isRead : Expression.read "total > 5" = some comparison := by decide
  exact ⟨symbolicValues, looked, (updateExpression_evaluates LoopInstance.tools wellFormed
    usesIdentifiers isInitial reached (by decide) isRead).1 fits⟩

open CoinInstance in
/-- Twice the sum becomes the sum of twice its first part and the second one. -/
theorem updateExpression_regroups : ∃ location symbolicValues,
    initialLocationOf model = .ok location ∧
      ReachedMapping LoopInstance.tools model (initialState LoopInstance.tools model location)
        symbolicValues ∧
      symbolicValues.lookup "total" = some "total_0 + coin_1" ∧
      updateExpression "2 * total" symbolicValues = "2 * total_0 + coin_1" ∧
      ∃ interpretation : Expression.Interpretation,
        Expression.value interpretation (updateExpression "2 * total" symbolicValues) =
            some (.number 3) ∧
          Expression.value (store interpretation symbolicValues) "2 * total" =
            some (.number 4) := by
  let interpretation : Expression.Interpretation := ⟨fun _ => .number 1, fun a _ => a, fun a _ => a⟩
  obtain ⟨location, symbolicValues, isInitial, reached, checked⟩ := @exists_reached
    (fun symbolicValues => decide (symbolicValues.lookup "total" = some "total_0 + coin_1" ∧
      updateExpression "2 * total" symbolicValues = "2 * total_0 + coin_1" ∧
        Expression.value interpretation (updateExpression "2 * total" symbolicValues) =
            some (.number 3) ∧
          Expression.value (store interpretation symbolicValues) "2 * total" =
            some (.number 4))) (by decide)
  obtain ⟨looked, updated, values⟩ := of_decide_eq_true checked
  exact ⟨location, symbolicValues, isInitial, reached, looked, updated, interpretation, values⟩

end SymbolicExecution

end Symbolrt
