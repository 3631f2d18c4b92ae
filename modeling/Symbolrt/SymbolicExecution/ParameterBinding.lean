import Symbolrt.Lib.Loops
import Symbolrt.SymbolicExecution.Execution

/-!
# Which value a parameter name stands for

The execution gives every parameter of an action a new value and binds its name to it, so
a name stands for the value of the last parameter that has it, and a name that is no
parameter keeps the value it had.
-/

namespace Symbolrt

namespace SymbolicExecution

/-- The position of the parameter whose value the name stands for. -/
def boundTo (parameters : List String) (name : String) : Option Nat :=
  ((parameters.zipIdx.filter (fun entry => entry.1 = name)).getLast?).map Prod.snd

theorem boundTo_append (parameters : List String) (parameter name : String) :
    boundTo (parameters ++ [parameter]) name =
      if parameter = name then some parameters.length else boundTo parameters name := by
  unfold boundTo
  rw [List.zipIdx_append, List.filter_append]
  by_cases same : parameter = name <;> simp [same]

theorem boundTo_lt {parameters : List String} {name : String} {position : Nat}
    (bound : boundTo parameters name = some position) : position < parameters.length := by
  obtain ⟨⟨entry, index⟩, last, same⟩ := Option.map_eq_some_iff.mp bound
  have listed := (List.mem_filter.mp (List.mem_of_getLast? last)).1
  obtain ⟨_, below, _⟩ := List.mem_zipIdx listed
  have sameIndex : index = position := same
  omega

theorem boundTo_isSome {parameters : List String} {name : String} :
    (boundTo parameters name).isSome = true ↔ name ∈ parameters := by
  unfold boundTo
  rw [Option.isSome_map, List.getLast?_isSome, ← List.length_pos_iff,
    ← List.countP_eq_length_filter, List.countP_pos_iff]
  constructor
  · rintro ⟨⟨entry, index⟩, listed, same⟩
    rw [← (of_decide_eq_true same : entry = name)]
    exact (List.mem_zipIdx' listed).2 ▸ List.getElem_mem _
  · intro member
    obtain ⟨index, below, same⟩ := List.getElem_of_mem member
    refine ⟨(name, index), ?_, by simp⟩
    rw [List.mem_zipIdx_iff_getElem?]
    simp [below, same]

/-- What the values are after the parameters have been updated. -/
structure Binds (parameters : List String) (before : SymbolicMapping)
    (update : ParameterUpdate) : Prop where
  length : update.paramIds.length = parameters.length
  exchanged : ∀ name position, boundTo parameters name = some position →
    update.nextSymbolicValues.lookup name = update.paramIds[position]?
  kept : ∀ name, boundTo parameters name = none →
    update.nextSymbolicValues.lookup name = before.lookup name

/-- Names of parameters stand for the new values, all others for the old ones. -/
theorem binds_of_updated {parameters : List String} {before : SymbolicMapping}
    {update : ParameterUpdate}
    (updated : parameters.foldlM updateParameter ⟨[], ∅, before⟩ = .ok update) :
    Binds parameters before update := by
  apply Loops.foldlM_returned (fun done state => Binds done before state) updated
  · constructor
    · rfl
    · intro name position impossible
      cases impossible
    · exact fun _ _ => rfl
  · intro done parameter rest state next _ binds stepped
    obtain ⟨current, _, stepped⟩ := bind_eq_ok.mp stepped
    obtain ⟨newParamId, _, stepped⟩ := bind_eq_ok.mp stepped
    obtain rfl := Except.ok.inj stepped
    constructor
    · simp [binds.length]
    · intro name position bound
      rw [boundTo_append] at bound
      by_cases same : parameter = name
      · rw [if_pos same] at bound
        rw [same, Finmap.lookup_insert, ← Option.some.inj bound, ← binds.length]
        simp
      · rw [if_neg same] at bound
        have below : position < state.paramIds.length := by
          rw [binds.length]
          exact boundTo_lt bound
        rw [Finmap.lookup_insert_of_ne _ (Ne.symm same), binds.exchanged name position bound,
          List.getElem?_append_left below]
    · intro name unbound
      rw [boundTo_append] at unbound
      by_cases same : parameter = name
      · rw [if_pos same] at unbound
        cases unbound
      · rw [if_neg same] at unbound
        rw [Finmap.lookup_insert_of_ne _ (Ne.symm same), binds.kept name unbound]

/-- The names that the guard and the assignments mention, as the execution reads them. -/
def mentions (transition : Transition) : List String :=
  Text.tokensWithDelimiters expressionDelimiters transition.dataGuard.text ++
    match transition.dataAssignments with
    | none => []
    | some dataAssignments => (Text.split assignmentBar dataAssignments).flatMap fun assignment =>
        (Text.split Constants.assignmentSymbol assignment).flatMap fun part =>
          Text.tokensWithDelimiters expressionDelimiters (Text.trim part)

/-- Under the parameters of another action, every parameter that the transition mentions
stands for the one at the place it has in the transition's own action. -/
def RefersTo (transition : Transition) (parameters : List String) : Prop :=
  ∀ name ∈ transition.action.parameters, name ∈ mentions transition →
    boundTo parameters name = boundTo transition.action.parameters name

instance (transition : Transition) (parameters : List String) :
    Decidable (RefersTo transition parameters) :=
  inferInstanceAs (Decidable (∀ name ∈ transition.action.parameters, _ → _))

theorem refersTo_own (transition : Transition) :
    RefersTo transition transition.action.parameters := fun _ _ _ => rfl

/-- In a step with the parameters of another action, every parameter that the transition
mentions has the value that is exchanged at its place in the transition's own action. -/
def ReadsExchanged (transition : Transition) (parameters : List String) : Prop :=
  ∀ (before : SymbolicMapping) (update : ParameterUpdate),
    parameters.foldlM updateParameter ⟨[], ∅, before⟩ = .ok update →
      ∀ name ∈ transition.action.parameters, name ∈ mentions transition →
        ∃ position, boundTo transition.action.parameters name = some position ∧
          update.nextSymbolicValues.lookup name = update.paramIds[position]?

theorem RefersTo.readsExchanged {transition : Transition} {parameters : List String}
    (refers : RefersTo transition parameters) : ReadsExchanged transition parameters := by
  intro before update updated name parameter mentioned
  obtain ⟨position, bound⟩ := Option.isSome_iff_exists.mp (boundTo_isSome.mpr parameter)
  refine ⟨position, bound, ?_⟩
  apply (binds_of_updated updated).exchanged
  rw [refers name parameter mentioned, bound]

end SymbolicExecution

end Symbolrt
