import Symbolrt.Base.Assembly
import Symbolrt.Compositions.SequentialResult
import Symbolrt.Compositions.InterruptionResult

/-!
# Which actions a composition declares

A copy of a composition looks up the action of every transition among the declared ones.
Only the internal actions of the first model are declared.
-/

namespace Symbolrt

/-- The action of every transition is in the list for its type. -/
def TIOSTS.DeclaresActions (model : TIOSTS) : Prop :=
  ∀ label, ∀ transition ∈ model.outOf label,
    transition.action.name ∈ (model.actionsOf transition.action.type).map Action.name

/-- The lookups that clones and products make are those that succeed. -/
theorem declaresActions_iff_recovers {model : TIOSTS} :
    model.DeclaresActions ↔ ∀ label, ∀ transition ∈ model.outOf label,
      ∃ action, model.recoverAction transition.action = .ok action := by
  apply forall_congr'
  intro label
  apply forall_congr'
  intro transition
  rw [TIOSTS.recoverAction_isOk, List.mem_map]

theorem TIOSTS.WellFormed.declaresActions {model : TIOSTS} (wellFormed : model.WellFormed) :
    model.DeclaresActions := by
  intro label transition member
  obtain ⟨action, found⟩ := wellFormed.action_declared member
  obtain ⟨declared, _, name⟩ := TIOSTS.getAction_eq_some found
  rw [← name]
  exact List.mem_map_of_mem declared

section Copies

variable {order : IterationOrder} {model copy : TIOSTS}

theorem declared_in_lists (isCopy : TIOSTS.IsExactCopy order model copy)
    {transition : Transition} (member : transition ∈ copy.getTransitions order) :
    transition.action.name ∈ (copy.actionsOf transition.action.type).map Action.name := by
  have leaves := (copy_transition isCopy member).1
  exact isCopy.wellFormed.declaresActions _ transition leaves

end Copies

namespace SequentialComposition

/-- The second model's transition has an internal action or the action of the entry
transition, which the first model does not declare. -/
def Undeclared (junction : Junction) (transition : Transition) : Prop :=
  transition.action.type = .internal ∧
      transition.action.name ∉ junction.tiosts1.internalActions.map Action.name ∨
    transition.action.type = .input ∧
      transition.action.name = junction.t02.action.name ∧
      transition.action.name ∉ junction.tiosts1.inputActions.map Action.name

instance (junction : Junction) (transition : Transition) :
    Decidable (Undeclared junction transition) :=
  inferInstanceAs (Decidable (_ ∨ _))

section Declarations

variable {order : IterationOrder} {model1 model2 result : TIOSTS} {junction : Junction}

theorem Junction.declared1 (junction : Junction) {type : ActionType} {name : String}
    (declared : name ∈ (junction.tiosts1.actionsOf type).map Action.name) :
    name ∈ (junction.declaredActions type).map Action.name := by
  cases type with
  | input =>
      rw [Junction.declaredActions, List.map_append]
      exact List.mem_append_left _ declared
  | output =>
      rw [Junction.declaredActions, List.map_append]
      exact List.mem_append_left _ declared
  | internal => exact declared

/-- Of the second model's actions those of the given kinds are not. -/
theorem Junction.declared2_iff (junction : Junction) {transition : Transition}
    (declared : transition.action.name ∈
      (junction.tiosts2.actionsOf transition.action.type).map Action.name) :
    transition.action.name ∈
        (junction.declaredActions transition.action.type).map Action.name ↔
      ¬ Undeclared junction transition := by
  unfold Undeclared
  cases kind : transition.action.type with
  | input =>
      rw [kind] at declared
      rw [Junction.declaredActions, List.map_append, List.mem_append]
      have kept : transition.action.name ∈ (junction.tiosts2.inputActions.filter
          (fun action => !action.equals junction.t02.action)).map Action.name ↔
            transition.action.name ≠ junction.t02.action.name := by
        simp only [List.mem_map, List.mem_filter]
        constructor
        · rintro ⟨action, ⟨_, different⟩, name⟩
          rw [← name]
          simpa [Action.equals] using different
        · intro different
          obtain ⟨action, member, name⟩ := List.mem_map.mp declared
          refine ⟨action, ⟨member, ?_⟩, name⟩
          rw [← name] at different
          simpa [Action.equals] using different
      rw [kept]
      simp only [reduceCtorEq, false_and, true_and, false_or, not_and, not_not]
      tauto
  | output =>
      rw [kind] at declared
      rw [Junction.declaredActions, List.map_append]
      simp only [reduceCtorEq, false_and, or_self, not_false_eq_true, iff_true]
      exact List.mem_append_right _ declared
  | internal =>
      simp only [Junction.declaredActions, reduceCtorEq, false_and, true_and, or_false,
        not_not]

theorem declaresActions_iff (wellFormed1 : model1.WellFormed) (wellFormed2 : model2.WellFormed)
    (isJunction : IsJunction order model1 model2 junction)
    (returned : sequentialComposition order model1 model2 = .ok result) :
    result.DeclaresActions ↔
      ∀ transition ∈ junction.others2 order, ¬ Undeclared junction transition := by
  have copy1 := exactCopy wellFormed1 isJunction.copy1
  have copy2 := exactCopy wellFormed2 isJunction.copy2
  have names : ∀ type, (result.actionsOf type).map Action.name =
      (junction.declaredActions type).map Action.name := by
    intro type
    rw [← junction.base_actionNames order, (returned_grows isJunction returned).stores]
  have ofSecond : ∀ transition ∈ junction.others2 order,
      (transition.action.name ∈ (result.actionsOf transition.action.type).map Action.name ↔
        ¬ Undeclared junction transition) := by
    intro transition member
    rw [names]
    apply junction.declared2_iff
    exact declared_in_lists copy2 (List.mem_filter.mp member).1
  constructor
  · intro declares transition member
    have created : junction.rewired2 transition ∈ junction.created order :=
      List.mem_append_right _ (List.mem_map_of_mem member)
    obtain ⟨label, leaves⟩ := (exists_transition_iff isJunction returned _).mpr created
    have declared := declares label _ leaves
    rw [junction.rewired2_action] at declared
    exact (ofSecond transition member).mp declared
  · intro declared label transition leaves
    have created := (exists_transition_iff isJunction returned _).mp ⟨label, leaves⟩
    rcases List.mem_append.mp created with one | two
    · rcases List.mem_cons.mp one with rfl | rewired
      · obtain ⟨member, _, type⟩ := TIOSTS.recoverAction_eq_ok isJunction.action
        rw [junction.located_actionsOf order, ← type] at member
        rw [names]
        have declared : junction.action.name ∈
            (junction.declaredActions junction.action.type).map Action.name :=
          List.mem_map_of_mem member
        exact declared
      · obtain ⟨original, member, rfl⟩ := List.mem_map.mp rewired
        rw [names, junction.rewired1_action, Action.changeParameters_name,
          Action.changeParameters_type]
        apply junction.declared1
        exact declared_in_lists copy1 (List.mem_filter.mp member).1
    · obtain ⟨original, member, rfl⟩ := List.mem_map.mp two
      rw [junction.rewired2_action]
      exact (ofSecond original member).mpr (declared original member)

end Declarations

end SequentialComposition

namespace InterruptionComposition

section Declarations

variable {order : IterationOrder} {model1 model2 result : TIOSTS} {parts : Parts}

/-- Of the actions that do not synchronise all are declared but the second model's internal
ones. -/
theorem Parts.declared_of_lists (parts : Parts) {type : ActionType} {name : String}
    (apart : name ∉ parts.eSync)
    (listed : name ∈ (parts.tiosts1.actionsOf type).map Action.name ∨
      type ≠ .internal ∧ name ∈ (parts.tiosts2.actionsOf type).map Action.name) :
    name ∈ (parts.declaredActions type).map Action.name := by
  cases type with
  | input =>
      have either : name ∈ (parts.tiosts1.inputActions ++
          parts.tiosts2.inputActions).map Action.name := by
        rw [List.map_append, List.mem_append]
        exact listed.imp id And.right
      obtain ⟨action, member, rfl⟩ := List.mem_map.mp either
      apply List.mem_map_of_mem
      exact List.mem_filter.mpr ⟨member, by simpa using apart⟩
  | output =>
      rw [Parts.declaredActions, mem_foldl_addOutputAction, List.map_append, List.mem_append]
      exact Or.inr (listed.imp id And.right)
  | internal =>
      rcases listed with one | ⟨impossible, _⟩
      · exact one
      · exact absurd rfl impossible

theorem declaresActions_iff (wellFormed1 : model1.WellFormed) (wellFormed2 : model2.WellFormed)
    (isParts : IsParts order model1 model2 parts)
    (returned : interruptionComposition order model1 model2 = .ok result) :
    result.DeclaresActions ↔ ∀ transition, Taken order parts transition →
      transition.action.type = .internal →
        transition.action.name ∈ parts.tiosts1.internalActions.map Action.name := by
  have copy1 := exactCopy wellFormed1 isParts.copy1
  have copy2 := exactCopy wellFormed2 isParts.copy2
  obtain ⟨origins, held, _⟩ := isParts.returned_origins returned
  have names : ∀ type, (result.actionsOf type).map Action.name =
      (parts.declaredActions type).map Action.name := by
    intro type
    obtain ⟨_, rewired, holds, _⟩ := isParts.returned_holds returned
    rw [holds.actionNames, base_actionNames]
  constructor
  · intro declares origin taken internal
    obtain ⟨label, transition, leaves, moved⟩ := held origin taken
    have declared := declares label transition leaves
    rw [names, moved.action, internal] at declared
    exact declared
  · intro internals label transition leaves
    rw [names]
    rcases origins label transition leaves with
      ⟨apart, origin, listed, moved⟩ | ⟨point, _, canMerge, merged⟩ | ⟨origin, taken, moved⟩
    · apply parts.declared_of_lists apart
      rw [moved.action]
      exact Or.inl (declared_in_lists copy1 listed)
    · rw [merged]
      exact canMerge.declared
    · obtain ⟨listed, apart⟩ := taken.mem
      rw [← moved.action] at apart
      apply parts.declared_of_lists apart
      rw [moved.action]
      by_cases internal : origin.action.type = .internal
      · rw [internal]
        exact Or.inl (internals origin taken internal)
      · exact Or.inr ⟨internal, declared_in_lists copy2 listed⟩

end Declarations

end InterruptionComposition

/-- A sequential composition declares the actions of all its transitions exactly if no
transition it takes from the second model has an internal action, or the action of the
entry transition, that the first model does not declare; an interruption exactly if none
has an internal action that the first model does not declare. -/
theorem compositions_declareActions_iff {order : IterationOrder} {model1 model2 : TIOSTS}
    (wellFormed1 : model1.WellFormed) (wellFormed2 : model2.WellFormed) :
    (∀ junction result, SequentialComposition.IsJunction order model1 model2 junction →
      SequentialComposition.sequentialComposition order model1 model2 = .ok result →
      (result.DeclaresActions ↔ ∀ transition ∈ junction.others2 order,
        ¬ SequentialComposition.Undeclared junction transition)) ∧
    (∀ parts result, InterruptionComposition.IsParts order model1 model2 parts →
      InterruptionComposition.interruptionComposition order model1 model2 = .ok result →
      (result.DeclaresActions ↔ ∀ transition,
        InterruptionComposition.Taken order parts transition →
          transition.action.type = .internal →
            transition.action.name ∈ parts.tiosts1.internalActions.map Action.name)) := by
  constructor
  · intro junction result isJunction returned
    exact SequentialComposition.declaresActions_iff wellFormed1 wellFormed2 isJunction returned
  · intro parts result isParts returned
    exact InterruptionComposition.declaresActions_iff wellFormed1 wellFormed2 isParts returned

namespace WorkInstance

def order : IterationOrder := ⟨id, IterationOrder.id_perm⟩

/-- A model that makes a call. -/
def model1 : TIOSTS :=
  .assemble (.declare "M" [⟨"i", .internal, []⟩, ⟨"call", .output, []⟩] [] [] [])
    ["s", "a", "b"] "s"
    [.bare "s" ⟨"i", .internal, []⟩ "a", .bare "a" ⟨"call", .output, []⟩ "b"]

/-- A model that works after it has been called. -/
def model2 (type : ActionType) : TIOSTS :=
  .assemble (.declare "N" [⟨"j", .internal, []⟩, ⟨"call", .input, []⟩, ⟨"work", type, []⟩]
    [] [] []) ["t", "c", "d", "e"] "t"
    [.bare "t" ⟨"j", .internal, []⟩ "c", .bare "c" ⟨"call", .input, []⟩ "d",
      .bare "d" ⟨"work", type, []⟩ "e"]

theorem wellFormed1 : model1.WellFormed :=
  TIOSTS.assemble_wellFormed (TIOSTS.declare_isBlank _ _ _ _ _) (by decide)

theorem wellFormed2 {type : ActionType} (uses : TIOSTS.Uses
    (.declare "N" [⟨"j", .internal, []⟩, ⟨"call", .input, []⟩, ⟨"work", type, []⟩] [] [] [])
    ["t", "c", "d", "e"] "t"
    [.bare "t" ⟨"j", .internal, []⟩ "c", .bare "c" ⟨"call", .input, []⟩ "d",
      .bare "d" ⟨"work", type, []⟩ "e"]) : (model2 type).WellFormed :=
  TIOSTS.assemble_wellFormed (TIOSTS.declare_isBlank _ _ _ _ _) uses

end WorkInstance

open WorkInstance in
/-- Work that is an input is declared in both compositions. -/
theorem compositions_declare_input :
    (∃ junction result,
      SequentialComposition.IsJunction order model1 (model2 .input) junction ∧
        SequentialComposition.sequentialComposition order model1 (model2 .input) =
          .ok result ∧ result.DeclaresActions) ∧
    ∃ parts result, InterruptionComposition.IsParts order model1 (model2 .input) parts ∧
      InterruptionComposition.interruptionComposition order model1 (model2 .input) =
        .ok result ∧ result.DeclaresActions := by
  have second : (model2 .input).WellFormed := wellFormed2 (by decide)
  obtain ⟨sequential, interruption⟩ :=
    @compositions_declareActions_iff order _ _ wellFormed1 second
  constructor
  · have found : (SequentialComposition.findJunction order model1
        (model2 .input)).toOption.map (fun junction =>
          decide (∀ transition ∈ junction.others2 order,
            ¬ SequentialComposition.Undeclared junction transition)) = some true := by decide
    have ran : (SequentialComposition.sequentialComposition order model1
        (model2 .input)).toOption.isSome = true := by decide
    obtain ⟨junction, isFound, declared⟩ := exists_checked found
    have isJunction := SequentialComposition.isJunction_of_findJunction isFound
    obtain ⟨result, returned⟩ := exists_ok ran
    exact ⟨junction, result, isJunction, returned,
      (sequential junction result isJunction returned).mpr (of_decide_eq_true declared)⟩
  · have found : (InterruptionComposition.findParts order model1
        (model2 .input)).toOption.map (fun parts =>
          decide (∀ transition ∈ parts.tiosts2.getTransitions order,
            transition.action.type = .internal → transition.source = "t" ∧
              transition ∉ parts.kept2 order ∧ transition ∉ parts.others2 order)) =
                some true := by decide
    have ran : (InterruptionComposition.interruptionComposition order model1
        (model2 .input)).toOption.isSome = true := by decide
    obtain ⟨parts, isFound, declared⟩ := exists_checked found
    have isParts := InterruptionComposition.isParts_of_findParts isFound
    obtain ⟨result, returned⟩ := exists_ok ran
    refine ⟨parts, result, isParts, returned, (interruption parts result isParts returned).mpr ?_⟩
    intro transition taken internal
    obtain ⟨_, notKept, notOther⟩ :=
      of_decide_eq_true declared transition taken.mem.1 internal
    rcases taken with kept | ⟨other, _⟩
    · exact absurd kept notKept
    · exact absurd other notOther

open WorkInstance in
/-- Work that is an internal action of the second model is declared in neither. -/
theorem compositions_undeclared_internal :
    (∃ junction result,
      SequentialComposition.IsJunction order model1 (model2 .internal) junction ∧
        SequentialComposition.sequentialComposition order model1 (model2 .internal) =
          .ok result ∧ ¬ result.DeclaresActions) ∧
    ∃ parts result, InterruptionComposition.IsParts order model1 (model2 .internal) parts ∧
      InterruptionComposition.interruptionComposition order model1 (model2 .internal) =
        .ok result ∧ ¬ result.DeclaresActions := by
  have second : (model2 .internal).WellFormed := wellFormed2 (by decide)
  constructor
  · have found : (SequentialComposition.findJunction order model1
        (model2 .internal)).toOption.map (fun junction =>
          decide (∃ transition ∈ junction.others2 order,
            SequentialComposition.Undeclared junction transition)) = some true := by decide
    have ran : (SequentialComposition.sequentialComposition order model1
        (model2 .internal)).toOption.isSome = true := by decide
    obtain ⟨junction, isFound, checked⟩ := exists_checked found
    have isJunction := SequentialComposition.isJunction_of_findJunction isFound
    obtain ⟨result, returned⟩ := exists_ok ran
    refine ⟨junction, result, isJunction, returned, ?_⟩
    intro declares
    obtain ⟨transition, member, undeclared⟩ := of_decide_eq_true checked
    exact (SequentialComposition.declaresActions_iff wellFormed1 second isJunction
      returned).mp declares transition member undeclared
  · have found : (InterruptionComposition.findParts order model1
        (model2 .internal)).toOption.map (fun parts =>
          decide (∃ transition ∈ parts.others2 order,
            InterruptionComposition.Taken order parts transition ∧
              transition.action.type = .internal ∧
                transition.action.name ∉ parts.tiosts1.internalActions.map Action.name)) =
                  some true := by decide
    have ran : (InterruptionComposition.interruptionComposition order model1
        (model2 .internal)).toOption.isSome = true := by decide
    obtain ⟨parts, isFound, checked⟩ := exists_checked found
    have isParts := InterruptionComposition.isParts_of_findParts isFound
    obtain ⟨result, returned⟩ := exists_ok ran
    refine ⟨parts, result, isParts, returned, ?_⟩
    intro declares
    obtain ⟨transition, _, taken, internal, undeclared⟩ := of_decide_eq_true checked
    exact undeclared ((InterruptionComposition.declaresActions_iff wellFormed1 second isParts
      returned).mp declares transition taken internal)

end Symbolrt
