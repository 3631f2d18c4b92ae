import Symbolrt.Compositions.Relabelling

/-!
# Renaming

The action of one name is replaced by an action of another name and the same type.  The
new action has no parameters, and the list of internal actions is taken over as it is.
-/

namespace Symbolrt

namespace RenamingOperator

/-- An action is renamed when its name and type are those of `a`. -/
def renamedAction (a b action : Action) : Action :=
  if !action.equals a then action else b

def renamedActions (a b : Action) (actions : List Action) : List Action :=
  actions.map (renamedAction a b)

/-- `none` stands for lists with an action of another type; the source does not look at the
types of the actions in its lists. -/
def renamedAlphabet (a b : Action) (alphabet : Alphabet) : Option Alphabet :=
  if typed : (∀ action ∈ renamedActions a b alphabet.inputActions, action.type = .input) ∧
      ∀ action ∈ renamedActions a b alphabet.outputActions, action.type = .output then
    some
      { inputActions := renamedActions a b alphabet.inputActions
        outputActions := renamedActions a b alphabet.outputActions
        internalActions := alphabet.internalActions
        inputActions_type := typed.1
        outputActions_type := typed.2
        internalActions_type := alphabet.internalActions_type }
  else
    none

/-- `none` stands for a result whose lists hold an action of another type. -/
def renamingOperator (order : IterationOrder) (model1 : TIOSTS) (aName bName : String) :
    Except Failure (Option TIOSTS) := do
  let tiosts1 ← model1.clone order
  -- without an action of the name a stays null, and its type is read for b
  let a ← deref (tiosts1.lastAction aName)
  let b := (tiosts1.lastAction bName).getD ⟨bName, a.type, []⟩
  match renamedAlphabet a b tiosts1.toAlphabet with
  | none => return none
  | some alphabet => do
      let result := tiosts1.initializeWith order
        ("REPLACE " ++ a.name ++ " BY " ++ b.name ++ " IN " ++ tiosts1.name) alphabet
      let result ← (tiosts1.getTransitions order).foldlM (TIOSTS.createRelabelled a b) result
      return some result

section Lists

variable {a b : Action} {actions : List Action} {action : Action}

theorem renamedAction_of_eq (same : action.name = a.name) : renamedAction a b action = b := by
  apply if_neg
  simpa [Action.equals] using same

theorem renamedAction_of_ne (different : action.name ≠ a.name) :
    renamedAction a b action = action := by
  apply if_pos
  simpa [Action.equals] using different

theorem renamedActions_congr {other : Action} (same : a.name = other.name)
    (actions : List Action) : renamedActions a b actions = renamedActions other b actions := by
  apply List.map_congr_left
  intro action _
  unfold renamedAction Action.equals
  rw [same]

theorem mem_renamedActions : action ∈ renamedActions a b actions ↔
    action ∈ actions ∧ action.name ≠ a.name ∨
      action = b ∧ ∃ original ∈ actions, original.name = a.name := by
  rw [renamedActions, List.mem_map]
  constructor
  · rintro ⟨original, member, here⟩
    by_cases same : original.name = a.name
    · rw [renamedAction_of_eq same] at here
      exact Or.inr ⟨here.symm, original, member, same⟩
    · rw [renamedAction_of_ne same] at here
      subst here
      exact Or.inl ⟨member, same⟩
  · rintro (⟨member, different⟩ | ⟨rfl, original, member, same⟩)
    · exact ⟨action, member, renamedAction_of_ne different⟩
    · exact ⟨original, member, renamedAction_of_eq same⟩

theorem renamedActions_eq_self (unnamed : ∀ action ∈ actions, action.name ≠ a.name) :
    renamedActions a b actions = actions := by
  have same : actions.map (renamedAction a b) = actions.map id := by
    apply List.map_congr_left
    exact fun action member => renamedAction_of_ne (unnamed action member)
  rw [renamedActions, same, List.map_id]

theorem renamedActions_back (c : Action) (fresh : ∀ action ∈ actions, action.name ≠ b.name) :
    renamedActions b c (renamedActions a b actions) = renamedActions a c actions := by
  have each : ∀ action ∈ actions,
      renamedAction b c (renamedAction a b action) = renamedAction a c action := by
    intro action member
    by_cases same : action.name = a.name
    · rw [renamedAction_of_eq same, renamedAction_of_eq same, renamedAction_of_eq rfl]
    · rw [renamedAction_of_ne same, renamedAction_of_ne same,
        renamedAction_of_ne (fresh action member)]
  rw [renamedActions, renamedActions, List.map_map]
  exact List.map_congr_left each

theorem renamedActions_eq_self_iff {c : Action} :
    renamedActions a c actions = actions ↔
      ∀ action ∈ actions, action.name = a.name → action = c := by
  have asMap : renamedActions a c actions = actions ↔
      actions.map (renamedAction a c) = actions.map id := by
    rw [List.map_id, renamedActions]
  rw [asMap, List.map_inj_left]
  constructor
  · intro fixed action member same
    have here := fixed action member
    rw [renamedAction_of_eq same] at here
    exact here.symm
  · intro only action member
    by_cases same : action.name = a.name
    · rw [renamedAction_of_eq same]
      exact (only action member same).symm
    · exact renamedAction_of_ne same

end Lists

/-- All declared actions of the name have the type. -/
def OneType (model : TIOSTS) (name : String) (type : ActionType) : Prop :=
  ∀ action ∈ model.getActions, action.name = name → action.type = type

section Alphabets

variable {a b : Action} {alphabet renamed : Alphabet}

theorem renamedAlphabet_lists (typed : renamedAlphabet a b alphabet = some renamed) :
    renamed.inputActions = renamedActions a b alphabet.inputActions ∧
      renamed.outputActions = renamedActions a b alphabet.outputActions ∧
      renamed.internalActions = alphabet.internalActions := by
  unfold renamedAlphabet at typed
  split at typed
  · obtain rfl := Option.some.inj typed
    exact ⟨rfl, rfl, rfl⟩
  · cases typed

/-- The new action fits into the lists of inputs and outputs in which the old one is. -/
theorem exists_renamedAlphabet_iff :
    (∃ renamed, renamedAlphabet a b alphabet = some renamed) ↔
      ∀ type, type ≠ .internal → ∀ action ∈ alphabet.actionsOf type,
        action.name = a.name → b.type = type := by
  have each : ∀ {type : ActionType} {actions : List Action},
      (∀ action ∈ actions, action.type = type) →
        ((∀ action ∈ renamedActions a b actions, action.type = type) ↔
          ∀ action ∈ actions, action.name = a.name → b.type = type) := by
    intro type actions types
    constructor
    · intro renamedTypes action member same
      exact renamedTypes b (mem_renamedActions.mpr (Or.inr ⟨rfl, action, member, same⟩))
    · intro fits action member
      rcases mem_renamedActions.mp member with ⟨old, _⟩ | ⟨rfl, original, old, same⟩
      · exact types action old
      · exact fits original old same
  have inputs := each alphabet.inputActions_type
  have outputs := each alphabet.outputActions_type
  constructor
  · rintro ⟨renamed, found⟩ type ordinary
    unfold renamedAlphabet at found
    split at found
    · rename_i typed
      cases type with
      | input => exact inputs.mp typed.1
      | output => exact outputs.mp typed.2
      | internal => exact absurd rfl ordinary
    · cases found
  · intro fits
    refine ⟨_, dif_pos ⟨inputs.mpr ?_, outputs.mpr ?_⟩⟩
    · exact fits .input (by decide)
    · exact fits .output (by decide)

end Alphabets

section Once

variable {order : IterationOrder} {model copy result : TIOSTS} {a b last : Action}
  {aName bName : String}

theorem lastAction_none (fresh : ∀ action ∈ model.getActions, action.name ≠ bName) :
    model.lastAction bName = none := by
  cases found : model.lastAction bName with
  | none => rfl
  | some action =>
      obtain ⟨member, same⟩ := TIOSTS.lastAction_eq_some found
      exact absurd same (fresh action member)

theorem lastAction_internal {action : Action} (member : action ∈ model.internalActions)
    (found : model.lastAction action.name = some last) : last.type = .internal := by
  rw [TIOSTS.lastAction, Loops.foldl_last, TIOSTS.getActions, List.filter_append,
    List.getLast?_append] at found
  cases behind : (model.internalActions.filter
      (fun other => action.name = other.name)).getLast? with
  | none =>
      rw [List.getLast?_eq_none_iff] at behind
      have listed : action ∈ model.internalActions.filter
          (fun other => action.name = other.name) := List.mem_filter.mpr ⟨member, by simp⟩
      rw [behind] at listed
      cases listed
  | some other =>
      rw [behind] at found
      obtain rfl := Option.some.inj found
      exact model.internalActions_type other (List.mem_filter.mp (List.mem_of_getLast? behind)).1

theorem getActions_copy (actionsOf : ∀ type, copy.actionsOf type = model.actionsOf type) :
    copy.getActions = model.getActions := by
  have inputs := actionsOf .input
  have outputs := actionsOf .output
  have internals := actionsOf .internal
  simp only [Alphabet.actionsOf] at inputs outputs internals
  rw [TIOSTS.getActions, inputs, outputs, internals, TIOSTS.getActions]

theorem lastAction_copy (actionsOf : ∀ type, copy.actionsOf type = model.actionsOf type)
    (name : String) : copy.lastAction name = model.lastAction name := by
  rw [TIOSTS.lastAction, TIOSTS.lastAction, getActions_copy actionsOf]

theorem renamingOperator_ok (isCopy : TIOSTS.IsExactCopy order model copy)
    (copied : model.clone order = .ok copy) {alphabet : Alphabet}
    (found : model.lastAction aName = some last)
    (chosen : (model.lastAction bName).getD ⟨bName, last.type, []⟩ = b)
    (typed : renamedAlphabet last b copy.toAlphabet = some alphabet) :
    ∃ result, renamingOperator order model aName bName = .ok (some result) ∧
      IsRelabelling order alphabet last b copy result := by
  obtain ⟨result, returned, isRelabelling⟩ := createRelabelled_ok isCopy
    ("REPLACE " ++ last.name ++ " BY " ++ b.name ++ " IN " ++ copy.name) alphabet last b
  refine ⟨result, ?_, isRelabelling⟩
  rw [renamingOperator, copied, ok_bind, lastAction_copy isCopy.actionsOf, found, deref_some,
    ok_bind]
  simp only [lastAction_copy isCopy.actionsOf, chosen, typed]
  rw [returned]
  rfl

theorem renamingOperator_returned (wellFormed : model.WellFormed)
    (returned : renamingOperator order model aName bName = .ok (some result)) :
    ∃ copy last b alphabet, TIOSTS.IsExactCopy order model copy ∧
      model.lastAction aName = some last ∧
      (model.lastAction bName).getD ⟨bName, last.type, []⟩ = b ∧
      renamedAlphabet last b copy.toAlphabet = some alphabet ∧
      IsRelabelling order alphabet last b copy result := by
  obtain ⟨copy, copied, isCopy⟩ := TIOSTS.clone_isExactCopy order wellFormed
  have runs := returned
  rw [renamingOperator, copied, ok_bind, lastAction_copy isCopy.actionsOf] at runs
  obtain ⟨last, found, runs⟩ := bind_eq_ok.mp runs
  rw [deref_eq_ok] at found
  simp only [lastAction_copy isCopy.actionsOf] at runs
  generalize chosen : (model.lastAction bName).getD ⟨bName, last.type, []⟩ = b at runs
  cases typed : renamedAlphabet last b copy.toAlphabet with
  | none =>
      rw [typed] at runs
      cases runs
  | some alphabet =>
      obtain ⟨other, otherReturned, isRelabelling⟩ :=
        renamingOperator_ok isCopy copied found chosen typed
      obtain rfl := Option.some.inj (Except.ok.inj (returned.symm.trans otherReturned))
      exact ⟨copy, last, b, alphabet, isCopy, found, chosen, typed, isRelabelling⟩

end Once

/-- The new action of a renaming. -/
def renamedTo (a : Action) (bName : String) : Action := ⟨bName, a.type, []⟩

/-- What renaming an input or output that is declared in one list returns. -/
structure Renames (order : IterationOrder) (model : TIOSTS) (a : Action) (bName : String)
    (copy result : TIOSTS) : Prop where
  isCopy : TIOSTS.IsExactCopy order model copy
  returned : renamingOperator order model a.name bName = .ok (some result)
  isRelabelling : IsRelabelling order result.toAlphabet a (renamedTo a bName) copy result
  actionsOf : ∀ type, result.actionsOf type =
    renamedActions a (renamedTo a bName) (model.actionsOf type)
  wellFormed : result.WellFormed

section Returns

variable {order : IterationOrder} {model : TIOSTS} {a : Action} {bName : String}

theorem exists_renames (order : IterationOrder) (wellFormed : model.WellFormed)
    (declared : a ∈ model.getActions) (fresh : ∀ action ∈ model.getActions, action.name ≠ bName)
    (ordinary : a.type ≠ .internal) (oneType : OneType model a.name a.type) :
    ∃ copy result, Renames order model a bName copy result := by
  obtain ⟨copy, copied, isCopy⟩ := TIOSTS.clone_isExactCopy order wellFormed
  obtain ⟨last, found⟩ := TIOSTS.exists_lastAction declared
  obtain ⟨lastMember, same⟩ := TIOSTS.lastAction_eq_some found
  have lastType : last.type = a.type := oneType last lastMember same
  have chosen : (model.lastAction bName).getD ⟨bName, last.type, []⟩ = renamedTo a bName := by
    rw [lastAction_none fresh, Option.getD_none, lastType, renamedTo]
  have types : ∀ type, ∀ action ∈ model.actionsOf type, action.name = a.name →
      a.type = type := by
    intro type action member name
    rw [← oneType action (TIOSTS.mem_getActions.mpr ⟨type, member⟩) name]
    exact model.actionsOf_type type action member
  obtain ⟨alphabet, typed⟩ : ∃ alphabet,
      renamedAlphabet last (renamedTo a bName) copy.toAlphabet = some alphabet := by
    apply exists_renamedAlphabet_iff.mpr
    intro type _ action member name
    rw [isCopy.actionsOf] at member
    exact types type action member (name.trans same)
  obtain ⟨result, returned, isRelabelling⟩ :=
    renamingOperator_ok isCopy copied found chosen typed
  have alphabetEq := isRelabelling.alphabet_eq
  obtain ⟨inputs, outputs, internals⟩ := renamedAlphabet_lists typed
  have actionsOf : ∀ type, result.actionsOf type =
      renamedActions a (renamedTo a bName) (model.actionsOf type) := by
    intro type
    rw [alphabetEq, ← isCopy.actionsOf, ← renamedActions_congr same]
    cases type with
    | input => exact inputs
    | output => exact outputs
    | internal =>
        have unnamed : ∀ action ∈ copy.internalActions, action.name ≠ last.name := by
          intro action member name
          have listed : action ∈ model.actionsOf .internal := by
            rw [← isCopy.actionsOf]
            exact member
          exact ordinary (types .internal action listed (name.trans same))
        exact internals.trans (renamedActions_eq_self unnamed).symm
  have relabels : IsRelabelling order result.toAlphabet a (renamedTo a bName) copy result := by
    rw [alphabetEq]
    exact isRelabelling.congr same
  refine ⟨copy, result, isCopy, returned, relabels, actionsOf, ?_⟩
  apply relabels.wellFormed
  intro label transition leaves
  obtain ⟨original, listed, rfl⟩ := relabels.exists_transition_iff.mp ⟨label, leaves⟩
  by_cases named : original.action.name = a.name
  · rw [Transition.relabel_of_eq _ named, actionsOf]
    apply List.mem_map_of_mem
    obtain ⟨type, member⟩ := TIOSTS.mem_getActions.mp declared
    rw [← types type a member rfl] at member
    exact mem_renamedActions.mpr (Or.inr ⟨rfl, a, member, rfl⟩)
  · rw [Transition.relabel_of_ne _ named, actionsOf]
    obtain ⟨action, member, name⟩ := List.mem_map.mp (declared_in_lists isCopy listed)
    rw [isCopy.actionsOf] at member
    rw [← name]
    apply List.mem_map_of_mem
    apply mem_renamedActions.mpr
    left
    refine ⟨member, ?_⟩
    rw [name]
    exact named

end Returns

/-- Only the initial location is flagged, and the initial condition is the guard of all
transitions from there. -/
structure StartsOnce (order : IterationOrder) (model : TIOSTS) : Prop where
  flagged : ∀ label, model.isInitial label = true → model.initialLocation = some label
  guards : ∀ transition ∈ model.getTransitions order, model.isInitial transition.source = true →
    model.initialCondition = some transition.dataGuard

/-- The other model starts as the model does. -/
structure SameStart (model other : TIOSTS) : Prop where
  isInitial : ∀ label, other.isInitial label = model.isInitial label
  initialLocation : other.initialLocation = model.initialLocation
  initialCondition : other.initialCondition = model.initialCondition

section Starts

variable {order : IterationOrder} {model copy result : TIOSTS}

theorem StartsOnce.lastFlagged (starts : StartsOnce order model) (wellFormed : model.WellFormed) :
    model.lastFlagged order = model.initialLocation := by
  rw [TIOSTS.lastFlagged]
  cases last : ((model.getLocations order).filter Location.isInitialLocation).getLast? with
  | none =>
      rw [List.getLast?_eq_none_iff, List.filter_eq_nil_iff] at last
      cases initial : model.initialLocation with
      | none => rfl
      | some label =>
          obtain ⟨location, found, flagged⟩ := wellFormed.initial_registered initial
          exact absurd flagged
            (last location ((TIOSTS.mem_getLocations order model).mpr ⟨label, found⟩))
  | some location =>
      obtain ⟨member, flagged⟩ := List.mem_filter.mp (List.mem_of_getLast? last)
      obtain ⟨label, found⟩ := (TIOSTS.mem_getLocations order model).mp member
      rw [← wellFormed.label_eq found] at found
      refine (starts.flagged location.label ?_).symm
      rw [TIOSTS.isInitial, found]
      exact flagged

/-- Creating transitions from the initial location with its guard keeps the initial
condition. -/
theorem lastGuard_eq {condition : Option DataGuard} {initial : String → Bool}
    {created : List Transition}
    (guards : ∀ transition ∈ created, initial transition.source = true →
      condition = some transition.dataGuard) :
    (((created.filter (fun transition => initial transition.source)).getLast?).map
      Transition.dataGuard).or condition = condition := by
  cases last : (created.filter (fun transition => initial transition.source)).getLast? with
  | none => rfl
  | some transition =>
      obtain ⟨member, isInitial⟩ := List.mem_filter.mp (List.mem_of_getLast? last)
      rw [guards transition member isInitial]
      rfl

/-- A copy starts as the model does, and once. -/
theorem StartsOnce.copied (starts : StartsOnce order model) (wellFormed : model.WellFormed)
    (isCopy : TIOSTS.IsExactCopy order model copy) :
    SameStart model copy ∧ StartsOnce order copy := by
  have guards : ∀ transition ∈ model.copiedTransitions order,
      model.isInitial transition.source = true →
        model.initialCondition = some transition.dataGuard := by
    intro transition member isInitial
    obtain ⟨original, listed, rfl⟩ := List.mem_map.mp member
    exact starts.guards original listed isInitial
  have same : SameStart model copy := by
    constructor
    · exact isCopy.isInitial
    · exact isCopy.initialLocation.trans (starts.lastFlagged wellFormed)
    · exact isCopy.initialCondition.trans (lastGuard_eq guards)
  refine ⟨same, ?_, ?_⟩
  · intro label isInitial
    rw [same.initialLocation]
    exact starts.flagged label ((same.isInitial label).symm.trans isInitial)
  · intro transition member isInitial
    rw [same.initialCondition]
    exact guards transition ((copy_transitions_perm isCopy).mem_iff.mp member)
      ((same.isInitial _).symm.trans isInitial)

/-- What is made of the copy starts as the copy does. -/
theorem StartsOnce.relabelled {alphabet : Alphabet} {a replacement : Action}
    (starts : StartsOnce order copy) (wellFormed : copy.WellFormed)
    (isRelabelling : IsRelabelling order alphabet a replacement copy result) :
    SameStart copy result ∧ StartsOnce order result := by
  have guards : ∀ transition ∈ (copy.getTransitions order).map (Transition.relabel a replacement),
      copy.isInitial transition.source = true →
        copy.initialCondition = some transition.dataGuard := by
    intro transition member isInitial
    obtain ⟨original, listed, rfl⟩ := List.mem_map.mp member
    rw [Transition.relabel_source] at isInitial
    rw [Transition.relabel_dataGuard]
    exact starts.guards original listed isInitial
  have same : SameStart copy result := by
    constructor
    · exact isRelabelling.isInitial
    · exact isRelabelling.initialLocation.trans (starts.lastFlagged wellFormed)
    · exact isRelabelling.initialCondition.trans (lastGuard_eq guards)
  refine ⟨same, ?_, ?_⟩
  · intro label isInitial
    rw [same.initialLocation]
    exact starts.flagged label ((same.isInitial label).symm.trans isInitial)
  · intro transition member isInitial
    rw [same.initialCondition]
    obtain ⟨key, stored⟩ := (TIOSTS.mem_getTransitions order result).mp member
    exact guards transition (isRelabelling.stores.key_eq stored).1
      ((same.isInitial _).symm.trans isInitial)

theorem SameStart.trans (first : SameStart model copy) (second : SameStart copy result) :
    SameStart model result where
  isInitial := fun label => (second.isInitial label).trans (first.isInitial label)
  initialLocation := second.initialLocation.trans first.initialLocation
  initialCondition := second.initialCondition.trans first.initialCondition

end Starts

/-- The declarations and locations are those of the model, and the transitions those of its
copies.  The start is the same for a model with one start only. -/
structure SameUpToName (order : IterationOrder) (model returned : TIOSTS) : Prop where
  inputActions : returned.inputActions = model.inputActions
  outputActions : returned.outputActions = model.outputActions
  internalActions : returned.internalActions = model.internalActions
  modelVariables : returned.modelVariables = model.modelVariables
  actionParameters : returned.actionParameters = model.actionParameters
  clocks : returned.clocks = model.clocks
  isRegistered : ∀ label, returned.IsRegistered label ↔ model.IsRegistered label
  isInitial : ∀ label, returned.isInitial label = model.isInitial label
  starts : StartsOnce order model → SameStart model returned
  transitions : (returned.getTransitions order).Perm
    ((model.getTransitions order).map model.copied)

/-- Renaming the action and renaming it back returns the model. -/
def RenamesBack (order : IterationOrder) (model : TIOSTS) (a : Action) (bName : String) :
    Prop :=
  ∃ renamed returned, renamingOperator order model a.name bName = .ok (some renamed) ∧
    renamingOperator order renamed bName a.name = .ok (some returned) ∧
      SameUpToName order model returned

/-- The action of the name is declared without parameters, under one type only. -/
def BareOnly (model : TIOSTS) (a : Action) : Prop :=
  ∀ action ∈ model.getActions, action.name = a.name → action = ⟨a.name, a.type, []⟩

section Twice

variable {order : IterationOrder} {model copy renamed copied returned : TIOSTS} {a : Action}
  {bName : String}

theorem getActions_renamed (renames : Renames order model a bName copy renamed)
    {action : Action} (member : action ∈ renamed.getActions) :
    (action ∈ model.getActions ∧ action.name ≠ a.name) ∨ action = renamedTo a bName := by
  obtain ⟨type, listed⟩ := TIOSTS.mem_getActions.mp member
  rw [renames.actionsOf] at listed
  rcases mem_renamedActions.mp listed with ⟨old, different⟩ | ⟨isNew, _⟩
  · exact Or.inl ⟨TIOSTS.mem_getActions.mpr ⟨type, old⟩, different⟩
  · exact Or.inr isNew

/-- The action can be renamed back. -/
theorem exists_renamed_back (renames : Renames order model a bName copy renamed)
    (declared : a ∈ model.getActions) (fresh : ∀ action ∈ model.getActions, action.name ≠ bName)
    (ordinary : a.type ≠ .internal) :
    ∃ copied returned,
      Renames order renamed (renamedTo a bName) a.name copied returned := by
  have different : bName ≠ a.name := fun same => fresh a declared same.symm
  apply exists_renames order renames.wellFormed
  · obtain ⟨type, listed⟩ := TIOSTS.mem_getActions.mp declared
    apply TIOSTS.mem_getActions.mpr
    refine ⟨type, ?_⟩
    rw [renames.actionsOf]
    exact mem_renamedActions.mpr (Or.inr ⟨rfl, a, listed, rfl⟩)
  · intro action member
    rcases getActions_renamed renames member with ⟨_, apart⟩ | rfl
    · exact apart
    · exact different
  · exact ordinary
  · intro action member name
    rcases getActions_renamed renames member with ⟨old, _⟩ | rfl
    · exact absurd name (fresh action old)
    · rfl

theorem actionsOf_returned (renames : Renames order model a bName copy renamed)
    (back : Renames order renamed (renamedTo a bName) a.name copied returned)
    (fresh : ∀ action ∈ model.getActions, action.name ≠ bName) (type : ActionType) :
    returned.actionsOf type =
      renamedActions a ⟨a.name, a.type, []⟩ (model.actionsOf type) := by
  rw [back.actionsOf, renames.actionsOf]
  apply renamedActions_back
  exact fun action member => fresh action (TIOSTS.mem_getActions.mpr ⟨type, member⟩)

theorem actionsOf_returned_iff (renames : Renames order model a bName copy renamed)
    (back : Renames order renamed (renamedTo a bName) a.name copied returned)
    (fresh : ∀ action ∈ model.getActions, action.name ≠ bName) :
    (∀ type, returned.actionsOf type = model.actionsOf type) ↔ BareOnly model a := by
  constructor
  · intro same action member name
    obtain ⟨type, listed⟩ := TIOSTS.mem_getActions.mp member
    have fixed := same type
    rw [actionsOf_returned renames back fresh] at fixed
    exact renamedActions_eq_self_iff.mp fixed action listed name
  · intro bare type
    rw [actionsOf_returned renames back fresh]
    apply renamedActions_eq_self_iff.mpr
    exact fun action member name =>
      bare action (TIOSTS.mem_getActions.mpr ⟨type, member⟩) name

/-- Looking up an action that is not renamed returns the same action. -/
theorem recoverAction_renamed (renames : Renames order model a bName copy renamed)
    {action : Action} (notOld : action.name ≠ a.name) (notNew : action.name ≠ bName) :
    renamed.recoverAction action = model.recoverAction action := by
  unfold TIOSTS.recoverAction
  rw [renames.actionsOf]
  have same : ∀ actions : List Action,
      (renamedActions a (renamedTo a bName) actions).find? (fun other => action.equals other) =
        actions.find? (fun other => action.equals other) := by
    intro actions
    induction actions with
    | nil => rfl
    | cons first rest induction =>
        rw [renamedActions, List.map_cons]
        by_cases named : first.name = a.name
        · rw [renamedAction_of_eq named, List.find?_cons_of_neg, List.find?_cons_of_neg]
          · exact induction
          · simpa [Action.equals, named] using notOld
          · simpa [Action.equals, renamedTo] using notNew
        · rw [renamedAction_of_ne named]
          by_cases matched : action.equals first = true
          · rw [List.find?_cons_of_pos matched, List.find?_cons_of_pos matched]
          · rw [List.find?_cons_of_neg matched, List.find?_cons_of_neg matched]
            exact induction
  rw [same]

theorem recoverAction_recovered {action recovered : Action}
    (found : model.recoverAction action = .ok recovered) :
    model.recoverAction recovered = .ok recovered := by
  obtain ⟨_, name, type⟩ := TIOSTS.recoverAction_eq_ok found
  rw [← found]
  unfold TIOSTS.recoverAction Action.equals
  rw [name, type]

theorem renumber_renumber (allClocks : List String) (guard : ClockGuard) :
    (guard.renumber allClocks).renumber allClocks = guard.renumber allClocks := by
  unfold ClockGuard.renumber
  rw [List.map_map]
  rfl

/-- A transition that has been renamed and renamed back is the copied one. -/
theorem relabel_back (renames : Renames order model a bName copy renamed)
    (wellFormed : model.WellFormed)
    (fresh : ∀ action ∈ model.getActions, action.name ≠ bName) (bare : BareOnly model a)
    {transition : Transition} (member : transition ∈ model.getTransitions order) :
    (renamed.copied ((model.copied transition).relabel a (renamedTo a bName))).relabel
        (renamedTo a bName) ⟨a.name, a.type, []⟩ = model.copied transition := by
  have clocks : renamed.clocks = model.clocks :=
    renames.isRelabelling.clocks.trans renames.isCopy.clocks
  obtain ⟨key, stored⟩ := (TIOSTS.mem_getTransitions order model).mp member
  obtain ⟨declaredAction, found⟩ := wellFormed.action_declared (wellFormed.stored stored).2
  obtain ⟨recovered, recovers, _⟩ := TIOSTS.recoverAction_ok found
  obtain ⟨listed, name, type⟩ := TIOSTS.recoverAction_eq_ok recovers
  have inActions : recovered ∈ model.getActions := TIOSTS.mem_getActions.mpr ⟨_, listed⟩
  have copiedEq : model.copied transition =
      { transition with
        clockGuard := transition.clockGuard.renumber model.clocks
        action := recovered } := by
    rw [TIOSTS.copied, recovers]
    rfl
  rw [copiedEq]
  by_cases named : recovered.name = a.name
  · rw [@Transition.relabel_of_eq a _
      { transition with
        clockGuard := transition.clockGuard.renumber model.clocks
        action := recovered } named, Transition.relabel_of_eq]
    · rw [bare recovered inActions named]
      simp only [TIOSTS.copied, clocks, renumber_renumber]
    · rw [TIOSTS.copied_actionName]
  · have unrenamed := recoverAction_renamed renames named (fresh recovered inActions)
    rw [@Transition.relabel_of_ne a _
      { transition with
        clockGuard := transition.clockGuard.renumber model.clocks
        action := recovered } named, Transition.relabel_of_ne]
    · simp only [TIOSTS.copied, unrenamed, recoverAction_recovered recovers, clocks,
        renumber_renumber]
      rfl
    · rw [TIOSTS.copied_actionName]
      exact fresh recovered inActions

theorem starts_returned (renames : Renames order model a bName copy renamed)
    (back : Renames order renamed (renamedTo a bName) a.name copied returned)
    (wellFormed : model.WellFormed) (starts : StartsOnce order model) :
    SameStart model returned := by
  obtain ⟨sameCopy, copyStarts⟩ := starts.copied wellFormed renames.isCopy
  obtain ⟨sameRenamed, renamedStarts⟩ :=
    copyStarts.relabelled renames.isCopy.wellFormed renames.isRelabelling
  obtain ⟨sameCopied, copiedStarts⟩ := renamedStarts.copied renames.wellFormed back.isCopy
  obtain ⟨sameReturned, _⟩ :=
    copiedStarts.relabelled back.isCopy.wellFormed back.isRelabelling
  exact ((sameCopy.trans sameRenamed).trans sameCopied).trans sameReturned

/-- No transition is lost on the way there and back exactly if none is on the way there. -/
theorem transitions_returned_iff (renames : Renames order model a bName copy renamed)
    (back : Renames order renamed (renamedTo a bName) a.name copied returned)
    (wellFormed : model.WellFormed)
    (fresh : ∀ action ∈ model.getActions, action.name ≠ bName) (bare : BareOnly model a) :
    (returned.getTransitions order).Perm ((model.getTransitions order).map model.copied) ↔
      KeysApart a (renamedTo a bName) (model.getTransitions order) := by
  have there := renames.isRelabelling.transitions_perm_iff wellFormed renames.isCopy
  have andBack := back.isRelabelling.transitions_perm_iff renames.wellFormed back.isCopy
  constructor
  · intro permutation
    apply renames.isRelabelling.keysApart wellFormed renames.isCopy
    have whole := permutation.length_eq
    rw [List.length_map] at whole
    rw [← whole]
    exact back.isRelabelling.length_le back.isCopy
  · intro apart
    have renamedPerm := there.mpr apart
    have relabelled : ((renamed.getTransitions order).map (fun transition =>
        (renamed.copied transition).relabel (renamedTo a bName) ⟨a.name, a.type, []⟩)).Perm
          ((model.getTransitions order).map model.copied) := by
      have mapped := renamedPerm.map (fun transition =>
        (renamed.copied transition).relabel (renamedTo a bName) ⟨a.name, a.type, []⟩)
      rw [List.map_map] at mapped
      apply mapped.trans
      apply List.Perm.of_eq
      apply List.map_congr_left
      exact fun transition member => relabel_back renames wellFormed fresh bare member
    refine (andBack.mpr ?_).trans relabelled
    rw [keysApart_iff (getTransitions_nodup renames.wellFormed)]
    have keys : ((renamed.getTransitions order).map
        (Transition.relabel (renamedTo a bName) ⟨a.name, a.type, []⟩)).map Transition.key =
          ((renamed.getTransitions order).map (fun transition =>
            (renamed.copied transition).relabel (renamedTo a bName)
              ⟨a.name, a.type, []⟩)).map Transition.key := by
      rw [List.map_map, List.map_map]
      apply List.map_congr_left
      exact fun transition _ => (relabel_copied_key transition).symm
    have copiedKeys : ((model.getTransitions order).map model.copied).map Transition.key =
        (model.getTransitions order).map Transition.key := by
      rw [List.map_map]
      apply List.map_congr_left
      exact fun transition _ => model.copied_key transition
    have onRenamed := getTransitions_keys_nodup wellFormed order
    rw [← copiedKeys, ← (relabelled.map Transition.key).nodup_iff, ← keys] at onRenamed
    exact onRenamed

end Twice

/-- An internal action is not replaced in its list, so it cannot be renamed back. -/
theorem ordinary_of_renamesBack {order : IterationOrder} {model : TIOSTS} {a : Action}
    {bName : String} (wellFormed : model.WellFormed) (declared : a ∈ model.getActions)
    (fresh : ∀ action ∈ model.getActions, action.name ≠ bName)
    (renamesBack : RenamesBack order model a bName) :
    a.type ≠ .internal ∧ OneType model a.name a.type := by
  obtain ⟨renamed, returned, first, second, _⟩ := renamesBack
  obtain ⟨copy, last, b, alphabet, isCopy, found, chosen, typed, isRelabelling⟩ :=
    renamingOperator_returned wellFormed first
  have lastName := (TIOSTS.lastAction_eq_some found).2
  have bType : b.type = last.type := by
    rw [← chosen, lastAction_none fresh]
    rfl
  have fits := exists_renamedAlphabet_iff.mp ⟨alphabet, typed⟩
  have oneType : OneType model a.name last.type := by
    intro action member name
    obtain ⟨type, listed⟩ := TIOSTS.mem_getActions.mp member
    have actionType : action.type = type := model.actionsOf_type type action listed
    by_cases internal : type = .internal
    · subst internal
      rw [← name] at found
      rw [lastAction_internal listed found]
      exact actionType
    · rw [← isCopy.actionsOf] at listed
      rw [actionType, ← bType]
      exact (fits type internal action listed (name.trans lastName.symm)).symm
  have aType : a.type = last.type := oneType a declared rfl
  rw [aType]
  refine ⟨?_, oneType⟩
  intro internal
  have unchanged : ∀ type, alphabet.actionsOf type = model.actionsOf type := by
    intro type
    obtain ⟨inputs, outputs, internals⟩ := renamedAlphabet_lists typed
    have unnamed : type ≠ .internal → ∀ action ∈ copy.actionsOf type,
        action.name ≠ last.name := by
      intro ordinary action listed name
      apply ordinary
      rw [← fits type ordinary action listed name, bType]
      exact internal
    rw [← isCopy.actionsOf]
    cases type with
    | input => exact inputs.trans (renamedActions_eq_self (unnamed (by decide)))
    | output => exact outputs.trans (renamedActions_eq_self (unnamed (by decide)))
    | internal => exact internals
  obtain ⟨copied, copies, runs⟩ := bind_eq_ok.mp second
  obtain ⟨other, otherFound, _⟩ := bind_eq_ok.mp runs
  rw [deref_eq_ok] at otherFound
  obtain ⟨member, name⟩ := TIOSTS.lastAction_eq_some otherFound
  have same : copied.getActions = model.getActions := by
    apply getActions_copy
    intro type
    rw [TIOSTS.clone_actionsOf copies, isRelabelling.alphabet_eq, unchanged]
  rw [same] at member
  exact fresh other member name

/-- Renaming an action and renaming it back returns the model exactly if the action is an
input or output that is declared in one list and without parameters, and if no two
transitions have one key once the action is renamed. -/
theorem renamesBack_iff {order : IterationOrder} {model : TIOSTS} {a : Action}
    {bName : String} (wellFormed : model.WellFormed) (declared : a ∈ model.getActions)
    (fresh : ∀ action ∈ model.getActions, action.name ≠ bName) :
    RenamesBack order model a bName ↔ a.type ≠ .internal ∧ BareOnly model a ∧
      KeysApart a (renamedTo a bName) (model.getTransitions order) := by
  have both : a.type ≠ .internal → OneType model a.name a.type →
      (RenamesBack order model a bName ↔ BareOnly model a ∧
        KeysApart a (renamedTo a bName) (model.getTransitions order)) := by
    intro ordinary oneType
    obtain ⟨copy, renamed, renames⟩ :=
      exists_renames order wellFormed declared fresh ordinary oneType
    obtain ⟨copied, returned, back⟩ := exists_renamed_back renames declared fresh ordinary
    have actions := actionsOf_returned_iff renames back fresh
    have transitions := transitions_returned_iff renames back wellFormed fresh
    constructor
    · rintro ⟨first, second, firstReturned, secondReturned, same⟩
      obtain rfl := Option.some.inj (Except.ok.inj (renames.returned.symm.trans firstReturned))
      obtain rfl := Option.some.inj (Except.ok.inj (back.returned.symm.trans secondReturned))
      have bare : BareOnly model a := by
        apply actions.mp
        intro type
        cases type with
        | input => exact same.inputActions
        | output => exact same.outputActions
        | internal => exact same.internalActions
      exact ⟨bare, (transitions bare).mp same.transitions⟩
    · rintro ⟨bare, apart⟩
      have sameActions := actions.mpr bare
      refine ⟨renamed, returned, renames.returned, back.returned, ?_⟩
      constructor
      · exact sameActions .input
      · exact sameActions .output
      · exact sameActions .internal
      · rw [back.isRelabelling.modelVariables, back.isCopy.modelVariables,
          renames.isRelabelling.modelVariables, renames.isCopy.modelVariables]
      · rw [back.isRelabelling.actionParameters, back.isCopy.actionParameters,
          renames.isRelabelling.actionParameters, renames.isCopy.actionParameters]
      · rw [back.isRelabelling.clocks, back.isCopy.clocks, renames.isRelabelling.clocks,
          renames.isCopy.clocks]
      · intro label
        rw [back.isRelabelling.isRegistered, back.isCopy.isRegistered,
          renames.isRelabelling.isRegistered, renames.isCopy.isRegistered]
      · intro label
        rw [back.isRelabelling.isInitial, back.isCopy.isInitial,
          renames.isRelabelling.isInitial, renames.isCopy.isInitial]
      · exact starts_returned renames back wellFormed
      · exact (transitions bare).mpr apart
  constructor
  · intro renamesBack
    obtain ⟨ordinary, oneType⟩ :=
      ordinary_of_renamesBack wellFormed declared fresh renamesBack
    exact ⟨ordinary, (both ordinary oneType).mp renamesBack⟩
  · rintro ⟨ordinary, bare, apart⟩
    have oneType : OneType model a.name a.type := by
      intro action member name
      rw [bare action member name]
    exact (both ordinary oneType).mpr ⟨bare, apart⟩

namespace RenamingInstance

def order : IterationOrder := ⟨id, IterationOrder.id_perm⟩

def enter : Action := ⟨"i", .internal, []⟩

def press (parameters : List String) : Action := ⟨"press", .input, parameters⟩

/-- An internal action and an input with the given parameters. -/
def model (parameters : List String) : TIOSTS :=
  .assemble (.declare "M" [enter, press parameters] [] [⟨"p", .integer⟩] [])
    ["s", "a", "b"] "s" [.bare "s" enter "a", .bare "a" (press parameters) "b"]

theorem model_wellFormed {parameters : List String}
    (uses : (TIOSTS.declare "M" [enter, press parameters] [] [⟨"p", .integer⟩] []).Uses
      ["s", "a", "b"] "s" [.bare "s" enter "a", .bare "a" (press parameters) "b"]) :
    (model parameters).WellFormed :=
  TIOSTS.assemble_wellFormed (TIOSTS.declare_isBlank _ _ _ _ _) uses

end RenamingInstance

open RenamingInstance in
/-- An input without parameters is renamed and renamed back. -/
theorem renamesBack_bare : RenamesBack order (model []) (press []) "push" := by
  apply (renamesBack_iff (model_wellFormed (by decide)) (by decide) (by decide)).mpr
  refine ⟨by decide, ?_, ?_⟩
  · unfold BareOnly
    decide
  · unfold KeysApart
    decide

open RenamingInstance in
/-- The parameter of an input is gone once it has been renamed, and an internal action
cannot even be renamed back. -/
theorem renaming_loses :
    ¬ RenamesBack order (model ["p"]) (press ["p"]) "push" ∧
      ¬ RenamesBack order (model []) enter "j" := by
  constructor
  · rintro ⟨renamed, returned, first, second, same⟩
    have ran : ((renamingOperator order (model ["p"]) (press ["p"]).name
        "push").toOption.join.bind fun renamed =>
          ((renamingOperator order renamed "push" (press ["p"]).name).toOption.join.map
            fun returned => decide (returned.inputActions = (model ["p"]).inputActions))) =
              some false := by decide
    rw [first] at ran
    have afterFirst : ((renamingOperator order renamed "push"
        (press ["p"]).name).toOption.join.map fun returned =>
          decide (returned.inputActions = (model ["p"]).inputActions)) = some false := ran
    rw [second] at afterFirst
    have differs : some (decide (returned.inputActions = (model ["p"]).inputActions)) =
        some false := afterFirst
    exact of_decide_eq_false (Option.some.inj differs) same.inputActions
  · intro renamesBack
    have ordinary := (ordinary_of_renamesBack (model_wellFormed (by decide)) (by decide)
      (by decide) renamesBack).1
    exact ordinary rfl

end RenamingOperator

end Symbolrt
