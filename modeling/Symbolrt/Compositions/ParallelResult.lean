import Symbolrt.Compositions.ParallelMoves
import Symbolrt.Lib.Loops

/-!
# What a move adds to a parallel composition

Every move that does not throw adds one transition, and changes nothing else but the
parameters of the action that two transitions synchronise on.
-/

namespace Symbolrt

/-- A transition without the parameters of its action, which later moves may change. -/
def Transition.plain (transition : Transition) : Transition :=
  { transition with action := { transition.action with parameters := [] } }

namespace Transition

@[simp] theorem plain_source (transition : Transition) :
    transition.plain.source = transition.source := rfl

@[simp] theorem plain_target (transition : Transition) :
    transition.plain.target = transition.target := rfl

@[simp] theorem plain_dataGuard (transition : Transition) :
    transition.plain.dataGuard = transition.dataGuard := rfl

@[simp] theorem plain_actionName (transition : Transition) :
    transition.plain.action.name = transition.action.name := rfl

@[simp] theorem plain_actionType (transition : Transition) :
    transition.plain.action.type = transition.action.type := rfl

@[simp] theorem plain_changeParameters (changed : Action) (parameters : List String)
    (transition : Transition) :
    (transition.changeParameters changed parameters).plain = transition.plain := by
  simp only [plain, changeParameters, Action.changeParameters_name,
    Action.changeParameters_type]

theorem plain_eq_of_action (transition : Transition) {action : Action}
    (name : action.name = transition.action.name)
    (type : action.type = transition.action.type) :
    { transition with action := action }.plain = transition.plain := by
  simp only [plain, name, type]

end Transition

namespace ParallelComposition

/-- The transition a move creates, up to the parameters of its action. -/
def Move.transition : Move → Transition
  | .first loc1 loc2 t1 =>
      { t1 with source := composedLabel loc1 loc2, target := composedLabel t1.target loc2 }
  | .second loc1 loc2 t2 =>
      { t2 with source := composedLabel loc1 loc2, target := composedLabel loc1 t2.target }
  | .both loc1 loc2 t1 t2 => syncTransition loc1 loc2 t1 t2 (outputAction t1.action t2.action)

theorem Move.transition_source (move : Move) :
    move.transition.source = pairLabel move.source := by
  cases move <;> rfl

theorem Move.transition_target (move : Move) :
    move.transition.target = pairLabel move.target := by
  cases move <;> rfl

/-- The model has one more transition and its ends. -/
structure Adds (pc : TIOSTS) (transition : Transition) (next : TIOSTS) : Prop where
  labelled : next.Labelled
  isRegistered : ∀ label, next.IsRegistered label ↔
    pc.IsRegistered label ∨ label = transition.source ∨ label = transition.target
  isInitial : ∀ label, next.isInitial label = pc.isInitial label
  outOf : ∀ label, (next.outOf label).map Transition.plain =
    (pc.outOf label).map Transition.plain ++
      [transition.plain].filter (fun other => label = other.source)
  inOf : ∀ label, (next.inOf label).map Transition.plain =
    (pc.inOf label).map Transition.plain ++
      [transition.plain].filter (fun other => label = other.target)
  actionNames : ∀ type, (next.actionsOf type).map Action.name =
    (pc.actionsOf type).map Action.name
  initialCondition : next.initialCondition =
    if pc.isInitial transition.source then some transition.dataGuard else pc.initialCondition
  clocks : next.clocks = pc.clocks

section Create

variable {pc : TIOSTS}

theorem addEnds_adds (labelled : pc.Labelled) (source target : String) :
    AddsLocations pc [source, target] (addEnds pc source target) :=
  ((AddsLocations.refl labelled).addLocation source).addLocation target

theorem isInitial_addEnds (source target label : String) :
    (addEnds pc source target).isInitial label = pc.isInitial label := by
  rw [addEnds, isInitial_addLocation, isInitial_addLocation]

theorem actionsOf_addEnds (labelled : pc.Labelled) (source target : String)
    (type : ActionType) : (addEnds pc source target).actionsOf type = pc.actionsOf type := by
  rw [(addEnds_adds labelled source target).stores]

/-- The model has the ends of the transition it is about to get. -/
structure Prepares (pc : TIOSTS) (transition : Transition) (ended : TIOSTS) : Prop where
  labelled : ended.Labelled
  isRegistered : ∀ label, ended.IsRegistered label ↔
    pc.IsRegistered label ∨ label = transition.source ∨ label = transition.target
  isInitial : ∀ label, ended.isInitial label = pc.isInitial label
  outOf : ∀ label, (ended.outOf label).map Transition.plain =
    (pc.outOf label).map Transition.plain
  inOf : ∀ label, (ended.inOf label).map Transition.plain =
    (pc.inOf label).map Transition.plain
  actionNames : ∀ type, (ended.actionsOf type).map Action.name =
    (pc.actionsOf type).map Action.name
  initialCondition : ended.initialCondition = pc.initialCondition
  clocks : ended.clocks = pc.clocks

theorem addEnds_prepares (labelled : pc.Labelled) (transition : Transition) :
    Prepares pc transition (addEnds pc transition.source transition.target) := by
  have ends := addEnds_adds labelled transition.source transition.target
  constructor
  · exact ends.labelled
  · intro label
    rw [ends.isRegistered]
    simp
  · exact fun label => isInitial_addEnds _ _ label
  · intro label
    rw [ends.outOf]
  · intro label
    rw [ends.inOf]
  · intro type
    rw [actionsOf_addEnds labelled]
  · rw [ends.stores]
  · rw [ends.stores]

theorem Prepares.changeParameters {transition : Transition} {ended : TIOSTS}
    (prepares : Prepares pc transition ended) (changed : Action) (parameters : List String) :
    Prepares pc transition (ended.changeParameters changed parameters) where
  labelled := labelled_changeParameters prepares.labelled
  isRegistered := fun label =>
    (isRegistered_changeParameters label).trans (prepares.isRegistered label)
  isInitial := fun label => (isInitial_changeParameters label).trans (prepares.isInitial label)
  outOf := by
    intro label
    rw [outOf_changeParameters, List.map_map, ← prepares.outOf]
    apply List.map_congr_left
    intro other _
    exact Transition.plain_changeParameters _ _ _
  inOf := by
    intro label
    rw [inOf_changeParameters, List.map_map, ← prepares.inOf]
    apply List.map_congr_left
    intro other _
    exact Transition.plain_changeParameters _ _ _
  actionNames := fun type =>
    (Alphabet.changeParameters_names _ _ _ type).trans (prepares.actionNames type)
  initialCondition := prepares.initialCondition
  clocks := prepares.clocks

theorem Prepares.create {transition : Transition} {ended : TIOSTS}
    (prepares : Prepares pc transition ended) :
    ∃ next, ended.create transition = .ok next ∧ Adds pc transition next ∧
      ended.Grows [transition] next := by
  have source := (prepares.isRegistered transition.source).mpr (Or.inr (Or.inl rfl))
  have target := (prepares.isRegistered transition.target).mpr (Or.inr (Or.inr rfl))
  have grows := (TIOSTS.Grows.refl prepares.labelled).extend source target
  refine ⟨_, TIOSTS.create_eq prepares.labelled source target, ?_, grows⟩
  constructor
  · exact grows.labelled
  · exact fun label => (grows.isRegistered label).trans (prepares.isRegistered label)
  · exact fun label => (grows.isInitial label).trans (prepares.isInitial label)
  · intro label
    rw [grows.outOf, List.nil_append, List.map_append, prepares.outOf]
    by_cases same : label = transition.source <;> simp [same]
  · intro label
    rw [grows.inOf, List.nil_append, List.map_append, prepares.inOf]
    by_cases same : label = transition.target <;> simp [same]
  · intro type
    rw [← prepares.actionNames, grows.stores]
  · rw [grows.initialCondition, prepares.initialCondition, List.nil_append]
    simp only [prepares.isInitial]
    by_cases flagged : pc.isInitial transition.source = true <;> simp [flagged]
  · rw [grows.stores]
    exact prepares.clocks

/-- A transition with another action of its name and type is the same addition. -/
theorem Adds.of_plain {transition other : Transition} {next : TIOSTS}
    (adds : Adds pc transition next) (same : transition.plain = other.plain) :
    Adds pc other next := by
  have source : transition.plain.source = other.plain.source := by rw [same]
  have target : transition.plain.target = other.plain.target := by rw [same]
  have dataGuard : transition.plain.dataGuard = other.plain.dataGuard := by rw [same]
  obtain ⟨labelled, isRegistered, isInitial, outOf, inOf, actionNames, initialCondition,
    clocks⟩ := adds
  simp only [Transition.plain_source, Transition.plain_target,
    Transition.plain_dataGuard] at source target dataGuard
  rw [source, target] at isRegistered
  rw [source, dataGuard] at initialCondition
  rw [same] at outOf inOf
  exact ⟨labelled, isRegistered, isInitial, outOf, inOf, actionNames, initialCondition,
    clocks⟩

end Create

/-- The action that is looked up in the result. -/
def Move.action : Move → Action
  | .first _ _ t1 => t1.action
  | .second _ _ t2 => t2.action
  | .both _ _ t1 t2 => outputAction t1.action t2.action

theorem Move.transition_action (move : Move) : move.transition.action = move.action := by
  cases move <;> rfl

/-- A move that does not throw adds its transition. -/
theorem Move.create_adds {pc next : TIOSTS} {move : Move} (labelled : pc.Labelled)
    (created : move.create pc = .ok next) : Adds pc move.transition next := by
  cases move with
  | first loc1 loc2 t1 =>
      obtain ⟨newAction, recovered, attached⟩ := bind_eq_ok.mp created
      obtain ⟨_, name, type⟩ := TIOSTS.recoverAction_eq_ok recovered
      obtain ⟨same, returned, adds, _⟩ := (addEnds_prepares labelled
        { t1 with
          source := composedLabel loc1 loc2, action := newAction,
          target := composedLabel t1.target loc2 }).create
      rw [Except.ok.inj (attached.symm.trans returned)]
      exact adds.of_plain (Transition.plain_eq_of_action
        (Move.transition (.first loc1 loc2 t1)) name type)
  | second loc1 loc2 t2 =>
      obtain ⟨newAction, recovered, attached⟩ := bind_eq_ok.mp created
      obtain ⟨_, name, type⟩ := TIOSTS.recoverAction_eq_ok recovered
      obtain ⟨same, returned, adds, _⟩ := (addEnds_prepares labelled
        { t2 with
          source := composedLabel loc1 loc2, action := newAction,
          target := composedLabel loc1 t2.target }).create
      rw [Except.ok.inj (attached.symm.trans returned)]
      exact adds.of_plain (Transition.plain_eq_of_action
        (Move.transition (.second loc1 loc2 t2)) name type)
  | both loc1 loc2 t1 t2 =>
      obtain ⟨newAction, recovered, attached⟩ := bind_eq_ok.mp created
      obtain ⟨_, name, type⟩ := TIOSTS.recoverAction_eq_ok recovered
      obtain ⟨same, returned, adds, _⟩ := ((addEnds_prepares labelled
        (syncTransition loc1 loc2 t1 t2 { newAction with
          parameters := t2.action.parameters })).changeParameters newAction
            t2.action.parameters).create
      rw [Except.ok.inj (attached.symm.trans returned)]
      exact adds.of_plain (Transition.plain_eq_of_action
        (Move.transition (.both loc1 loc2 t1 t2)) name type)

/-- A move throws exactly if the result does not declare its action. -/
theorem Move.create_isOk {pc : TIOSTS} {move : Move} (labelled : pc.Labelled) :
    (∃ next, move.create pc = .ok next) ↔
      move.action.name ∈ (pc.actionsOf move.action.type).map Action.name := by
  have declared : ∀ source target, (∃ newAction,
      (addEnds pc source target).recoverAction move.action = .ok newAction) ↔
        move.action.name ∈ (pc.actionsOf move.action.type).map Action.name := by
    intro source target
    rw [TIOSTS.recoverAction_isOk, actionsOf_addEnds labelled, List.mem_map]
  cases move with
  | first loc1 loc2 t1 =>
      rw [← declared (composedLabel loc1 loc2) (composedLabel t1.target loc2)]
      constructor
      · rintro ⟨next, created⟩
        obtain ⟨newAction, recovered, _⟩ := bind_eq_ok.mp created
        exact ⟨newAction, recovered⟩
      · rintro ⟨newAction, recovered⟩
        obtain ⟨next, returned, _⟩ := (addEnds_prepares labelled
          { t1 with
            source := composedLabel loc1 loc2, action := newAction,
            target := composedLabel t1.target loc2 }).create
        exact ⟨next, bind_eq_ok.mpr ⟨newAction, recovered, returned⟩⟩
  | second loc1 loc2 t2 =>
      rw [← declared (composedLabel loc1 loc2) (composedLabel loc1 t2.target)]
      constructor
      · rintro ⟨next, created⟩
        obtain ⟨newAction, recovered, _⟩ := bind_eq_ok.mp created
        exact ⟨newAction, recovered⟩
      · rintro ⟨newAction, recovered⟩
        obtain ⟨next, returned, _⟩ := (addEnds_prepares labelled
          { t2 with
            source := composedLabel loc1 loc2, action := newAction,
            target := composedLabel loc1 t2.target }).create
        exact ⟨next, bind_eq_ok.mpr ⟨newAction, recovered, returned⟩⟩
  | both loc1 loc2 t1 t2 =>
      rw [← declared (composedLabel loc1 loc2) (composedLabel t1.target t2.target)]
      constructor
      · rintro ⟨next, created⟩
        obtain ⟨newAction, recovered, _⟩ := bind_eq_ok.mp created
        exact ⟨newAction, recovered⟩
      · rintro ⟨newAction, recovered⟩
        obtain ⟨next, returned, _⟩ := ((addEnds_prepares labelled
          (syncTransition loc1 loc2 t1 t2 { newAction with
            parameters := t2.action.parameters })).changeParameters newAction
              t2.action.parameters).create
        exact ⟨next, bind_eq_ok.mpr ⟨newAction, recovered, returned⟩⟩

theorem Move.create_error {pc : TIOSTS} {move : Move} {failure : Failure}
    (labelled : pc.Labelled) (fails : move.create pc = .error failure) :
    failure = .indexOutOfBounds := by
  have starts : ∃ source target rest, move.create pc =
      (addEnds pc source target).recoverAction move.action >>= rest := by
    cases move with
    | first loc1 loc2 t1 => exact ⟨_, _, _, rfl⟩
    | second loc1 loc2 t2 => exact ⟨_, _, _, rfl⟩
    | both loc1 loc2 t1 t2 => exact ⟨_, _, _, rfl⟩
  obtain ⟨source, target, rest, whole⟩ := starts
  cases recovered : (addEnds pc source target).recoverAction move.action with
  | error missing =>
      rw [whole, recovered] at fails
      rw [← Except.error.inj fails]
      exact TIOSTS.recoverAction_eq_error recovered
  | ok newAction =>
      obtain ⟨member, name, _⟩ := TIOSTS.recoverAction_eq_ok recovered
      rw [actionsOf_addEnds labelled] at member
      have declared : move.action.name ∈
          (pc.actionsOf move.action.type).map Action.name := by
        rw [← name]
        exact List.mem_map_of_mem member
      obtain ⟨next, created⟩ := (Move.create_isOk labelled).mpr declared
      rw [fails] at created
      cases created

/-- The model has the transitions of the moves that were followed. -/
structure Follows (base : TIOSTS) (followed : List Move) (pc : TIOSTS) : Prop where
  labelled : pc.Labelled
  isRegistered : ∀ label, pc.IsRegistered label ↔ base.IsRegistered label ∨
    ∃ move ∈ followed, label = pairLabel move.source ∨ label = pairLabel move.target
  isInitial : ∀ label, pc.isInitial label = base.isInitial label
  outOf : ∀ label, (pc.outOf label).map Transition.plain =
    (base.outOf label).map Transition.plain ++
      (followed.map fun move => move.transition.plain).filter (fun other => label = other.source)
  inOf : ∀ label, (pc.inOf label).map Transition.plain =
    (base.inOf label).map Transition.plain ++
      (followed.map fun move => move.transition.plain).filter (fun other => label = other.target)
  actionNames : ∀ type, (pc.actionsOf type).map Action.name =
    (base.actionsOf type).map Action.name
  initialCondition : pc.initialCondition =
    (((followed.filter fun move => base.isInitial (pairLabel move.source)).getLast?).map
      fun move => move.transition.dataGuard).or base.initialCondition
  clocks : pc.clocks = base.clocks

theorem Follows.refl {base : TIOSTS} (labelled : base.Labelled) : Follows base [] base where
  labelled := labelled
  isRegistered := by simp
  isInitial := fun _ => rfl
  outOf := by simp
  inOf := by simp
  actionNames := fun _ => rfl
  initialCondition := by simp
  clocks := rfl

theorem Follows.step {base pc next : TIOSTS} {followed : List Move} {move : Move}
    (follows : Follows base followed pc) (created : move.create pc = .ok next) :
    Follows base (followed ++ [move]) next := by
  have adds := move.create_adds follows.labelled created
  constructor
  · exact adds.labelled
  · intro label
    rw [adds.isRegistered, follows.isRegistered, move.transition_source,
      move.transition_target]
    simp only [List.mem_append, List.mem_singleton, or_and_right, exists_or, exists_eq_left]
    exact or_assoc
  · exact fun label => (adds.isInitial label).trans (follows.isInitial label)
  · intro label
    rw [adds.outOf, follows.outOf, List.map_append, List.filter_append, List.append_assoc]
    rfl
  · intro label
    rw [adds.inOf, follows.inOf, List.map_append, List.filter_append, List.append_assoc]
    rfl
  · exact fun type => (adds.actionNames type).trans (follows.actionNames type)
  · rw [adds.initialCondition, follows.initialCondition, follows.isInitial,
      move.transition_source, List.filter_append]
    by_cases flagged : base.isInitial (pairLabel move.source) = true <;> simp [flagged]
  · exact adds.clocks.trans follows.clocks

theorem follows_of_foldlM {base pc : TIOSTS} {followed : List Move} (labelled : base.Labelled)
    (returned : followed.foldlM Move.create base = .ok pc) : Follows base followed pc := by
  apply Loops.foldlM_returned (Follows base) returned (Follows.refl labelled)
  intro done move rest state next _ follows created
  exact follows.step created

end ParallelComposition

end Symbolrt
