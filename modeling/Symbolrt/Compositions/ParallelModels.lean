import Symbolrt.Compositions.ParallelInterleaving

/-!
# The model a parallel composition returns

The composition of well-formed models is a well-formed model, so it can be composed again
and tests can be generated from it.
-/

namespace Symbolrt

namespace TIOSTS

section ChangeParameters

variable {model : TIOSTS} {changed : Action} {parameters : List String}

theorem lookup_changeParameters (key : String) :
    (model.changeParameters changed parameters).transitions.lookup key =
      (model.transitions.lookup key).map (Transition.changeParameters changed parameters) := by
  obtain ⟨alphabet, name, condition, initial, modelVariables, actionParameters, clocks,
    locations, ⟨entries, nodup⟩⟩ := model
  simp only [TIOSTS.changeParameters, AList.lookup]
  clear nodup
  induction entries with
  | nil => rfl
  | cons entry rest induction =>
      obtain ⟨first, transition⟩ := entry
      by_cases same : key = first
      · subst same
        simp [Sigma.map]
      · simpa [Sigma.map, List.dlookup_cons_ne, same, Ne.symm same] using induction

theorem exists_getAction_of_names {other : TIOSTS} {type : ActionType} {name : String}
    (names : (other.actionsOf type).map Action.name = (model.actionsOf type).map Action.name)
    (declared : ∃ action, model.getAction type name = some action) :
    ∃ action, other.getAction type name = some action := by
  obtain ⟨action, found⟩ := declared
  obtain ⟨member, _, rfl⟩ := getAction_eq_some found
  have named := List.mem_map_of_mem (f := Action.name) member
  rw [← names] at named
  obtain ⟨otherAction, inOther, same⟩ := List.mem_map.mp named
  rw [← same]
  exact exists_getAction inOther

theorem WellFormed.changeParameters (wellFormed : model.WellFormed) (changed : Action)
    (parameters : List String) : (model.changeParameters changed parameters).WellFormed := by
  constructor
  · exact fun found => labelled_changeParameters wellFormed.label_eq found
  · intro label transition member
    rw [outOf_changeParameters] at member
    obtain ⟨before, inModel, rfl⟩ := List.mem_map.mp member
    have source : before.source = label := wellFormed.source_eq inModel
    exact source
  · intro label transition member
    rw [outOf_changeParameters] at member
    obtain ⟨before, inModel, rfl⟩ := List.mem_map.mp member
    have target : model.IsRegistered before.target := wellFormed.target_registered inModel
    exact (isRegistered_changeParameters _).mpr target
  · intro label transition member
    rw [outOf_changeParameters] at member
    obtain ⟨before, inModel, rfl⟩ := List.mem_map.mp member
    simp only [Transition.changeParameters, Action.changeParameters_type,
      Action.changeParameters_name]
    exact exists_getAction_of_names (Alphabet.changeParameters_names _ _ _ _)
      (wellFormed.action_declared inModel)
  · intro label initial
    obtain ⟨location, found, flagged⟩ := wellFormed.initial_registered initial
    refine ⟨location.changeParameters changed parameters, ?_, flagged⟩
    rw [getLocation_changeParameters, found, Option.map_some]
  · intro key transition found
    rw [lookup_changeParameters] at found
    obtain ⟨before, beforeFound, rfl⟩ := Option.map_eq_some_iff.mp found
    obtain ⟨sameKey, member⟩ := wellFormed.stored beforeFound
    rw [outOf_changeParameters]
    refine ⟨?_, List.mem_map_of_mem member⟩
    rw [← sameKey, Transition.key, Transition.changeParameters,
      Action.changeParameters_name]
    rfl

end ChangeParameters

theorem WellFormed.addAction {model : TIOSTS} (wellFormed : model.WellFormed)
    (action : Action) : (model.addAction action).WellFormed where
  label_eq := wellFormed.label_eq
  source_eq := wellFormed.source_eq
  target_registered := wellFormed.target_registered
  action_declared := by
    intro label transition member
    obtain ⟨declared, found⟩ := wellFormed.action_declared member
    obtain ⟨inModel, _, name⟩ := getAction_eq_some found
    have added : (model.addAction action).actionsOf transition.action.type =
        if action.type = transition.action.type then
          model.actionsOf transition.action.type ++ [action]
        else model.actionsOf transition.action.type := Alphabet.actionsOf_addAction _ _ _
    rw [← name]
    apply exists_getAction
    rw [added]
    split
    · exact List.mem_append_left _ inModel
    · exact inModel
  initial_registered := wellFormed.initial_registered
  stored := wellFormed.stored

end TIOSTS

namespace ParallelComposition

/-- A well-formed model with the given initial location. -/
structure StartsAt (start : Option String) (model : TIOSTS) : Prop where
  wellFormed : model.WellFormed
  initialLocation : model.initialLocation = start

section Create

variable {start : Option String} {pc : TIOSTS}

theorem StartsAt.withEnds (startsAt : StartsAt start pc) (source target : String) :
    StartsAt start (addEnds pc source target) where
  wellFormed := (startsAt.wellFormed.addLocation _ _).addLocation _ _
  initialLocation := by
    rw [addEnds, TIOSTS.addLocation_initialLocation,
      TIOSTS.addLocation_initialLocation, startsAt.initialLocation]

theorem StartsAt.changeParameters (startsAt : StartsAt start pc) (changed : Action)
    (parameters : List String) : StartsAt start (pc.changeParameters changed parameters) where
  wellFormed := startsAt.wellFormed.changeParameters changed parameters
  initialLocation := startsAt.initialLocation

theorem StartsAt.create (startsAt : StartsAt start pc) {transition : Transition}
    (source : pc.IsRegistered transition.source) (target : pc.IsRegistered transition.target)
    (declared : ∃ action, pc.getAction transition.action.type transition.action.name =
      some action) {next : TIOSTS} (created : pc.create transition = .ok next) :
    StartsAt start next := by
  obtain ⟨other, returned, wellFormed, grown⟩ :=
    startsAt.wellFormed.createTransition transition source target declared
  rw [Except.ok.inj (created.symm.trans returned)]
  exact ⟨wellFormed, grown.initialLocation.trans startsAt.initialLocation⟩

theorem exists_recovered {model : TIOSTS} {action recovered : Action}
    (found : model.recoverAction action = .ok recovered) :
    ∃ declared, model.getAction recovered.type recovered.name = some declared := by
  obtain ⟨member, _, type⟩ := TIOSTS.recoverAction_eq_ok found
  rw [← type] at member
  exact TIOSTS.exists_getAction member

/-- A move keeps the composition well formed. -/
theorem StartsAt.move (startsAt : StartsAt start pc) {move : Move} {next : TIOSTS}
    (created : move.create pc = .ok next) : StartsAt start next := by
  have ends : ∀ source target, (addEnds pc source target).IsRegistered source ∧
      (addEnds pc source target).IsRegistered target := by
    intro source target
    have added := addEnds_adds startsAt.wellFormed.label_eq source target
    exact ⟨(added.isRegistered _).mpr (Or.inr List.mem_cons_self),
      (added.isRegistered _).mpr (Or.inr (List.mem_cons_of_mem _ List.mem_cons_self))⟩
  cases move with
  | first loc1 loc2 t1 =>
      obtain ⟨newAction, recovered, attached⟩ := bind_eq_ok.mp created
      obtain ⟨source, target⟩ := ends (composedLabel loc1 loc2) (composedLabel t1.target loc2)
      exact (startsAt.withEnds _ _).create source target (exists_recovered recovered) attached
  | second loc1 loc2 t2 =>
      obtain ⟨newAction, recovered, attached⟩ := bind_eq_ok.mp created
      obtain ⟨source, target⟩ := ends (composedLabel loc1 loc2) (composedLabel loc1 t2.target)
      exact (startsAt.withEnds _ _).create source target (exists_recovered recovered) attached
  | both loc1 loc2 t1 t2 =>
      obtain ⟨newAction, recovered, attached⟩ := bind_eq_ok.mp created
      obtain ⟨source, target⟩ :=
        ends (composedLabel loc1 loc2) (composedLabel t1.target t2.target)
      have changed := (startsAt.withEnds (composedLabel loc1 loc2)
        (composedLabel t1.target t2.target)).changeParameters newAction t2.action.parameters
      have declared := exists_recovered recovered
      exact changed.create ((isRegistered_changeParameters _).mpr source)
        ((isRegistered_changeParameters _).mpr target)
        (TIOSTS.exists_getAction_of_names (Alphabet.changeParameters_names _ _ _ _) declared)
        attached

theorem StartsAt.moves (startsAt : StartsAt start pc) {followed : List Move} {result : TIOSTS}
    (returned : followed.foldlM Move.create pc = .ok result) : StartsAt start result := by
  apply Loops.foldlM_returned (fun _ => StartsAt start) returned startsAt
  intro done move rest state next _ stateStarts created
  exact stateStarts.move created

end Create

/-- The result before the search is well formed. -/
theorem Parts.base_startsAt (parts : Parts) :
    StartsAt (some parts.initial.source) parts.base := by
  have blank := declare_isBlank parts.tiosts1 parts.tiosts2 parts.init1 parts.init2
  have declared : StartsAt none
      (declare parts.tiosts1 parts.tiosts2 parts.init1 parts.init2) :=
    ⟨blank.wellFormed, blank.initialLocation⟩
  have ended : parts.ended.WellFormed :=
    (declared.withEnds parts.initial.source parts.initial.target).wellFormed.addAction _
  have prepares := parts.ended_prepares
  have source := (prepares.isRegistered parts.initial.source).mpr (Or.inr (Or.inl rfl))
  have target := (prepares.isRegistered parts.initial.target).mpr (Or.inr (Or.inr rfl))
  have inEnded : parts.initial.action ∈ parts.ended.actionsOf .internal := by
    exact List.mem_append_right _ List.mem_cons_self
  obtain ⟨next, created, wellFormed, _⟩ :=
    ended.createTransition parts.initial source target (TIOSTS.exists_getAction inEnded)
  have extended : parts.ended.create parts.initial = .ok (parts.ended.extend parts.initial) :=
    TIOSTS.create_eq ended.label_eq source target
  rw [← Except.ok.inj (extended.symm.trans created)] at wellFormed
  refine ⟨(wellFormed.setInitialCondition _).setInitialLocation ?_, parts.base_initialLocation⟩
  rw [TIOSTS.isRegistered_setInitialCondition, parts.base_grows.isRegistered]
  exact source

/-- The composition of well-formed models is well formed and starts at the pair of initial
locations, whatever pairs the instance has visited before. -/
theorem IsParallelInput.startsAt {order : IterationOrder} {model1 model2 : TIOSTS}
    {parts : Parts} (input : IsParallelInput order model1 model2 parts) {depth : Nat}
    {visited after : List String} {result : TIOSTS}
    (returned : (parallelComposition order depth model1 model2).outcome visited =
      (.ok result, after)) : StartsAt (some parts.initial.source) result := by
  obtain ⟨followed, _, reached, _⟩ := input.returned_followed returned
  exact parts.base_startsAt.moves reached

end ParallelComposition

end Symbolrt
