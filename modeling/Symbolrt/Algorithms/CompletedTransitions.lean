import Symbolrt.Algorithms.CompletionCoverage

/-!
# The transitions of a completed test purpose

Whatever completion returns, each of its transitions is one of the copied model, a
self-loop for an action that is not used at the location, or the negation of a copied
transition.
-/

namespace Symbolrt

namespace Completion

section Inversion

variable {model next : TIOSTS} {action : Action} {transition : Transition} {label : String}

/-- A transition that is created has registered ends. -/
theorem extends_of_createTransitionFromText (wellFormed : model.WellFormed)
    (transition : Transition)
    (declared : ∃ other, model.getAction transition.action.type transition.action.name =
      some other)
    (created : model.createTransitionFromText transition.source transition.dataGuard
      transition.clockGuard.toString transition.action transition.dataAssignments
      transition.clockAssignments transition.deadline transition.target = .ok next) :
    next.WellFormed ∧ model.Extends
      { transition with clockGuard := transition.clockGuard.renumber model.clocks } next ∧
      next = { model with
        locations := next.locations
        transitions := next.transitions
        initialCondition := next.initialCondition } := by
  obtain ⟨read, _, entered⟩ := bind_eq_ok.mp created
  have sourceRegistered : model.IsRegistered transition.source := by
    obtain ⟨sourceLocation, found, _⟩ := bind_eq_ok.mp entered
    exact (model.isRegistered_iff _).mpr ⟨sourceLocation, deref_eq_ok.mp found⟩
  have targetRegistered : model.IsRegistered transition.target := by
    obtain ⟨_, _, entered⟩ := bind_eq_ok.mp entered
    obtain ⟨targetLocation, found, _⟩ := bind_eq_ok.mp entered
    exact (model.isRegistered_iff _).mpr ⟨targetLocation, deref_eq_ok.mp found⟩
  obtain ⟨other, same, otherWellFormed, grown⟩ := wellFormed.createTransitionFromText transition
    sourceRegistered targetRegistered declared
  cases created.symm.trans same
  have labelled : model.Labelled := wellFormed.label_eq
  have extended := @TIOSTS.create_eq _ { transition with clockGuard := read } labelled
    sourceRegistered targetRegistered
  cases extended.symm.trans entered
  have stores := (@TIOSTS.Grows.extend _ _ _ (TIOSTS.Grows.refl labelled)
    { transition with clockGuard := read } sourceRegistered targetRegistered).stores
  exact ⟨otherWellFormed, grown, stores⟩

/-- Where the negation of a transition leads. -/
def negationTarget (label : String) (transition : Transition) : String :=
  if transition.target = Constants.locationLabelReject then label
  else Constants.locationLabelReject

/-- The transitions of a completed location. -/
inductive Adds (copy : TIOSTS) (label : String) : Transition → Prop where
  | own {transition : Transition} (member : transition ∈ copy.outOf label) :
      Adds copy label transition
  | loop {action : Action}
      (unused : ∀ transition ∈ copy.outOf label, transition.action.name ≠ action.name) :
      Adds copy label ⟨label, .constantTrue, ClockGuard.empty, action, none, none,
        Transition.defaultDeadline action, label⟩
  | negation {transition : Transition} {dataGuard : DataGuard} {clockGuard : ClockGuard}
      (member : transition ∈ copy.outOf label)
      (negated : negatedGuards transition = .ok (dataGuard, clockGuard)) :
      Adds copy label ⟨label, dataGuard, clockGuard.renumber copy.clocks, transition.action, none,
        none, transition.deadline, negationTarget label transition⟩

/-- The copied model after some locations have been completed. -/
structure Grown (copy : TIOSTS) (done : List String) (model : TIOSTS) : Prop where
  wellFormed : model.WellFormed
  stores : model = { copy with
    locations := model.locations
    transitions := model.transitions
    initialCondition := model.initialCondition }
  isRegistered : ∀ label, model.IsRegistered label ↔ copy.IsRegistered label
  pending : ∀ label, label ∉ done → model.outOf label = copy.outOf label
  adds : ∀ label, ∀ transition ∈ model.outOf label, Adds copy label transition

section Steps

variable {copy : TIOSTS} {done : List String}

theorem Grown.start (wellFormed : copy.WellFormed) : Grown copy [] copy where
  wellFormed := wellFormed
  stores := rfl
  isRegistered := fun _ => Iff.rfl
  pending := fun _ _ => rfl
  adds := fun _ _ member => .own member

/-- One more transition at a location that is being completed. -/
theorem Grown.extend (grown : Grown copy done model) (nextWellFormed : next.WellFormed)
    (grows : model.Extends transition next)
    (stores : next = { model with
      locations := next.locations
      transitions := next.transitions
      initialCondition := next.initialCondition })
    (inDone : transition.source ∈ done) (added : Adds copy transition.source transition) :
    Grown copy done next where
  wellFormed := nextWellFormed
  stores := by
    refine stores.trans ?_
    generalize next.locations = locations, next.transitions = transitions,
      next.initialCondition = condition
    rw [grown.stores]
  isRegistered := fun other => (grows.isRegistered other).trans (grown.isRegistered other)
  pending := by
    intro other notDone
    have different : other ≠ transition.source := fun same => notDone (same ▸ inDone)
    rw [grows.outOf, if_neg different]
    exact grown.pending other notDone
  adds := by
    intro other found member
    rw [grows.outOf] at member
    split at member
    · rename_i same
      subst same
      rcases List.mem_append.mp member with earlier | last
      · exact grown.adds _ found earlier
      · rw [List.mem_singleton.mp last]
        exact added
    · exact grown.adds other found member

theorem Grown.alphabet (grown : Grown copy done model) : model.toAlphabet = copy.toAlphabet := by
  rw [grown.stores]

theorem Grown.clocks (grown : Grown copy done model) : model.clocks = copy.clocks := by
  rw [grown.stores]

theorem Grown.getAction (grown : Grown copy done model) (type : ActionType) (name : String) :
    model.getAction type name = copy.getAction type name := by
  rw [TIOSTS.getAction, TIOSTS.getAction, TIOSTS.actionsOf_eq_of_alphabet grown.alphabet]

/-- The loop that is added has no guard. -/
theorem Grown.addSelfLoop (grown : Grown copy done model) (inDone : label ∈ done)
    (declared : action ∈ copy.getInputOutputActions)
    (unused : ∀ transition ∈ copy.outOf label, transition.action.name ≠ action.name)
    (added : addSelfLoop label model action = .ok next) :
    Grown copy done next ∧ ∀ transition ∈ next.outOf label,
      transition ∈ model.outOf label ∨ transition.getAllGuard = Constants.guardTrue := by
  have found : ∃ other, copy.getAction action.type action.name = some other := by
    apply TIOSTS.exists_getAction
    rcases List.mem_append.mp declared with input | output
    · rw [copy.inputActions_type action input]
      exact input
    · rw [copy.outputActions_type action output]
      exact output
  obtain ⟨nextWellFormed, grows, stores⟩ := extends_of_createTransitionFromText grown.wellFormed
    ⟨label, .constantTrue, ClockGuard.empty, action, none, none,
      Transition.defaultDeadline action, label⟩
    (by rw [grown.getAction]; exact found) added
  refine ⟨grown.extend nextWellFormed grows stores inDone (.loop unused), ?_⟩
  intro transition member
  rw [grows.outOf, if_pos rfl] at member
  rcases List.mem_append.mp member with earlier | last
  · exact Or.inl earlier
  · rw [List.mem_singleton.mp last]
    exact Or.inr rfl

theorem Grown.addNegation (grown : Grown copy done model) (inDone : label ∈ done)
    (copyWellFormed : copy.WellFormed)
    (member : transition ∈ copy.outOf label ∨ transition.getAllGuard = Constants.guardTrue)
    (added : addNegation label model transition = .ok next) : Grown copy done next := by
  rw [Completion.addNegation] at added
  split at added
  · cases added
    exact grown
  · rename_i guarded
    have inCopy := member.resolve_right guarded
    obtain ⟨⟨dataGuard, clockGuard⟩, negated, added⟩ := bind_eq_ok.mp added
    have declared : ∃ other, model.getAction transition.action.type transition.action.name =
        some other := by
      rw [grown.getAction]
      exact copyWellFormed.action_declared inCopy
    obtain ⟨nextWellFormed, grows, stores⟩ := extends_of_createTransitionFromText grown.wellFormed
      ⟨label, dataGuard, clockGuard, transition.action, none, none, transition.deadline,
        negationTarget label transition⟩ declared added
    rw [grown.clocks] at grows
    exact grown.extend nextWellFormed grows stores inDone (.negation inCopy negated)

/-- Completing one more location. -/
theorem Grown.completeLocation (grown : Grown copy done model) (copyWellFormed : copy.WellFormed)
    (fresh : label ∉ done) (completed : completeLocation model label = .ok next) :
    Grown copy (done ++ [label]) next := by
  have start : Grown copy (done ++ [label]) model := by
    refine { grown with pending := ?_ }
    intro other notDone
    exact grown.pending other (fun inDone => notDone (List.mem_append_left _ inDone))
  have inDone : label ∈ done ++ [label] := List.mem_append_right _ (List.mem_singleton_self _)
  have pending := grown.pending label fresh
  obtain ⟨location, found, completed⟩ := bind_eq_ok.mp completed
  have out : location.outTransitions = copy.outOf label := by
    rw [← pending, TIOSTS.outOf_eq _ _ (deref_eq_ok.mp found)]
  split at completed
  · obtain ⟨looped, loops, completed⟩ := bind_eq_ok.mp completed
    obtain ⟨again, foundAgain, completed⟩ := bind_eq_ok.mp completed
    -- the second pass runs over the copied transitions and the loops, which have no guards
    have afterLoops : Grown copy (done ++ [label]) looped ∧
        ∀ transition ∈ looped.outOf label,
          transition ∈ copy.outOf label ∨ transition.getAllGuard = Constants.guardTrue := by
      refine Loops.foldlM_returned (fun _ state => Grown copy (done ++ [label]) state ∧
        ∀ transition ∈ state.outOf label,
          transition ∈ copy.outOf label ∨ transition.getAllGuard = Constants.guardTrue)
        loops ⟨start, fun transition member => Or.inl (pending ▸ member)⟩ ?_
      rintro before action rest state after whole ⟨stateGrown, known⟩ stepped
      have remaining : action ∈ getRemainingActions location model.getInputOutputActions := by
        rw [whole]
        simp
      obtain ⟨declared, unused⟩ := mem_getRemainingActions.mp remaining
      rw [out] at unused
      have inCopy : action ∈ copy.getInputOutputActions := by
        rw [TIOSTS.getInputOutputActions, ← grown.alphabet]
        exact declared
      obtain ⟨afterGrown, added⟩ := stateGrown.addSelfLoop inDone inCopy unused stepped
      refine ⟨afterGrown, fun transition member => ?_⟩
      rcases added transition member with earlier | unguarded
      · exact known transition earlier
      · exact Or.inr unguarded
    refine Loops.foldlM_returned (fun _ state => Grown copy (done ++ [label]) state) completed
      afterLoops.1 ?_
    intro before transition rest state after whole stateGrown stepped
    have member : transition ∈ looped.outOf label := by
      rw [TIOSTS.outOf_eq _ _ (deref_eq_ok.mp foundAgain), whole]
      simp
    exact stateGrown.addNegation inDone copyWellFormed (afterLoops.2 transition member) stepped
  · cases completed
    exact start

end Steps

/-- The copy that is completed. -/
structure IsCopied (order : IterationOrder) (tp copy : TIOSTS) : Prop where
  wellFormed : copy.WellFormed
  outOf : ∀ label, copy.outOf label =
    (tp.copiedTransitions order).filter (fun transition => label = transition.source)
  isRegistered : ∀ label, copy.IsRegistered label ↔
    label = Constants.locationLabelReject ∨ tp.IsRegistered label
  initialLocation : copy.initialLocation =
    (((tp.getLocations order).filter Location.isInitialLocation).getLast?).map Location.label
  modelVariables : copy.modelVariables = tp.modelVariables
  actionParameters : copy.actionParameters = tp.actionParameters
  clocks : copy.clocks = tp.clocks

/-- What completion returns. -/
theorem complete_grown {order : IterationOrder} {tp tpComplete : TIOSTS}
    (wellFormed : tp.WellFormed) (completed : complete order tp = .ok tpComplete) :
    ∃ copy, IsCopied order tp copy ∧
      Grown copy (order.arrange copy.locations.keys) tpComplete := by
  obtain ⟨copy, copied, isCopy⟩ := TIOSTS.clone_isExactCopy order wellFormed
  rw [complete, copied, ok_bind] at completed
  have named : (copy.setName (tp.name ++ "_complete")).WellFormed :=
    ⟨isCopy.wellFormed.label_eq, isCopy.wellFormed.source_eq,
      isCopy.wellFormed.target_registered, isCopy.wellFormed.action_declared,
      isCopy.wellFormed.initial_registered, isCopy.wellFormed.stored⟩
  let start := (copy.setName (tp.name ++ "_complete")).addLocation
    (Location.new Constants.locationLabelReject false)
  have startWellFormed : start.WellFormed := named.addLocation _ _
  have stores : start = { copy.setName (tp.name ++ "_complete") with
      locations := start.locations } := TIOSTS.addLocation_eq _ _
  refine ⟨start, ⟨startWellFormed, ?_, ?_, ?_, ?_, ?_, ?_⟩, ?_⟩
  · intro label
    rw [← isCopy.outOf]
    exact TIOSTS.outOf_addLocation _ _ _ _
  · intro label
    rw [TIOSTS.isRegistered_addLocation, ← isCopy.isRegistered]
    rfl
  · rw [← isCopy.initialLocation, stores]
    rfl
  · rw [← isCopy.modelVariables, stores]
    rfl
  · rw [← isCopy.actionParameters, stores]
    rfl
  · rw [← isCopy.clocks, stores]
    rfl
  · have nodup : (order.arrange start.locations.keys).Nodup :=
      (order.arrange_perm start.locations.keys).nodup_iff.mpr start.locations.keys_nodup
    refine Loops.foldlM_returned (Grown start) completed (Grown.start startWellFormed) ?_
    intro done label rest state after whole grown stepped
    rw [whole] at nodup
    refine grown.completeLocation startWellFormed (fun inDone => ?_) stepped
    exact (List.nodup_append.mp nodup).2.2 label inDone label List.mem_cons_self rfl

end Inversion

end Completion

end Symbolrt
