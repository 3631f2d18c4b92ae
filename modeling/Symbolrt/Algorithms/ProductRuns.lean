import Symbolrt.Algorithms.ProductMoves

/-!
# Runs of the product construction

Setting up the product copies the declarations of the two models, the search
builds its locations and transitions, and finishing it marks the initial location
and mirrors the actions.  `IsProductRun` collects what is known about a product
that has been returned.
-/

namespace Symbolrt

open SynchronousProduct

theorem foldlM_addTpVariable {added : List TypedData} {sp result : TIOSTS}
    (returned : added.foldlM addTpVariable sp = .ok result) :
    result = { sp with modelVariables := sp.modelVariables ++ added } := by
  induction added generalizing sp with
  | nil =>
      cases returned
      simp
  | cons head tail induction =>
      rw [List.foldlM_cons, bind_eq_ok] at returned
      obtain ⟨middle, first, rest⟩ := returned
      unfold addTpVariable at first
      split at first
      · cases first
      · cases first
        rw [induction rest]
        simp [TIOSTS.addVariable]

/-- The clocks of the test purpose are added, and all of them are new. -/
theorem foldlM_addTpClock {added : List String} {sp result : TIOSTS}
    (returned : added.foldlM addTpClock sp = .ok result) :
    result = { sp with clocks := sp.clocks ++ added } ∧
      ∀ clock ∈ added, clock ∉ sp.clocks := by
  induction added generalizing sp with
  | nil =>
      cases returned
      simp
  | cons head tail induction =>
      rw [List.foldlM_cons, bind_eq_ok] at returned
      obtain ⟨middle, first, rest⟩ := returned
      unfold addTpClock at first
      split at first
      · cases first
      · rename_i isNew
        cases first
        obtain ⟨resultEq, later⟩ := induction rest
        refine ⟨by simp [resultEq, TIOSTS.addClock], ?_⟩
        intro clock member
        rcases List.mem_cons.mp member with rfl | inTail
        · exact isNew
        · intro old
          exact later clock inTail (by simp [TIOSTS.addClock, old])

/-- What a product that has been set up declares. -/
structure Declares (spec tp initial : TIOSTS) : Prop where
  setUp : initial.IsBlank
  actions : ∀ type, initial.actionsOf type = spec.actionsOf type
  clocks : initial.clocks = spec.clocks ++ tp.clocks
  clocks_disjoint : ∀ clock ∈ tp.clocks, clock ∉ spec.clocks
  modelVariables : initial.modelVariables = spec.modelVariables ++ tp.modelVariables
  actionParameters : initial.actionParameters = spec.actionParameters

theorem initializeSyncProduct_declares {spec tp initial : TIOSTS}
    (returned : initializeSyncProduct spec tp = .ok initial) :
    Declares spec tp initial := by
  unfold initializeSyncProduct at returned
  simp only [TIOSTS.foldl_addVariable, TIOSTS.foldl_addActionParameter,
    TIOSTS.foldl_addClock, TIOSTS.foldl_addAction] at returned
  rw [bind_eq_ok] at returned
  obtain ⟨withVariables, variablesAdded, returned⟩ := returned
  rw [bind_eq_ok] at returned
  obtain ⟨_, _, returned⟩ := returned
  rw [bind_eq_ok] at returned
  obtain ⟨withClocks, clocksAdded, returned⟩ := returned
  have variablesEq := foldlM_addTpVariable variablesAdded
  obtain ⟨clocksEq, disjoint⟩ := foldlM_addTpClock clocksAdded
  cases returned
  subst clocksEq variablesEq
  constructor
  · constructor <;> rfl
  · intro type
    exact Alphabet.actionsOf_copy spec.toAlphabet type
  · simp [TIOSTS.new]
  · simpa [TIOSTS.new] using disjoint
  · simp [TIOSTS.new]
  · simp [TIOSTS.new]

theorem Declares.isProductSetUp {spec tp initial : TIOSTS}
    (declares : Declares spec tp initial) (specWellFormed : spec.WellFormed)
    (tpWellFormed : tp.WellFormed) : IsProductSetUp spec tp initial where
  specWellFormed := specWellFormed
  tpWellFormed := tpWellFormed
  setUp := declares.setUp
  declares := by
    intro type name
    rw [TIOSTS.getAction, declares.actions]
    rfl

section Mirror

variable (model : TIOSTS)

theorem mirror_getLocation (label : String) :
    (mirror model).getLocation label = (model.getLocation label).map Location.mirror :=
  List.dlookup_map₂ label

theorem mirror_outOf (label : String) :
    (mirror model).outOf label = (model.outOf label).map Transition.mirror := by
  unfold TIOSTS.outOf
  rw [mirror_getLocation]
  cases model.getLocation label <;> rfl

theorem mirror_isRegistered (label : String) :
    (mirror model).IsRegistered label ↔ model.IsRegistered label := by
  rw [TIOSTS.isRegistered_iff, TIOSTS.isRegistered_iff, mirror_getLocation]
  simp

theorem mirror_transitions (key : String) :
    (mirror model).transitions.lookup key =
      (model.transitions.lookup key).map Transition.mirror :=
  List.dlookup_map₂ key

theorem mirror_actionsOf (type : ActionType) :
    (mirror model).actionsOf type.mirror = (model.actionsOf type).map Action.mirror := by
  cases type with
  | input =>
      apply List.map_congr_left
      intro action member
      rw [Action.mirror, model.inputActions_type action member]
  | output =>
      apply List.map_congr_left
      intro action member
      rw [Action.mirror, model.outputActions_type action member]
  | internal =>
      have same : model.internalActions.map Action.mirror = model.internalActions := by
        refine (List.map_congr_left ?_).trans (List.map_id _)
        intro action member
        rw [Action.mirror, model.internalActions_type action member]
        rfl
      exact same.symm

theorem mirror_getAction (type : ActionType) (name : String) :
    (mirror model).getAction type.mirror name =
      (model.getAction type name).map Action.mirror := by
  unfold TIOSTS.getAction
  rw [mirror_actionsOf, List.find?_map]
  simp only [Function.comp_def, Action.mirror_name]

theorem mirror_wellFormed {model : TIOSTS} (wellFormed : model.WellFormed) :
    (mirror model).WellFormed where
  label_eq := by
    intro label location found
    rw [mirror_getLocation] at found
    obtain ⟨before, beforeFound, rfl⟩ := Option.map_eq_some_iff.mp found
    have beforeLabel := wellFormed.label_eq beforeFound
    exact beforeLabel
  source_eq := by
    intro label transition member
    rw [mirror_outOf] at member
    obtain ⟨before, beforeMember, rfl⟩ := List.mem_map.mp member
    have beforeSource := wellFormed.source_eq beforeMember
    exact beforeSource
  target_registered := by
    intro label transition member
    rw [mirror_outOf] at member
    obtain ⟨before, beforeMember, rfl⟩ := List.mem_map.mp member
    have registered := wellFormed.target_registered beforeMember
    exact (mirror_isRegistered model _).mpr registered
  action_declared := by
    intro label transition member
    rw [mirror_outOf] at member
    obtain ⟨before, beforeMember, rfl⟩ := List.mem_map.mp member
    obtain ⟨action, found⟩ := wellFormed.action_declared beforeMember
    refine ⟨action.mirror, ?_⟩
    simp only [Transition.mirror, Action.mirror_type, Action.mirror_name]
    rw [mirror_getAction, found]
    rfl
  initial_registered := by
    intro label isInitial
    obtain ⟨location, found, flagged⟩ := wellFormed.initial_registered isInitial
    exact ⟨location.mirror, by rw [mirror_getLocation, found]; rfl, flagged⟩
  stored := by
    intro key transition found
    rw [mirror_transitions] at found
    obtain ⟨before, beforeFound, rfl⟩ := Option.map_eq_some_iff.mp found
    obtain ⟨keyEq, member⟩ := wellFormed.stored beforeFound
    rw [mirror_outOf]
    refine ⟨?_, List.mem_map_of_mem member⟩
    rw [← keyEq]
    simp [Transition.key, Transition.mirror]

end Mirror

/-- The product being built is well formed at every moment. -/
theorem build_wellFormed {spec tp initial : TIOSTS}
    (product : IsProductSetUp spec tp initial) {log : List ProductMove}
    (actual : ∀ move ∈ log, ∃ pair, move ∈ movesAt spec tp pair) :
    (build initial log).WellFormed := by
  induction log with
  | nil => exact product.setUp.wellFormed
  | cons move log induction =>
      have before := induction (fun other member => actual other (by simp [member]))
      rw [build_cons, ProductMove.enter]
      apply ((before.addLocation _ _).addLocation _ _).register
      · rw [TIOSTS.isRegistered_addLocation, TIOSTS.isRegistered_addLocation]
        exact Or.inr (Or.inl rfl)
      · rw [TIOSTS.isRegistered_addLocation]
        exact Or.inl rfl
      · obtain ⟨pair, member⟩ := actual move (by simp)
        have found := actionIn_eq product move (mem_movesAt spec tp member).2.1
        obtain ⟨_, type, name⟩ := TIOSTS.getAction_eq_some found
        refine ⟨move.actionIn initial, ?_⟩
        rw [TIOSTS.getAction, TIOSTS.addLocation_alphabet, TIOSTS.addLocation_alphabet,
          build_alphabet]
        simp only [ProductMove.transition, type, name]
        exact found

/-- What is known about a product that has been returned: `final` lists the
moves that were taken, the newest first. -/
structure IsProductRun (spec tp initial : TIOSTS) (root : LocationPair)
    (final : List ProductMove) (result : TIOSTS) : Prop where
  specWellFormed : spec.WellFormed
  tpWellFormed : tp.WellFormed
  declares : Declares spec tp initial
  specInitial : spec.initialLocation = some root.specLabel
  tpInitial : tp.initialLocation = some root.tpLabel
  expands : (productSearch spec tp initial.clocks).Expands (movesAt spec tp root) [] final
  outOf : ∀ label, result.outOf label =
    (final.reverse.filter (fun move => label = move.source.label)).map
      (fun move => (move.transition initial).mirror)
  isRegistered : ∀ label, result.IsRegistered label ↔
    ∃ move ∈ final, label = move.source.label ∨ label = move.target.label
  initialLocation : result.initialLocation = some root.label
  clocks : result.clocks = spec.clocks ++ tp.clocks
  actionsOf : ∀ type, result.actionsOf type.mirror =
    (spec.actionsOf type).map Action.mirror
  wellFormed : result.WellFormed

theorem IsProductRun.root_eq {spec tp initial result : TIOSTS} {root other : LocationPair}
    {final : List ProductMove} (run : IsProductRun spec tp initial other final result)
    (specInitial : spec.initialLocation = some root.specLabel)
    (tpInitial : tp.initialLocation = some root.tpLabel) : other = root := by
  have specEq := run.specInitial
  have tpEq := run.tpInitial
  rw [specInitial] at specEq
  rw [tpInitial] at tpEq
  obtain ⟨otherSpec, otherTp⟩ := other
  obtain ⟨specLabel, tpLabel⟩ := root
  simp_all

theorem initialLocationOf_eq_ok {model : TIOSTS} (wellFormed : model.WellFormed)
    {location : Location} :
    initialLocationOf model = .ok location ↔
      model.initialLocation = some location.label ∧
        model.getLocation location.label = some location := by
  unfold initialLocationOf
  simp only [bind_eq_ok, deref_eq_ok]
  constructor
  · rintro ⟨label, isInitial, found⟩
    rw [wellFormed.label_eq found]
    exact ⟨isInitial, found⟩
  · rintro ⟨isInitial, found⟩
    exact ⟨_, isInitial, found⟩

section Finish

variable {spec tp initial : TIOSTS} {specLoc tpLoc : Location} {final : List ProductMove}

theorem finish_eq_ok (product : IsProductSetUp spec tp initial) {result : TIOSTS} :
    finish specLoc tpLoc (build initial final) = .ok result ↔
      ∃ first rest,
        (build initial final).outOf (pairLabel specLoc.label tpLoc.label) = first :: rest ∧
        result = mirror (((build initial final).setInitialLocation
          (pairLabel specLoc.label tpLoc.label)).setInitialCondition
            (some first.dataGuard)) := by
  unfold finish
  simp only [bind_eq_ok, deref_eq_ok]
  constructor
  · rintro ⟨location, found, returned⟩
    rw [(build_unflagged product.setUp final _ _ found).1] at returned
    rw [TIOSTS.outOf_eq _ _ found]
    split at returned
    · cases returned
    · rename_i first rest out
      cases returned
      exact ⟨first, rest, out, rfl⟩
  · rintro ⟨first, rest, out, rfl⟩
    cases found : (build initial final).getLocation
        (pairLabel specLoc.label tpLoc.label) with
    | none => simp [TIOSTS.outOf, found] at out
    | some location =>
        rw [TIOSTS.outOf_eq _ _ found] at out
        refine ⟨location, rfl, ?_⟩
        rw [(build_unflagged product.setUp final _ _ found).1, out]

end Finish

/-- Every product the tool returns comes from a search that has ended. -/
theorem synchronousProduct_inversion {spec tp result : TIOSTS} {depth : Nat}
    (specWellFormed : spec.WellFormed) (tpWellFormed : tp.WellFormed)
    (returned : synchronousProduct depth spec tp = .ok result) :
    ∃ initial specLoc tpLoc final, initializeSyncProduct spec tp = .ok initial ∧
      initialLocationOf spec = .ok specLoc ∧ initialLocationOf tp = .ok tpLoc ∧
      (productSearch spec tp initial.clocks).Expands
        (movesAt spec tp ⟨specLoc.label, tpLoc.label⟩) [] final ∧
      finish specLoc tpLoc (build initial final) = .ok result := by
  unfold synchronousProduct at returned
  simp only [bind_eq_ok] at returned
  obtain ⟨initial, initialized, specLoc, specStart, tpLoc, tpStart, sp, searched,
    finished⟩ := returned
  have specFound := ((initialLocationOf_eq_ok specWellFormed).mp specStart).2
  have tpFound := ((initialLocationOf_eq_ok tpWellFormed).mp tpStart).2
  have product := (initializeSyncProduct_declares initialized).isProductSetUp specWellFormed
    tpWellFormed
  have simulated : syncProduct spec tp depth specLoc tpLoc initial = _ :=
    syncProduct_build product depth specFound tpFound []
  rw [simulated] at searched
  cases visited : (productSearch spec tp initial.clocks).visit depth
      ⟨specLoc.label, tpLoc.label⟩ [] with
  | none => simp [visited, built] at searched
  | some final =>
      rw [visited] at searched
      cases searched
      exact ⟨initial, specLoc, tpLoc, final, initialized, specStart, tpStart,
        KeyedSearch.visit_expands visited, finished⟩

theorem synchronousProduct_unique {spec tp result other : TIOSTS} {depth otherDepth : Nat}
    (specWellFormed : spec.WellFormed) (tpWellFormed : tp.WellFormed)
    (returned : synchronousProduct depth spec tp = .ok result)
    (otherReturned : synchronousProduct otherDepth spec tp = .ok other) :
    result = other := by
  obtain ⟨initial, specLoc, tpLoc, final, initialized, specStart, tpStart, expands,
    finished⟩ := synchronousProduct_inversion specWellFormed tpWellFormed returned
  obtain ⟨otherInitial, otherSpecLoc, otherTpLoc, otherFinal, otherInitialized,
    otherSpecStart, otherTpStart, otherExpands, otherFinished⟩ :=
    synchronousProduct_inversion specWellFormed tpWellFormed otherReturned
  obtain rfl := Except.ok.inj (initialized.symm.trans otherInitialized)
  obtain rfl := Except.ok.inj (specStart.symm.trans otherSpecStart)
  obtain rfl := Except.ok.inj (tpStart.symm.trans otherTpStart)
  obtain rfl := expands.unique otherExpands
  exact Except.ok.inj (finished.symm.trans otherFinished)

theorem isProductRun_of_ok {spec tp result : TIOSTS} {depth : Nat}
    (specWellFormed : spec.WellFormed) (tpWellFormed : tp.WellFormed)
    (returned : synchronousProduct depth spec tp = .ok result) :
    ∃ initial root final, initializeSyncProduct spec tp = .ok initial ∧
      IsProductRun spec tp initial root final result := by
  obtain ⟨initial, specLoc, tpLoc, final, initialized, specStart, tpStart, expands,
    finished⟩ := synchronousProduct_inversion specWellFormed tpWellFormed returned
  obtain ⟨specInitial, _⟩ := (initialLocationOf_eq_ok specWellFormed).mp specStart
  obtain ⟨tpInitial, _⟩ := (initialLocationOf_eq_ok tpWellFormed).mp tpStart
  have declares := initializeSyncProduct_declares initialized
  have product := declares.isProductSetUp specWellFormed tpWellFormed
  obtain ⟨first, rest, out, rfl⟩ := (finish_eq_ok product).mp finished
  refine ⟨initial, ⟨specLoc.label, tpLoc.label⟩, final, initialized, ?_⟩
  have actual : ∀ move ∈ final, ∃ pair, move ∈ movesAt spec tp pair := by
    intro move member
    obtain ⟨node, _, atNode⟩ := expands.sound_root move member
    exact ⟨node, atNode⟩
  have buildWellFormed := build_wellFormed product actual
  have registered : (build initial final).IsRegistered
      (pairLabel specLoc.label tpLoc.label) := by
    rw [TIOSTS.isRegistered_iff]
    cases found : (build initial final).getLocation
        (pairLabel specLoc.label tpLoc.label) with
    | none => simp [TIOSTS.outOf, found] at out
    | some location => exact ⟨location, rfl⟩
  exact
    { specWellFormed := specWellFormed
      tpWellFormed := tpWellFormed
      declares := declares
      specInitial := specInitial
      tpInitial := tpInitial
      expands := expands
      outOf := by
        intro label
        rw [mirror_outOf, TIOSTS.outOf_setInitialCondition,
          TIOSTS.outOf_setInitialLocation, build_outOf product.setUp, List.map_map]
        rfl
      isRegistered := by
        intro label
        rw [mirror_isRegistered, TIOSTS.isRegistered_setInitialCondition,
          TIOSTS.isRegistered_setInitialLocation, build_isRegistered product.setUp]
      initialLocation := rfl
      clocks := by
        have kept := TIOSTS.updateLocation_clocks (build initial final)
          (pairLabel specLoc.label tpLoc.label) (Location.setIsInitialLocation true)
        exact kept.trans ((build_clocks final).trans declares.clocks)
      actionsOf := by
        intro type
        rw [mirror_actionsOf, ← declares.actions]
        congr 1
        apply TIOSTS.actionsOf_eq_of_alphabet
        have kept := TIOSTS.updateLocation_alphabet (build initial final)
          (pairLabel specLoc.label tpLoc.label) (Location.setIsInitialLocation true)
        exact kept.trans (build_alphabet final)
      wellFormed := mirror_wellFormed
        ((buildWellFormed.setInitialLocation registered).setInitialCondition _) }

end Symbolrt
