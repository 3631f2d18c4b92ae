import Symbolrt.Compositions.InterruptionComposition

/-!
# The result of an interruption composition

What the result declares, which locations it has, and what each of the three stages
creates: the transitions that are kept, one merged transition for each point, and the
transitions that are created again with an end of a point.
-/

namespace Symbolrt

/-- The transition differs from the other one in its ends at most. -/
def Transition.HasFieldsOf (transition origin : Transition) : Prop :=
  transition = { origin with source := transition.source, target := transition.target }

theorem Transition.HasFieldsOf.action {transition origin : Transition}
    (has : transition.HasFieldsOf origin) : transition.action = origin.action := by
  rw [has]

theorem Transition.HasFieldsOf.clockGuard {transition origin : Transition}
    (has : transition.HasFieldsOf origin) : transition.clockGuard = origin.clockGuard := by
  rw [has]

namespace InterruptionComposition

theorem intersectionActions_nodup (actions1 actions2 : List Action) :
    (intersectionActions actions1 actions2).Nodup := by
  have inner : ∀ (c1 : Action) (rest : List Action) (found : List String), found.Nodup →
      (rest.foldl (fun intersectionSet c2 =>
        if c1.name = c2.name ∧ c1.type ≠ c2.type ∧ c1.name ∉ intersectionSet then
          intersectionSet ++ [c1.name]
        else intersectionSet) found).Nodup := by
    intro c1 rest
    induction rest with
    | nil => exact fun found nodup => nodup
    | cons c2 rest induction =>
        intro found nodup
        rw [List.foldl_cons]
        apply induction
        split
        · rename_i fresh
          apply nodup.append (List.nodup_singleton _)
          simpa using fresh.2.2
        · exact nodup
  suffices general : ∀ (rest : List Action) (found : List String), found.Nodup →
      (rest.foldl (fun intersectionSet c1 => actions2.foldl (fun intersectionSet c2 =>
        if c1.name = c2.name ∧ c1.type ≠ c2.type ∧ c1.name ∉ intersectionSet then
          intersectionSet ++ [c1.name]
        else intersectionSet) intersectionSet) found).Nodup from
    general actions1 [] List.nodup_nil
  intro rest
  induction rest with
  | nil => exact fun found nodup => nodup
  | cons c1 rest induction =>
      intro found nodup
      rw [List.foldl_cons]
      apply induction
      exact inner c1 actions2 found nodup

section Points

variable {order : IterationOrder} {model1 model2 : TIOSTS} {parts : Parts}

/-- What is known about the transitions of a point. -/
structure IsPoint (order : IterationOrder) (parts : Parts) (point : Point) : Prop where
  actionSync : point.actionSync ∈ parts.eSync
  t1Sync : point.t1Sync ∈ parts.tiosts1.getTransitions order ∧
    point.t1Sync.action.name = point.actionSync
  t2Sync : point.t2Sync ∈ parts.tiosts2.getTransitions order ∧
    point.t2Sync.action.name = point.actionSync

theorem recoverTransition_mem {transitions : List Transition} {name : String}
    {transition : Transition} (found : recoverTransition transitions name = some transition) :
    transition ∈ transitions ∧ transition.action.name = name := by
  rw [recoverTransition_eq] at found
  obtain ⟨member, named⟩ := List.mem_filter.mp (List.mem_of_getLast? found)
  exact ⟨member, of_decide_eq_true named⟩

theorem findPoint_eq_ok {tiosts1 tiosts2 : TIOSTS} {actionSync : String} {point : Point}
    (found : findPoint order tiosts1 tiosts2 actionSync = .ok point) :
    point.actionSync = actionSync ∧
      recoverTransition (tiosts1.getTransitions order) actionSync = some point.t1Sync ∧
        recoverTransition (tiosts2.getTransitions order) actionSync = some point.t2Sync := by
  obtain ⟨t1Sync, found1, found⟩ := bind_eq_ok.mp found
  obtain ⟨t2Sync, found2, found⟩ := bind_eq_ok.mp found
  obtain rfl := Except.ok.inj found
  exact ⟨rfl, deref_eq_ok.mp found1, deref_eq_ok.mp found2⟩

theorem IsParts.points_found (isParts : IsParts order model1 model2 parts) :
    parts.points.map Point.actionSync = parts.eSync ∧ ∀ point ∈ parts.points,
      findPoint order parts.tiosts1 parts.tiosts2 point.actionSync = .ok point :=
  Loops.mapM_found (fun _ _ found => (findPoint_eq_ok found).1) isParts.points

theorem IsParts.points_nodup (isParts : IsParts order model1 model2 parts) :
    (parts.points.map Point.actionSync).Nodup := by
  rw [isParts.points_found.1]
  exact intersectionActions_nodup _ _

theorem IsParts.isPoint (isParts : IsParts order model1 model2 parts) {point : Point}
    (member : point ∈ parts.points) : IsPoint order parts point := by
  obtain ⟨_, found1, found2⟩ := findPoint_eq_ok (isParts.points_found.2 point member)
  constructor
  · rw [← isParts.points_found.1]
    exact List.mem_map_of_mem member
  · exact recoverTransition_mem found1
  · exact recoverTransition_mem found2

end Points

theorem foldl_addOutputAction_subset (actions outputActions : List Action) :
    ∀ action ∈ actions.foldl addOutputAction outputActions,
      action ∈ outputActions ∨ action ∈ actions := by
  induction actions generalizing outputActions with
  | nil => exact fun action member => Or.inl member
  | cons first rest induction =>
      intro action member
      rcases induction (addOutputAction outputActions first) action member with before | later
      · unfold addOutputAction at before
        split at before
        · exact Or.inl before
        · rcases List.mem_append.mp before with old | new
          · exact Or.inl old
          · exact Or.inr (List.mem_cons.mpr (Or.inl (List.mem_singleton.mp new)))
      · exact Or.inr (List.mem_cons_of_mem _ later)

theorem mem_foldl_addOutputAction (actions outputActions : List Action) (name : String) :
    name ∈ (actions.foldl addOutputAction outputActions).map Action.name ↔
      name ∈ outputActions.map Action.name ∨ name ∈ actions.map Action.name := by
  induction actions generalizing outputActions with
  | nil => simp
  | cons first rest induction =>
      rw [List.foldl_cons, induction]
      have step : name ∈ (addOutputAction outputActions first).map Action.name ↔
          name ∈ outputActions.map Action.name ∨ name = first.name := by
        unfold addOutputAction
        split
        · rename_i present
          constructor
          · exact Or.inl
          · rintro (old | rfl)
            · exact old
            · obtain ⟨other, member, same⟩ := List.any_eq_true.mp present
              rw [of_decide_eq_true same]
              exact List.mem_map_of_mem member
        · simp
      rw [step, List.map_cons, List.mem_cons]
      tauto

namespace Parts

variable (parts : Parts)

/-- The actions of the result: outputs of both models, inputs of both that do not
synchronise, but only the internal actions of the first. -/
def declaredActions : ActionType → List Action
  | .input => (parts.tiosts1.inputActions ++ parts.tiosts2.inputActions).filter
      (fun action => action.name ∉ parts.eSync)
  | .output => (parts.tiosts1.outputActions ++ parts.tiosts2.outputActions).foldl
      addOutputAction []
  | .internal => parts.tiosts1.internalActions

theorem declared_isBlank : parts.declared.IsBlank := by
  unfold declared declare
  simp only [TIOSTS.foldl_addAction]
  exact ⟨rfl, rfl, rfl⟩

theorem declared_actionsOf (type : ActionType) :
    parts.declared.actionsOf type = parts.declaredActions type := by
  have inputs : ∀ action ∈ parts.declaredActions .input, action.type = .input := by
    intro action member
    rcases List.mem_append.mp (List.mem_filter.mp member).1 with one | two
    · exact parts.tiosts1.inputActions_type action one
    · exact parts.tiosts2.inputActions_type action two
  have outputs : ∀ action ∈ parts.declaredActions .output, action.type = .output := by
    intro action member
    rcases foldl_addOutputAction_subset _ _ action member with nothing | listed
    · cases nothing
    · rcases List.mem_append.mp listed with one | two
      · exact parts.tiosts1.outputActions_type action one
      · exact parts.tiosts2.outputActions_type action two
  have internals := parts.tiosts1.internalActions_type
  have folded : parts.declared.actionsOf type =
      parts.tiosts1.internalActions.filter (fun action => action.type = type) ++
        (parts.declaredActions .output).filter (fun action => action.type = type) ++
          (parts.declaredActions .input).filter (fun action => action.type = type) := by
    unfold declared declare
    simp only [TIOSTS.foldl_addAction, Alphabet.actionsOf_foldl]
    cases type <;> rfl
  rw [folded]
  cases type with
  | input =>
      rw [filter_type_other internals (by decide), filter_type_other outputs (by decide),
        filter_type_self inputs]
      rfl
  | output =>
      rw [filter_type_other internals (by decide), filter_type_self outputs,
        filter_type_other inputs (by decide)]
      simp
  | internal =>
      rw [filter_type_self internals, filter_type_other outputs (by decide),
        filter_type_other inputs (by decide)]
      simp [declaredActions]

variable (order : IterationOrder)

/-- The labels of the result before the points are added. -/
def keptLabels : List String :=
  Symbolrt.keptLabels (parts.excluded1 order) (parts.tiosts1.getLocations order) ++
    Symbolrt.keptLabels (parts.excluded2 order) (parts.tiosts2.getLocations order)

theorem base_adds : AddsLocations parts.declared (parts.keptLabels order) (parts.base order) := by
  obtain ⟨first, _⟩ := (AddsLocations.refl
    parts.declared_isBlank.wellFormed.label_eq).foldl_addFirstLocation
      (parts.excluded1 order) (parts.tiosts1.getLocations order)
  obtain ⟨second, _⟩ := first.foldl_addSecondLocation
    (parts.excluded2 order) (parts.tiosts2.getLocations order)
  rw [List.nil_append] at second
  exact second

end Parts

/-- The result has the given locations and has been given the created transitions. -/
structure Holds (start : TIOSTS) (labels : List String) (created : List Transition)
    (result : TIOSTS) : Prop where
  labelled : result.Labelled
  isRegistered : ∀ label, result.IsRegistered label ↔ label ∈ labels
  ends : ∀ transition ∈ created, transition.source ∈ labels ∧ transition.target ∈ labels
  outOf : ∀ label, result.outOf label =
    created.filter (fun transition => label = transition.source)
  lookup : ∀ key, result.transitions.lookup key =
    (created.filter (fun transition => key = transition.key)).getLast?
  actionNames : ∀ type, (result.actionsOf type).map Action.name =
    (start.actionsOf type).map Action.name
  initialLocation : result.initialLocation = start.initialLocation
  clocks : result.clocks = start.clocks

section Creation

variable {start result : TIOSTS} {labels : List String} {created : List Transition}

theorem Holds.grow (holds : Holds start labels created result) {added : List Transition}
    (ends : ∀ transition ∈ added, transition.source ∈ labels ∧ transition.target ∈ labels)
    {next : TIOSTS} (grows : result.Grows added next) :
    Holds start labels (created ++ added) next where
  labelled := grows.labelled
  isRegistered := fun label => (grows.isRegistered label).trans (holds.isRegistered label)
  ends := by
    intro transition member
    rcases List.mem_append.mp member with before | new
    · exact holds.ends transition before
    · exact ends transition new
  outOf := by
    intro label
    rw [grows.outOf, holds.outOf, List.filter_append]
  lookup := by
    intro key
    rw [grows.lookup, holds.lookup, List.filter_append, List.getLast?_append]
  actionNames := by
    intro type
    rw [← holds.actionNames, grows.stores]
  initialLocation := by
    rw [← holds.initialLocation, grows.stores]
  clocks := by
    rw [← holds.clocks, grows.stores]

theorem Holds.createAll (holds : Holds start labels created result) {added : List Transition}
    (ends : ∀ transition ∈ added, transition.source ∈ labels ∧ transition.target ∈ labels) :
    ∃ next, added.foldlM TIOSTS.create result = .ok next ∧
      Holds start labels (created ++ added) next := by
  have registered : ∀ transition ∈ added,
      result.IsRegistered transition.source ∧ result.IsRegistered transition.target := by
    intro transition member
    rw [holds.isRegistered, holds.isRegistered]
    exact ends transition member
  obtain ⟨next, returned, grows⟩ := TIOSTS.createAll_ok holds.labelled registered
  exact ⟨next, returned, holds.grow ends grows⟩

theorem Holds.createAll_returned (holds : Holds start labels created result)
    {added : List Transition} {next : TIOSTS}
    (returned : added.foldlM TIOSTS.create result = .ok next) :
    Holds start labels (created ++ added) next := by
  obtain ⟨registered, grows⟩ := TIOSTS.createAll_returned holds.labelled returned
  have ends : ∀ transition ∈ added,
      transition.source ∈ labels ∧ transition.target ∈ labels := by
    intro transition member
    rw [← holds.isRegistered, ← holds.isRegistered]
    exact registered transition member
  exact holds.grow ends grows

theorem create_eq_foldlM (transition : Transition) :
    result.create transition = [transition].foldlM TIOSTS.create result := by
  rw [List.foldlM_cons]
  cases result.create transition <;> rfl

theorem Holds.create (holds : Holds start labels created result) {transition : Transition}
    (source : transition.source ∈ labels) (target : transition.target ∈ labels) :
    ∃ next, result.create transition = .ok next ∧
      Holds start labels (created ++ [transition]) next := by
  rw [create_eq_foldlM]
  apply holds.createAll
  intro other member
  obtain rfl := List.mem_singleton.mp member
  exact ⟨source, target⟩

theorem Holds.create_returned (holds : Holds start labels created result)
    {transition : Transition} {next : TIOSTS}
    (returned : result.create transition = .ok next) :
    Holds start labels (created ++ [transition]) next := by
  rw [create_eq_foldlM] at returned
  exact holds.createAll_returned returned

theorem Holds.addLocation (holds : Holds start labels created result) (label : String) :
    Holds start (labels ++ [label]) created
      (result.addLocation (Location.new label false)) := by
  have adds := (AddsLocations.refl holds.labelled).addLocation label
  constructor
  · exact adds.labelled
  · intro other
    rw [adds.isRegistered, holds.isRegistered, List.nil_append, List.mem_append]
  · intro transition member
    obtain ⟨source, target⟩ := holds.ends transition member
    exact ⟨List.mem_append_left _ source, List.mem_append_left _ target⟩
  · intro other
    rw [adds.outOf, holds.outOf]
  · intro key
    rw [← holds.lookup, TIOSTS.addLocation_eq]
  · intro type
    rw [← holds.actionNames, TIOSTS.addLocation_eq]
  · rw [← holds.initialLocation, TIOSTS.addLocation_eq]
  · rw [← holds.clocks, TIOSTS.addLocation_eq]

theorem lookup_changeParameters (changed : Action) (parameters : List String) (key : String) :
    (result.changeParameters changed parameters).transitions.lookup key =
      (result.transitions.lookup key).map (Transition.changeParameters changed parameters) := by
  obtain ⟨alphabet, name, condition, initial, modelVariables, actionParameters, clocks,
    locations, ⟨entries, nodup⟩⟩ := result
  simp only [TIOSTS.changeParameters, AList.lookup]
  clear nodup
  induction entries with
  | nil => rfl
  | cons entry rest induction =>
      obtain ⟨other, transition⟩ := entry
      by_cases same : key = other
      · subst same
        simp [Sigma.map]
      · simpa [Sigma.map, List.dlookup_cons_ne, same, Ne.symm same] using induction

/-- Parameters are changed on an action that no created transition has. -/
theorem Holds.changeParameters (holds : Holds start labels created result) {changed : Action}
    (fresh : ∀ transition ∈ created, transition.action.name ≠ changed.name)
    (parameters : List String) :
    Holds start labels created (result.changeParameters changed parameters) := by
  have kept : ∀ transition ∈ created,
      transition.changeParameters changed parameters = transition := by
    intro transition member
    unfold Transition.changeParameters Action.changeParameters
    rw [if_neg (fun same => fresh transition member same.2)]
  constructor
  · exact labelled_changeParameters holds.labelled
  · intro label
    rw [isRegistered_changeParameters]
    exact holds.isRegistered label
  · exact holds.ends
  · intro label
    rw [outOf_changeParameters, holds.outOf]
    have same : ∀ transition ∈ created.filter (fun transition => label = transition.source),
        transition.changeParameters changed parameters = id transition := by
      intro transition member
      exact kept transition (List.mem_filter.mp member).1
    rw [List.map_congr_left same, List.map_id]
  · intro key
    rw [lookup_changeParameters, holds.lookup]
    cases last : (created.filter (fun transition => key = transition.key)).getLast? with
    | none => rfl
    | some transition =>
        have member := List.mem_of_getLast? last
        rw [Option.map_some, kept transition (List.mem_filter.mp member).1]
  · intro type
    rw [← holds.actionNames]
    exact Alphabet.changeParameters_names _ _ _ _
  · exact holds.initialLocation
  · exact holds.clocks

variable {order : IterationOrder}

theorem Holds.recovered_mem (holds : Holds start labels created result) {name : String}
    {transition : Transition}
    (found : recoverTransition (result.getTransitions order) name = some transition) :
    transition ∈ created ∧ transition.action.name = name := by
  obtain ⟨listed, named⟩ := recoverTransition_mem found
  obtain ⟨key, stored⟩ := (TIOSTS.mem_getTransitions order result).mp listed
  rw [holds.lookup] at stored
  exact ⟨(List.mem_filter.mp (List.mem_of_getLast? stored)).1, named⟩

/-- The only created transition of a name is found, unless its key has been taken. -/
theorem Holds.recovered_eq (holds : Holds start labels created result)
    {transition : Transition} (member : transition ∈ created)
    (only : ∀ other ∈ created, other.action.name = transition.action.name →
      other = transition)
    (keys : ∀ other ∈ created, other.key = transition.key →
      other.action.name = transition.action.name) :
    recoverTransition (result.getTransitions order) transition.action.name =
      some transition := by
  have stored : result.transitions.lookup transition.key = some transition := by
    rw [holds.lookup]
    cases last : (created.filter (fun other => transition.key = other.key)).getLast? with
    | none =>
        have empty := List.getLast?_eq_none_iff.mp last
        have inFilter : transition ∈ created.filter
            (fun other => transition.key = other.key) :=
          List.mem_filter.mpr ⟨member, by simp⟩
        rw [empty] at inFilter
        cases inFilter
    | some other =>
        obtain ⟨otherMember, same⟩ := List.mem_filter.mp (List.mem_of_getLast? last)
        have name := keys other otherMember (of_decide_eq_true same).symm
        rw [only other otherMember name]
  have listed := (TIOSTS.mem_getTransitions order result).mpr ⟨transition.key, stored⟩
  cases found : recoverTransition (result.getTransitions order) transition.action.name with
  | none =>
      rw [recoverTransition_eq, List.getLast?_eq_none_iff] at found
      have inFilter : transition ∈ (result.getTransitions order).filter
          (fun other => other.action.name = transition.action.name) :=
        List.mem_filter.mpr ⟨listed, by simp⟩
      rw [found] at inFilter
      cases inFilter
  | some other =>
      obtain ⟨otherMember, name⟩ := holds.recovered_mem found
      rw [only other otherMember name]

end Creation

/-- A point can be merged if its action is declared by the result and a transition enters
the source of the second model's. -/
structure CanMerge (parts : Parts) (point : Point) : Prop where
  entered : parts.tiosts2.inOf point.t2Sync.source ≠ []
  declared : point.side.name ∈ (parts.declaredActions point.side.type).map Action.name

section Merging

variable {order : IterationOrder} {parts : Parts} {labels : List String}
  {created : List Transition} {result : TIOSTS}

theorem base_actionNames (type : ActionType) :
    ((parts.base order).actionsOf type).map Action.name =
      (parts.declaredActions type).map Action.name := by
  rw [(parts.base_adds order).stores]
  exact congrArg (List.map Action.name) (parts.declared_actionsOf type)

theorem Holds.addPoint (holds : Holds (parts.base order) labels created result)
    (point : Point) :
    Holds (parts.base order) (labels ++ [point.source] ++ [point.target]) created
      ((result.addLocation (Location.new point.source false)).addLocation
        (Location.new point.target false)) :=
  (holds.addLocation point.source).addLocation point.target

theorem synchronize_eq {point : Point} {transitionl1 : Transition} {action : Action}
    (entering : parts.tiosts2.firstIn point.t2Sync.source = .ok transitionl1)
    (recovered : ((result.addLocation (Location.new point.source false)).addLocation
      (Location.new point.target false)).recoverAction point.side = .ok action) :
    synchronize parts.tiosts2 result point =
      (((result.addLocation (Location.new point.source false)).addLocation
        (Location.new point.target false)).changeParameters action
          point.side.parameters).create (parts.merged point) := by
  obtain ⟨_, name, type⟩ := TIOSTS.recoverAction_eq_ok recovered
  obtain ⟨rest, entries⟩ := firstIn_eq_ok.mp entering
  have guard : parts.guard point = point.dataGuard parts.tiosts2 transitionl1 := by
    rw [Parts.guard, entries]
  have same : { action with parameters := point.side.parameters } = point.side := by
    rw [name, type]
  simp only [synchronize, entering, recovered, ok_bind]
  rw [same, ← guard]
  rfl

theorem Holds.mergePoint (holds : Holds (parts.base order) labels created result)
    {point : Point} (fresh : ∀ transition ∈ created, transition.action.name ≠ point.side.name)
    {action : Action}
    (recovered : ((result.addLocation (Location.new point.source false)).addLocation
      (Location.new point.target false)).recoverAction point.side = .ok action) :
    Holds (parts.base order) (labels ++ [point.source] ++ [point.target]) created
      (((result.addLocation (Location.new point.source false)).addLocation
        (Location.new point.target false)).changeParameters action
          point.side.parameters) := by
  apply (holds.addPoint point).changeParameters
  intro transition member
  rw [(TIOSTS.recoverAction_eq_ok recovered).2.1]
  exact fresh transition member

theorem Holds.merge (holds : Holds (parts.base order) labels created result)
    {point : Point} (fresh : ∀ transition ∈ created, transition.action.name ≠ point.side.name)
    (canMerge : CanMerge parts point) :
    ∃ next, synchronize parts.tiosts2 result point = .ok next ∧
      Holds (parts.base order) (labels ++ [point.source] ++ [point.target])
        (created ++ [parts.merged point]) next := by
  obtain ⟨transitionl1, rest, entries⟩ := List.exists_cons_of_ne_nil canMerge.entered
  have entering := firstIn_eq_ok.mpr ⟨rest, entries⟩
  have isDeclared := canMerge.declared
  rw [← base_actionNames, ← (holds.addPoint point).actionNames] at isDeclared
  obtain ⟨action, recovered⟩ :=
    TIOSTS.recoverAction_isOk.mpr (List.mem_map.mp isDeclared)
  rw [synchronize_eq entering recovered]
  apply (holds.mergePoint fresh recovered).create
  · exact List.mem_append_left _ (List.mem_append_right _ (List.mem_singleton.mpr rfl))
  · exact List.mem_append_right _ (List.mem_singleton.mpr rfl)

/-- A point that has been merged could be merged. -/
theorem Holds.merge_returned (holds : Holds (parts.base order) labels created result)
    {point : Point} (fresh : ∀ transition ∈ created, transition.action.name ≠ point.side.name)
    {next : TIOSTS} (returned : synchronize parts.tiosts2 result point =
      .ok next) :
    CanMerge parts point ∧
      Holds (parts.base order) (labels ++ [point.source] ++ [point.target])
        (created ++ [parts.merged point]) next := by
  have ran := returned
  obtain ⟨transitionl1, entering, ran⟩ := bind_eq_ok.mp ran
  obtain ⟨action, recovered, _⟩ := bind_eq_ok.mp ran
  obtain ⟨rest, entries⟩ := firstIn_eq_ok.mp entering
  rw [synchronize_eq entering recovered] at returned
  constructor
  · constructor
    · rw [entries]
      exact List.cons_ne_nil _ _
    · rw [← base_actionNames, ← (holds.addPoint point).actionNames]
      obtain ⟨member, name, _⟩ := TIOSTS.recoverAction_eq_ok recovered
      rw [← name]
      exact List.mem_map_of_mem member
  · exact (holds.mergePoint fresh recovered).create_returned returned

end Merging

namespace Point

variable (point : Point)

/-- What a transition of the first model that touches the point becomes. -/
inductive RewiresFirst (transition : Transition) : Transition → Prop where
  | toSource : transition.target = point.t1Sync.source →
      RewiresFirst transition { transition with target := point.source }
  | toTarget : transition.target = point.t1Sync.target →
      RewiresFirst transition { transition with target := point.target }
  | fromTarget : transition.source = point.t1Sync.target →
      RewiresFirst transition { transition with source := point.target }
  | fromSource : transition.source = point.t1Sync.source →
      RewiresFirst transition { transition with source := point.source }

/-- What a transition of the second model that touches the point becomes.  An end that is
excluded becomes the end of some transition of the result. -/
inductive RewiresSecond (excluded : List String) (transition : Transition) :
    Transition → Prop where
  | fromTarget (target : String) : transition.source = point.t2Sync.target →
      (transition.target ∉ excluded → target = transition.target) →
      RewiresSecond excluded transition
        { transition with source := point.target, target := target }
  | toSource (source : String) : transition.target = point.t2Sync.source →
      (transition.source ∉ excluded → source = transition.source) →
      RewiresSecond excluded transition
        { transition with source := source, target := point.source }
  | toTarget : transition.target = point.t2Sync.target → transition.source ∉ excluded →
      RewiresSecond excluded transition { transition with target := point.target }
  | misplaced (source : String) : transition.target = point.t2Sync.target →
      transition.source ∈ excluded →
      RewiresSecond excluded transition
        { transition with source := source, target := point.source }

/-- The first model's transition has an end at the point. -/
def TouchesFirst (transition : Transition) : Prop :=
  transition.target = point.t1Sync.source ∨ transition.target = point.t1Sync.target ∨
    transition.source = point.t1Sync.target ∨ transition.source = point.t1Sync.source

/-- The second model's transition has an end at the point where the source looks for
one. -/
def TouchesSecond (transition : Transition) : Prop :=
  transition.source = point.t2Sync.target ∨ transition.target = point.t2Sync.source ∨
    transition.target = point.t2Sync.target

instance (transition : Transition) : Decidable (point.TouchesFirst transition) :=
  inferInstanceAs (Decidable (_ ∨ _))

instance (transition : Transition) : Decidable (point.TouchesSecond transition) :=
  inferInstanceAs (Decidable (_ ∨ _))

end Point

theorem Point.RewiresFirst.fields {point : Point} {transition made : Transition}
    (rewires : point.RewiresFirst transition made) :
    made = { transition with source := made.source, target := made.target } := by
  cases rewires <;> rfl

theorem Point.RewiresSecond.fields {point : Point} {excluded : List String}
    {transition made : Transition} (rewires : point.RewiresSecond excluded transition made) :
    made = { transition with source := made.source, target := made.target } := by
  cases rewires <;> rfl

theorem Point.RewiresSecond.touches {point : Point} {excluded : List String}
    {transition made : Transition} (rewires : point.RewiresSecond excluded transition made) :
    point.TouchesSecond transition := by
  cases rewires with
  | fromTarget _ same => exact Or.inl same
  | toSource _ same => exact Or.inr (Or.inl same)
  | toTarget same => exact Or.inr (Or.inr same)
  | misplaced _ same => exact Or.inr (Or.inr same)

section Rewiring

variable {start result : TIOSTS} {labels : List String} {created : List Transition}
  {point : Point} {tSync : Option Transition} {merged transition : Transition} {next : TIOSTS}

/-- A step creates transitions of a kind, and at least one if it has to. -/
def Creates (start : TIOSTS) (labels : List String) (created : List Transition)
    (makes : Transition → Prop) (must : Prop) (next : TIOSTS) : Prop :=
  ∃ more, Holds start labels (created ++ more) next ∧ (∀ made ∈ more, makes made) ∧
    (must → ∃ made ∈ more, makes made)

theorem Holds.creates_none (holds : Holds start labels created result)
    (makes : Transition → Prop) {must : Prop} (need : ¬ must) :
    Creates start labels created makes must result := by
  refine ⟨[], ?_, ?_, ?_⟩
  · rw [List.append_nil]
    exact holds
  · intro made impossible
    cases impossible
  · exact fun needed => absurd needed need

theorem Holds.creates_one (holds : Holds start labels created result)
    {makes : Transition → Prop} (must : Prop)
    (returned : result.create transition = .ok next) (made : makes transition) :
    Creates start labels created makes must next := by
  refine ⟨[transition], holds.create_returned returned, ?_, ?_⟩
  · intro other member
    obtain rfl := List.mem_singleton.mp member
    exact made
  · exact fun _ => ⟨transition, List.mem_cons_self, made⟩

theorem Holds.rewireFirst_returned (holds : Holds start labels created result)
    (found : ∀ transition, tSync = some transition →
      transition.source = point.source ∧ transition.target = point.target)
    (returned : rewireFirst point tSync result transition = .ok next) :
    Creates start labels created (point.RewiresFirst transition)
      (point.TouchesFirst transition) next := by
  unfold rewireFirst at returned
  split at returned
  · rename_i touches
    obtain ⟨sync, same, created⟩ := bind_eq_ok.mp returned
    apply holds.creates_one _ created
    rw [(found sync (deref_eq_ok.mp same)).1]
    exact .toSource touches
  · split at returned
    · rename_i touches
      obtain ⟨sync, same, created⟩ := bind_eq_ok.mp returned
      apply holds.creates_one _ created
      rw [(found sync (deref_eq_ok.mp same)).2]
      exact .toTarget touches
    · split at returned
      · rename_i touches
        obtain ⟨sync, same, created⟩ := bind_eq_ok.mp returned
        apply holds.creates_one _ created
        rw [(found sync (deref_eq_ok.mp same)).2]
        exact .fromTarget touches
      · split at returned
        · rename_i touches
          obtain ⟨sync, same, created⟩ := bind_eq_ok.mp returned
          apply holds.creates_one _ created
          rw [(found sync (deref_eq_ok.mp same)).1]
          exact .fromSource touches
        · rename_i notToSource notToTarget notFromTarget notFromSource
          obtain rfl := Except.ok.inj returned
          apply holds.creates_none
          rintro (touches | touches | touches | touches)
          · exact notToSource touches
          · exact notToTarget touches
          · exact notFromTarget touches
          · exact notFromSource touches

theorem Holds.rewireSecond_returned {order : IterationOrder} {tiosts2 : TIOSTS}
    {excluded : List String} (holds : Holds start labels created result)
    (found : ∀ transition, tSync = some transition →
      transition.source = point.source ∧ transition.target = point.target)
    (returned : rewireSecond order tiosts2 excluded point tSync result transition = .ok next) :
    Creates start labels created (point.RewiresSecond excluded transition)
      (point.TouchesSecond transition) next := by
  unfold rewireSecond at returned
  split at returned
  · rename_i touches
    split at returned
    · obtain ⟨sync, same, created⟩ := bind_eq_ok.mp returned
      apply holds.creates_one _ created
      rw [(found sync (deref_eq_ok.mp same)).2]
      exact .fromTarget transition.target touches (fun _ => rfl)
    · rename_i inside
      obtain ⟨guess, _, continued⟩ := bind_eq_ok.mp returned
      obtain ⟨sync, same, created⟩ := bind_eq_ok.mp continued
      apply holds.creates_one _ created
      rw [(found sync (deref_eq_ok.mp same)).2]
      exact .fromTarget guess.source touches (fun outside => absurd outside inside)
  · rename_i notFromTarget
    split at returned
    · rename_i touches
      split at returned
      · obtain ⟨sync, same, created⟩ := bind_eq_ok.mp returned
        apply holds.creates_one _ created
        rw [(found sync (deref_eq_ok.mp same)).1]
        exact .toSource transition.source touches (fun _ => rfl)
      · rename_i inside
        obtain ⟨guess, _, continued⟩ := bind_eq_ok.mp returned
        obtain ⟨sync, same, created⟩ := bind_eq_ok.mp continued
        apply holds.creates_one _ created
        rw [(found sync (deref_eq_ok.mp same)).1]
        exact .toSource guess.target touches (fun outside => absurd outside inside)
    · rename_i notToSource
      split at returned
      · rename_i touches
        split at returned
        · rename_i outside
          obtain ⟨sync, same, created⟩ := bind_eq_ok.mp returned
          apply holds.creates_one _ created
          rw [(found sync (deref_eq_ok.mp same)).2]
          exact .toTarget touches outside
        · rename_i inside
          obtain ⟨guess, _, continued⟩ := bind_eq_ok.mp returned
          obtain ⟨sync, same, created⟩ := bind_eq_ok.mp continued
          apply holds.creates_one _ created
          rw [(found sync (deref_eq_ok.mp same)).1]
          exact .misplaced guess.source touches (not_not.mp inside)
      · rename_i notToTarget
        obtain rfl := Except.ok.inj returned
        apply holds.creates_none
        rintro (touches | touches | touches)
        · exact notFromTarget touches
        · exact notToSource touches
        · exact notToTarget touches

/-- The loop rule for steps that create transitions. -/
theorem Holds.foldlM_returned {Item : Type} {step : TIOSTS → Item → Except Failure TIOSTS}
    (makes : Item → Transition → Prop) (covers : Item → List Transition → Prop)
    (monotone : ∀ item more added, more ⊆ added → covers item more → covers item added)
    {items : List Item} {final : TIOSTS} (holds : Holds start labels created result)
    (returned : items.foldlM step result = .ok final)
    (body : ∀ item ∈ items, ∀ added state next,
      Holds start labels (created ++ added) state →
      (∀ made ∈ added, ∃ item ∈ items, makes item made) →
      step state item = .ok next →
      ∃ more, Holds start labels (created ++ added ++ more) next ∧
        (∀ made ∈ more, makes item made) ∧ covers item more) :
    ∃ added, Holds start labels (created ++ added) final ∧
      (∀ made ∈ added, ∃ item ∈ items, makes item made) ∧
      (∀ item ∈ items, covers item added) := by
  apply Loops.foldlM_returned (fun done state => ∃ added,
    Holds start labels (created ++ added) state ∧
      (∀ made ∈ added, ∃ item ∈ items, makes item made) ∧
      (∀ item ∈ done, covers item added)) returned
  · refine ⟨[], ?_, ?_, ?_⟩
    · rw [List.append_nil]
      exact holds
    · intro made impossible
      cases impossible
    · intro item impossible
      cases impossible
  · intro done item rest state next whole before stepped
    obtain ⟨added, holdsBefore, kinds, covered⟩ := before
    have inItems : item ∈ items := by simp [whole]
    obtain ⟨more, holdsNext, moreKinds, moreCovered⟩ :=
      body item inItems added state next holdsBefore kinds stepped
    refine ⟨added ++ more, ?_, ?_, ?_⟩
    · rw [← List.append_assoc]
      exact holdsNext
    · intro made member
      rcases List.mem_append.mp member with old | new
      · exact kinds made old
      · exact ⟨item, inItems, moreKinds made new⟩
    · intro other member
      rcases List.mem_append.mp member with earlier | last
      · apply monotone other added _ (List.subset_append_left _ _)
        exact covered other earlier
      · obtain rfl := List.mem_singleton.mp last
        apply monotone other more _ (List.subset_append_right _ _)
        exact moreCovered

end Rewiring

/-- A transition that is created again at a point. -/
def RewiredAt (order : IterationOrder) (parts : Parts) (point : Point) (made : Transition) :
    Prop :=
  (∃ transition ∈ parts.others1 order, point.RewiresFirst transition made) ∨
    ∃ transition ∈ parts.others2 order,
      point.RewiresSecond (excludedLocations parts.points) transition made

/-- All transitions that touch a point have been created again. -/
def CoveredAt (order : IterationOrder) (parts : Parts) (point : Point)
    (added : List Transition) : Prop :=
  (∀ transition ∈ parts.others1 order, point.TouchesFirst transition →
    ∃ made ∈ added, point.RewiresFirst transition made) ∧
  ∀ transition ∈ parts.others2 order, point.TouchesSecond transition →
    ∃ made ∈ added, point.RewiresSecond (excludedLocations parts.points) transition made

/-- The second model's transition is kept, or has an end at a point. -/
def Taken (order : IterationOrder) (parts : Parts) (transition : Transition) : Prop :=
  transition ∈ parts.kept2 order ∨
    transition ∈ parts.others2 order ∧ ∃ point ∈ parts.points, point.TouchesSecond transition

instance (order : IterationOrder) (parts : Parts) (transition : Transition) :
    Decidable (Taken order parts transition) :=
  inferInstanceAs (Decidable (_ ∨ _))

namespace Parts

variable (parts : Parts) (order : IterationOrder)

/-- The labels of the result. -/
def labels : List String :=
  parts.keptLabels order ++
    parts.points.flatMap (fun point => [point.source, point.target])

/-- What is created before the transitions that touch a point. -/
def stable : List Transition :=
  parts.kept1 order ++ parts.kept2 order ++ parts.points.map parts.merged

end Parts

theorem mem_buildSynchronizationLocations {transitions : List Transition}
    {eSync : List String} {label : String} :
    label ∈ buildSynchronizationLocations transitions eSync ↔
      ∃ transition ∈ transitions, transition.action.name ∈ eSync ∧
        (label = transition.source ∨ label = transition.target) := by
  simp only [buildSynchronizationLocations, List.mem_flatMap, List.mem_filter,
    List.mem_cons, List.not_mem_nil, or_false]
  constructor
  · rintro ⟨actionSync, member, transition, ⟨listed, named⟩, touches⟩
    have name := of_decide_eq_true named
    rw [← name] at member
    exact ⟨transition, listed, member, touches⟩
  · rintro ⟨transition, listed, member, touches⟩
    exact ⟨transition.action.name, member, transition, ⟨listed, by simp⟩, touches⟩

theorem mem_keptTransitions {excluded : List String} {transitions : List Transition}
    {transition : Transition} :
    transition ∈ keptTransitions excluded transitions ↔
      transition ∈ transitions ∧ transition.source ∉ excluded ∧
        transition.target ∉ excluded := by
  simp [keptTransitions]

section Run

variable {order : IterationOrder} {model1 model2 : TIOSTS} {parts : Parts}

theorem kept_name {transition : Transition}
    (member : transition ∈ parts.kept1 order ++ parts.kept2 order) :
    transition.action.name ∉ parts.eSync := by
  intro synchronises
  rcases List.mem_append.mp member with one | two
  · obtain ⟨listed, source, _⟩ := mem_keptTransitions.mp one
    apply source
    apply mem_buildSynchronizationLocations.mpr
    exact ⟨transition, listed, synchronises, Or.inl rfl⟩
  · obtain ⟨listed, source, _⟩ := mem_keptTransitions.mp two
    apply source
    apply mem_buildSynchronizationLocations.mpr
    exact ⟨transition, listed, synchronises, Or.inl rfl⟩

theorem mem_others1 {transition : Transition} :
    transition ∈ parts.others1 order ↔ transition ∈ parts.tiosts1.getTransitions order ∧
      transition.action.name ∉ parts.eSync := by
  simp [Parts.others1, others1]

theorem mem_others2 {transition : Transition} :
    transition ∈ parts.others2 order ↔ transition ∈ parts.tiosts2.getTransitions order ∧
      parts.tiosts2.isInitial transition.source = false ∧
        transition.action.name ∉ parts.eSync := by
  simp [Parts.others2, others2]

theorem Taken.mem {transition : Transition} (taken : Taken order parts transition) :
    transition ∈ parts.tiosts2.getTransitions order ∧
      transition.action.name ∉ parts.eSync := by
  rcases taken with kept | ⟨other, _⟩
  · exact ⟨(mem_keptTransitions.mp kept).1, kept_name (List.mem_append_right _ kept)⟩
  · exact ⟨(mem_others2.mp other).1, (mem_others2.mp other).2.2⟩

theorem RewiredAt.name {point : Point} {made : Transition}
    (rewired : RewiredAt order parts point made) : made.action.name ∉ parts.eSync := by
  rcases rewired with ⟨transition, member, rewires⟩ | ⟨transition, member, rewires⟩
  · rw [rewires.fields]
    exact (mem_others1.mp member).2
  · rw [rewires.fields]
    exact (mem_others2.mp member).2.2

theorem IsPoint.side_name {point : Point} (isPoint : IsPoint order parts point) :
    point.side.name = point.actionSync := by
  unfold Point.side
  split
  · exact isPoint.t1Sync.2
  · exact isPoint.t2Sync.2

theorem base_holds :
    Holds (parts.base order) (parts.keptLabels order) [] (parts.base order) := by
  have adds := parts.base_adds order
  have blank := parts.declared_isBlank
  constructor
  · exact adds.labelled
  · intro label
    rw [adds.isRegistered]
    constructor
    · rintro (impossible | member)
      · exact absurd impossible (blank.unregistered label)
      · exact member
    · exact Or.inr
  · intro transition impossible
    cases impossible
  · intro label
    rw [adds.outOf]
    simp [TIOSTS.outOf, TIOSTS.getLocation, blank.locations]
  · intro key
    rw [adds.stores]
    simp [blank.transitions]
  · exact fun _ => rfl
  · rfl
  · rfl

section Points

variable (isParts : IsParts order model1 model2 parts)

include isParts

/-- The created transitions do not have the action of the next point. -/
theorem IsParts.fresh {done rest : List Point} {point : Point}
    (whole : parts.points = done ++ point :: rest) :
    ∀ transition ∈ parts.kept1 order ++ parts.kept2 order ++ done.map parts.merged,
      transition.action.name ≠ point.side.name := by
  have inPoints : point ∈ parts.points := by simp [whole]
  have isPoint := isParts.isPoint inPoints
  intro transition member same
  rw [isPoint.side_name] at same
  rcases List.mem_append.mp member with kept | merged
  · apply kept_name kept
    rw [same]
    exact isPoint.actionSync
  · obtain ⟨other, inDone, rfl⟩ := List.mem_map.mp merged
    have otherPoint := isParts.isPoint
      (show other ∈ parts.points by rw [whole]; exact List.mem_append_left _ inDone)
    have otherName : other.actionSync = point.actionSync := by
      rw [← otherPoint.side_name]
      exact same
    have nodup := isParts.points_nodup
    rw [whole, List.map_append, List.map_cons] at nodup
    have apart := List.disjoint_of_nodup_append nodup
    apply apart (List.mem_map_of_mem inDone)
    rw [otherName]
    exact List.mem_cons_self

/-- The stage in which the points are merged. -/
theorem IsParts.merged_returned {state next : TIOSTS}
    (holds : Holds (parts.base order) (parts.keptLabels order)
      (parts.kept1 order ++ parts.kept2 order) state)
    (returned : parts.points.foldlM (synchronize parts.tiosts2) state = .ok next) :
    (∀ point ∈ parts.points, CanMerge parts point) ∧
      Holds (parts.base order) (parts.labels order) (parts.stable order) next := by
  apply Loops.foldlM_returned (fun done state =>
    (∀ point ∈ done, CanMerge parts point) ∧
      Holds (parts.base order)
        (parts.keptLabels order ++ done.flatMap (fun point => [point.source, point.target]))
        (parts.kept1 order ++ parts.kept2 order ++ done.map parts.merged) state) returned
  · constructor
    · intro point impossible
      cases impossible
    · simpa using holds
  · rintro done point rest state next whole ⟨merges, before⟩ stepped
    obtain ⟨canMerge, after⟩ := before.merge_returned (isParts.fresh whole) stepped
    constructor
    · intro other member
      rcases List.mem_append.mp member with earlier | last
      · exact merges other earlier
      · obtain rfl := List.mem_singleton.mp last
        exact canMerge
    · simpa using after

theorem IsParts.merged_runs {state : TIOSTS}
    (holds : Holds (parts.base order) (parts.keptLabels order)
      (parts.kept1 order ++ parts.kept2 order) state)
    (merges : ∀ point ∈ parts.points, CanMerge parts point) :
    ∃ next, parts.points.foldlM (synchronize parts.tiosts2) state = .ok next ∧
      Holds (parts.base order) (parts.labels order) (parts.stable order) next := by
  apply Loops.foldlM_returns (fun done state => Holds (parts.base order)
    (parts.keptLabels order ++ done.flatMap (fun point => [point.source, point.target]))
    (parts.kept1 order ++ parts.kept2 order ++ done.map parts.merged) state)
  · simpa using holds
  · intro done point rest state whole before
    have inPoints : point ∈ parts.points := by simp [whole]
    obtain ⟨next, ran, after⟩ := before.merge (isParts.fresh whole) (merges point inPoints)
    refine ⟨next, ran, ?_⟩
    simpa using after

theorem IsParts.merged_of_name {added : List Transition}
    (others : ∀ made ∈ added, made.action.name ∉ parts.eSync)
    {transition : Transition} (member : transition ∈ parts.stable order ++ added)
    {point : Point} (inPoints : point ∈ parts.points)
    (name : transition.action.name = point.actionSync) : transition = parts.merged point := by
  have synchronises : transition.action.name ∈ parts.eSync := by
    rw [name]
    exact (isParts.isPoint inPoints).actionSync
  rcases List.mem_append.mp member with stable | new
  · rcases List.mem_append.mp stable with kept | merged
    · exact absurd synchronises (kept_name kept)
    · obtain ⟨other, inOthers, rfl⟩ := List.mem_map.mp merged
      have sameName : other.actionSync = point.actionSync := by
        rw [← (isParts.isPoint inOthers).side_name]
        exact name
      rw [List.inj_on_of_nodup_map isParts.points_nodup inOthers inPoints sameName]
  · exact absurd synchronises (others transition new)

/-- What one point creates. -/
theorem IsParts.rewire_returned {added : List Transition} {point : Point} {state next : TIOSTS}
    (inPoints : point ∈ parts.points)
    (holds : Holds (parts.base order) (parts.labels order)
      (parts.stable order ++ added) state)
    (kinds : ∀ made ∈ added, ∃ point ∈ parts.points, RewiredAt order parts point made)
    (returned : rewire order parts.tiosts1 parts.tiosts2 parts.eSync
      (excludedLocations parts.points) state point = .ok next) :
    ∃ more, Holds (parts.base order) (parts.labels order)
        (parts.stable order ++ added ++ more) next ∧
      (∀ made ∈ more, RewiredAt order parts point made) ∧ CoveredAt order parts point more := by
  obtain ⟨middle, first, second⟩ := bind_eq_ok.mp returned
  have others : ∀ made ∈ added, made.action.name ∉ parts.eSync := by
    intro made member
    obtain ⟨other, _, rewired⟩ := kinds made member
    exact rewired.name
  have found : ∀ transition,
      recoverTransition (state.getTransitions order) point.actionSync = some transition →
        transition.source = point.source ∧ transition.target = point.target := by
    intro transition recovered
    obtain ⟨member, name⟩ := holds.recovered_mem recovered
    rw [isParts.merged_of_name others member inPoints name]
    exact ⟨rfl, rfl⟩
  obtain ⟨more1, holds1, kinds1, covered1⟩ := holds.foldlM_returned
    (fun transition made => point.RewiresFirst transition made)
    (fun transition more => point.TouchesFirst transition →
      ∃ made ∈ more, point.RewiresFirst transition made)
    (by
      intro transition more others included covered touches
      obtain ⟨made, member, rewires⟩ := covered touches
      exact ⟨made, included member, rewires⟩)
    first (by
      intro transition _ others current following before _ stepped
      exact before.rewireFirst_returned found stepped)
  obtain ⟨more2, holds2, kinds2, covered2⟩ := holds1.foldlM_returned
    (fun transition made =>
      point.RewiresSecond (excludedLocations parts.points) transition made)
    (fun transition more => point.TouchesSecond transition →
      ∃ made ∈ more, point.RewiresSecond (excludedLocations parts.points) transition made)
    (by
      intro transition more others included covered touches
      obtain ⟨made, member, rewires⟩ := covered touches
      exact ⟨made, included member, rewires⟩)
    second (by
      intro transition _ others current following before _ stepped
      exact before.rewireSecond_returned found stepped)
  refine ⟨more1 ++ more2, ?_, ?_, ?_, ?_⟩
  · rw [← List.append_assoc]
    exact holds2
  · intro made member
    rcases List.mem_append.mp member with one | two
    · obtain ⟨transition, other, rewires⟩ := kinds1 made one
      exact Or.inl ⟨transition, other, rewires⟩
    · obtain ⟨transition, other, rewires⟩ := kinds2 made two
      exact Or.inr ⟨transition, other, rewires⟩
  · intro transition other touches
    obtain ⟨made, member, rewires⟩ := covered1 transition other touches
    exact ⟨made, List.mem_append_left _ member, rewires⟩
  · intro transition other touches
    obtain ⟨made, member, rewires⟩ := covered2 transition other touches
    exact ⟨made, List.mem_append_right _ member, rewires⟩

/-- What a composition that returns holds: it could merge every point, and it has created
the kept and the merged transitions and, for every transition that touches a point, others
with an end of the point. -/
theorem IsParts.returned_holds {result : TIOSTS}
    (returned : interruptionComposition order model1 model2 = .ok result) :
    (∀ point ∈ parts.points, CanMerge parts point) ∧ ∃ rewired,
      Holds (parts.base order) (parts.labels order) (parts.stable order ++ rewired) result ∧
        (∀ made ∈ rewired, ∃ point ∈ parts.points, RewiredAt order parts point made) ∧
        ∀ point ∈ parts.points, CoveredAt order parts point rewired := by
  rw [interruptionComposition_eq isParts] at returned
  obtain ⟨kept, keptReturned, returned⟩ := bind_eq_ok.mp returned
  obtain ⟨merged, mergedReturned, returned⟩ := bind_eq_ok.mp returned
  have holdsKept := base_holds.createAll_returned keptReturned
  rw [List.nil_append] at holdsKept
  obtain ⟨merges, holdsMerged⟩ := isParts.merged_returned holdsKept mergedReturned
  refine ⟨merges, ?_⟩
  apply holdsMerged.foldlM_returned (RewiredAt order parts) (CoveredAt order parts) _ returned
  · intro point inPoints added state next before kinds stepped
    exact isParts.rewire_returned inPoints before kinds stepped
  · rintro point more added included ⟨covered1, covered2⟩
    constructor
    · intro transition other touches
      obtain ⟨made, member, rewires⟩ := covered1 transition other touches
      exact ⟨made, included member, rewires⟩
    · intro transition other touches
      obtain ⟨made, member, rewires⟩ := covered2 transition other touches
      exact ⟨made, included member, rewires⟩

/-- Every transition of the result is one of the first model or of the second with other
ends, or the merged one of a point. -/
theorem IsParts.returned_origins {result : TIOSTS}
    (returned : interruptionComposition order model1 model2 = .ok result) :
    (∀ label, ∀ transition ∈ result.outOf label,
      (transition.action.name ∉ parts.eSync ∧
        ∃ origin ∈ parts.tiosts1.getTransitions order, transition.HasFieldsOf origin) ∨
      (∃ point ∈ parts.points, CanMerge parts point ∧ transition = parts.merged point) ∨
      ∃ origin, Taken order parts origin ∧ transition.HasFieldsOf origin) ∧
    (∀ origin, Taken order parts origin →
      ∃ label, ∃ transition ∈ result.outOf label, transition.HasFieldsOf origin) ∧
    ∀ point ∈ parts.points, parts.merged point ∈ result.outOf point.source := by
  obtain ⟨merges, rewired, holds, kinds, covered⟩ := isParts.returned_holds returned
  have held : ∀ made ∈ parts.stable order ++ rewired, made ∈ result.outOf made.source := by
    intro made member
    rw [holds.outOf]
    exact List.mem_filter.mpr ⟨member, decide_eq_true rfl⟩
  refine ⟨?_, ?_, ?_⟩
  · intro label transition leaves
    rw [holds.outOf] at leaves
    rcases List.mem_append.mp (List.mem_filter.mp leaves).1 with stable | made
    · rcases List.mem_append.mp stable with kept | merged
      · rcases List.mem_append.mp kept with one | two
        · exact Or.inl ⟨kept_name kept, transition, (mem_keptTransitions.mp one).1, rfl⟩
        · exact Or.inr (Or.inr ⟨transition, Or.inl two, rfl⟩)
      · obtain ⟨point, inPoints, rfl⟩ := List.mem_map.mp merged
        exact Or.inr (Or.inl ⟨point, inPoints, merges point inPoints, rfl⟩)
    · obtain ⟨point, inPoints, isRewired⟩ := kinds transition made
      rcases isRewired with ⟨origin, other, rewires⟩ | ⟨origin, other, rewires⟩
      · obtain ⟨listed, apart⟩ := mem_others1.mp other
        refine Or.inl ⟨?_, origin, listed, rewires.fields⟩
        rw [rewires.fields]
        exact apart
      · refine Or.inr (Or.inr ⟨origin, Or.inr ⟨other, point, inPoints, ?_⟩, rewires.fields⟩)
        exact rewires.touches
  · intro origin taken
    rcases taken with kept | ⟨other, point, inPoints, touches⟩
    · have stable : origin ∈ parts.stable order :=
        List.mem_append_left _ (List.mem_append_right _ kept)
      exact ⟨_, origin, held origin (List.mem_append_left _ stable), rfl⟩
    · obtain ⟨made, member, rewires⟩ := (covered point inPoints).2 origin other touches
      exact ⟨_, made, held made (List.mem_append_right _ member), rewires.fields⟩
  · intro point inPoints
    apply held
    apply List.mem_append_left
    exact List.mem_append_right _ (List.mem_map_of_mem inPoints)

end Points

end Run

end InterruptionComposition

end Symbolrt
