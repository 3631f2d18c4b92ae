import Symbolrt.Compositions.ParallelResult

/-!
# Runs of a parallel composition

The composition starts from the declarations and the initial transition, and a call that
is not rejected is a search from the targets of the two initial transitions.
-/

namespace Symbolrt

namespace ParallelComposition

/-- The copies of the two models and their initial transitions. -/
structure Parts where
  tiosts1 : TIOSTS
  tiosts2 : TIOSTS
  init1 : Transition
  init2 : Transition

/-- The parts are those that the composition of two compatible models finds. -/
structure IsParts (order : IterationOrder) (model1 model2 : TIOSTS) (parts : Parts) : Prop where
  copy1 : model1.clone order = .ok parts.tiosts1
  copy2 : model2.clone order = .ok parts.tiosts2
  compatible : isCompatible order parts.tiosts1 parts.tiosts2 = true
  init1 : initTransition parts.tiosts1 = .ok parts.init1
  init2 : initTransition parts.tiosts2 = .ok parts.init2

namespace Parts

variable (parts : Parts)

def initial : Transition := initialTransition parts.init1 parts.init2

/-- The pair of locations from which the search starts. -/
def root : String × String := (parts.init1.target, parts.init2.target)

/-- The result before its initial transition is created. -/
def ended : TIOSTS :=
  (addEnds (declare parts.tiosts1 parts.tiosts2 parts.init1 parts.init2)
    parts.initial.source parts.initial.target).addAction parts.initial.action

/-- The result before the search. -/
def base : TIOSTS :=
  ((parts.ended.extend parts.initial).setInitialCondition
    (some (initialCondition parts.tiosts1 parts.tiosts2))).setInitialLocation
      parts.initial.source

def search (model1 model2 : TIOSTS) :
    MarkedSearch (String × String) Move String TIOSTS Failure :=
  ParallelComposition.search parts.tiosts1 parts.tiosts2
    (minusSet model1.getActionNames model2.getActionNames)
    (minusSet model2.getActionNames model1.getActionNames)

theorem declare_isBlank (tiosts1 tiosts2 : TIOSTS) (init1 init2 : Transition) :
    (declare tiosts1 tiosts2 init1 init2).IsBlank := by
  unfold declare
  simp only [TIOSTS.foldl_addAction]
  exact ⟨rfl, rfl, rfl⟩

end Parts

theorem mem_union {α : Type} {equals : α → α → Bool} {list1 list2 : List α} {element : α}
    (member : element ∈ union equals list1 list2) : element ∈ list1 ∨ element ∈ list2 := by
  unfold union at member
  induction list2 generalizing list1 with
  | nil => exact Or.inl member
  | cons first rest induction =>
      rw [List.foldl_cons] at member
      rcases induction member with inFirst | inRest
      · split at inFirst
        · exact Or.inl inFirst
        · rcases List.mem_append.mp inFirst with old | isNew
          · exact Or.inl old
          · rw [List.mem_singleton.mp isNew]
            exact Or.inr List.mem_cons_self
      · exact Or.inr (List.mem_cons_of_mem _ inRest)

/-- The union has the names of both lists. -/
theorem union_names (list1 list2 : List Action) (name : String) :
    name ∈ (union Action.equals list1 list2).map Action.name ↔
      name ∈ list1.map Action.name ∨ name ∈ list2.map Action.name := by
  unfold union
  induction list2 generalizing list1 with
  | nil => simp
  | cons first rest induction =>
      rw [List.foldl_cons, induction, List.map_cons, List.mem_cons]
      by_cases known : list1.any (fun other => first.equals other) = true
      · rw [if_pos known]
        obtain ⟨other, member, same⟩ := List.any_eq_true.mp known
        have inFirst : first.name ∈ list1.map Action.name := by
          rw [show first.name = other.name from beq_iff_eq.mp same]
          exact List.mem_map_of_mem member
        constructor
        · rintro (old | later)
          · exact Or.inl old
          · exact Or.inr (Or.inr later)
        · rintro (old | rfl | later)
          · exact Or.inl old
          · exact Or.inl inFirst
          · exact Or.inr later
      · rw [if_neg known, List.map_append, List.mem_append, List.map_singleton,
          List.mem_singleton, or_assoc]

namespace Parts

variable (parts : Parts)

/-- The actions of the result. -/
def declaredActions : ActionType → List Action
  | .input => parts.tiosts1.inputActions.filter
        (fun input => input.name ∉ parts.tiosts2.outputActions.map Action.name) ++
      parts.tiosts2.inputActions.filter (fun input =>
        input.name ∉ (outputActions parts.tiosts1 parts.tiosts2).map Action.name)
  | .output => outputActions parts.tiosts1 parts.tiosts2
  | .internal => parts.tiosts1.internalActions.filter
        (fun internal => internal.name ≠ parts.init1.action.name) ++
      parts.tiosts2.internalActions.filter
        (fun internal => internal.name ≠ parts.init2.action.name) ++ [parts.initial.action]

theorem declare_actionsOf (type : ActionType) :
    ((declare parts.tiosts1 parts.tiosts2 parts.init1 parts.init2).addAction
      parts.initial.action).actionsOf type = parts.declaredActions type := by
  have internals1 : ∀ action ∈ parts.tiosts1.internalActions.filter
      (fun internal => internal.name ≠ parts.init1.action.name), action.type = .internal :=
    fun action member =>
      parts.tiosts1.internalActions_type action (List.mem_filter.mp member).1
  have internals2 : ∀ action ∈ parts.tiosts2.internalActions.filter
      (fun internal => internal.name ≠ parts.init2.action.name), action.type = .internal :=
    fun action member =>
      parts.tiosts2.internalActions_type action (List.mem_filter.mp member).1
  have outputs : ∀ action ∈ outputActions parts.tiosts1 parts.tiosts2,
      action.type = .output := by
    intro action member
    rcases mem_union member with one | two
    · exact parts.tiosts1.outputActions_type action one
    · exact parts.tiosts2.outputActions_type action two
  have inputs1 : ∀ action ∈ parts.tiosts1.inputActions.filter
      (fun input => input.name ∉ parts.tiosts2.outputActions.map Action.name),
      action.type = .input :=
    fun action member => parts.tiosts1.inputActions_type action (List.mem_filter.mp member).1
  have inputs2 : ∀ action ∈ parts.tiosts2.inputActions.filter (fun input =>
      input.name ∉ (outputActions parts.tiosts1 parts.tiosts2).map Action.name),
      action.type = .input :=
    fun action member => parts.tiosts2.inputActions_type action (List.mem_filter.mp member).1
  have folded : ((declare parts.tiosts1 parts.tiosts2 parts.init1 parts.init2).addAction
      parts.initial.action).actionsOf type =
      (if parts.initial.action.type = type then
        (declare parts.tiosts1 parts.tiosts2 parts.init1 parts.init2).actionsOf type ++
          [parts.initial.action]
      else (declare parts.tiosts1 parts.tiosts2 parts.init1 parts.init2).actionsOf type) :=
    Alphabet.actionsOf_addAction _ _ _
  rw [folded, declare]
  simp only [TIOSTS.foldl_addAction, Alphabet.actionsOf_foldl]
  have blank : ∀ name, (TIOSTS.new name).actionsOf type = [] := by
    intro name
    cases type <;> rfl
  have own : parts.initial.action.type = .internal := rfl
  rw [blank, own, List.nil_append]
  cases type with
  | input =>
      rw [if_neg (by decide), filter_type_other internals1 (by decide),
        filter_type_other internals2 (by decide), filter_type_other outputs (by decide),
        filter_type_self inputs1, filter_type_self inputs2]
      rfl
  | output =>
      rw [if_neg (by decide), filter_type_other internals1 (by decide),
        filter_type_other internals2 (by decide), filter_type_self outputs,
        filter_type_other inputs1 (by decide), filter_type_other inputs2 (by decide)]
      simp [declaredActions]
  | internal =>
      rw [if_pos rfl, filter_type_self internals1, filter_type_self internals2,
        filter_type_other outputs (by decide), filter_type_other inputs1 (by decide),
        filter_type_other inputs2 (by decide)]
      simp [declaredActions]

theorem declare_outOf (label : String) :
    (declare parts.tiosts1 parts.tiosts2 parts.init1 parts.init2).outOf label = [] := by
  have blank := declare_isBlank parts.tiosts1 parts.tiosts2 parts.init1 parts.init2
  simp [TIOSTS.outOf, TIOSTS.getLocation, blank.locations]

theorem ended_prepares : Prepares
    ((declare parts.tiosts1 parts.tiosts2 parts.init1 parts.init2).addAction
      parts.initial.action) parts.initial parts.ended := by
  have blank := declare_isBlank parts.tiosts1 parts.tiosts2 parts.init1 parts.init2
  have prepares := addEnds_prepares blank.wellFormed.label_eq parts.initial
  have stores := (addEnds_adds blank.wellFormed.label_eq parts.initial.source
    parts.initial.target).stores
  constructor
  · exact prepares.labelled
  · exact prepares.isRegistered
  · exact prepares.isInitial
  · exact prepares.outOf
  · exact prepares.inOf
  · intro type
    have same : parts.ended.actionsOf type =
        ((declare parts.tiosts1 parts.tiosts2 parts.init1 parts.init2).addAction
          parts.initial.action).actionsOf type := by
      rw [ended, stores]
      rfl
    rw [same]
  · exact prepares.initialCondition
  · exact prepares.clocks

theorem base_grows : parts.ended.Grows [parts.initial] (parts.ended.extend parts.initial) := by
  have prepares := parts.ended_prepares
  exact (TIOSTS.Grows.refl prepares.labelled).extend
    ((prepares.isRegistered _).mpr (Or.inr (Or.inl rfl)))
    ((prepares.isRegistered _).mpr (Or.inr (Or.inr rfl)))

theorem base_labelled : parts.base.Labelled := by
  intro label location found
  rw [base, TIOSTS.getLocation_setInitialLocation, TIOSTS.getLocation_setInitialCondition]
    at found
  split at found
  · obtain ⟨before, beforeFound, rfl⟩ := Option.map_eq_some_iff.mp found
    have labelEq : before.label = label := parts.base_grows.labelled beforeFound
    exact labelEq
  · exact parts.base_grows.labelled found

theorem base_isRegistered (label : String) : parts.base.IsRegistered label ↔
    label = parts.initial.source ∨ label = parts.initial.target := by
  have blank := declare_isBlank parts.tiosts1 parts.tiosts2 parts.init1 parts.init2
  rw [base, TIOSTS.isRegistered_setInitialLocation, TIOSTS.isRegistered_setInitialCondition,
    parts.base_grows.isRegistered, parts.ended_prepares.isRegistered]
  constructor
  · rintro (impossible | ends)
    · exact absurd impossible (blank.unregistered label)
    · exact ends
  · exact Or.inr

theorem base_isInitial (label : String) :
    parts.base.isInitial label = decide (label = parts.initial.source) := by
  have blank := declare_isBlank parts.tiosts1 parts.tiosts2 parts.init1 parts.init2
  have before : (parts.ended.extend parts.initial).isInitial label = false := by
    rw [parts.base_grows.isInitial, parts.ended_prepares.isInitial]
    simp [TIOSTS.isInitial, TIOSTS.getLocation, TIOSTS.addAction, blank.locations]
  have located : parts.base.getLocation label =
      if label = parts.initial.source then
        ((parts.ended.extend parts.initial).getLocation label).map
          (Location.setIsInitialLocation true)
      else (parts.ended.extend parts.initial).getLocation label :=
    TIOSTS.getLocation_setInitialLocation _ _ _
  unfold TIOSTS.isInitial at before ⊢
  rw [located]
  by_cases same : label = parts.initial.source
  · have registered : (parts.ended.extend parts.initial).IsRegistered label := by
      rw [parts.base_grows.isRegistered, parts.ended_prepares.isRegistered]
      exact Or.inr (Or.inl same)
    obtain ⟨location, found⟩ := (TIOSTS.isRegistered_iff _ _).mp registered
    rw [if_pos same, found]
    simp [same, Location.setIsInitialLocation]
  · rw [if_neg same, before]
    simp [same]

theorem base_outOf (label : String) :
    parts.base.outOf label =
      [parts.initial].filter (fun transition => label = transition.source) := by
  have before : (parts.ended.outOf label).map Transition.plain = [] := by
    rw [parts.ended_prepares.outOf]
    have none := parts.declare_outOf label
    rw [TIOSTS.outOf, TIOSTS.getLocation] at none ⊢
    simp only [TIOSTS.addAction]
    rw [none]
    rfl
  have out : parts.ended.outOf label = [] := List.map_eq_nil_iff.mp before
  rw [base, TIOSTS.outOf_setInitialLocation, TIOSTS.outOf_setInitialCondition,
    parts.base_grows.outOf, out, List.nil_append]

theorem base_inOf (label : String) :
    parts.base.inOf label =
      [parts.initial].filter (fun transition => label = transition.target) := by
  have before : (parts.ended.inOf label).map Transition.plain = [] := by
    rw [parts.ended_prepares.inOf]
    have blank := declare_isBlank parts.tiosts1 parts.tiosts2 parts.init1 parts.init2
    simp [TIOSTS.inOf, TIOSTS.getLocation, TIOSTS.addAction, blank.locations]
  have into : parts.ended.inOf label = [] := List.map_eq_nil_iff.mp before
  have conditioned : ((parts.ended.extend parts.initial).setInitialCondition
      (some (initialCondition parts.tiosts1 parts.tiosts2))).inOf label =
        (parts.ended.extend parts.initial).inOf label := rfl
  rw [base, TIOSTS.inOf_setInitialLocation, conditioned, parts.base_grows.inOf, into,
    List.nil_append]

theorem base_actionsOf (type : ActionType) :
    parts.base.actionsOf type = parts.declaredActions type := by
  have blank := declare_isBlank parts.tiosts1 parts.tiosts2 parts.init1 parts.init2
  have stores := (addEnds_adds blank.wellFormed.label_eq parts.initial.source
    parts.initial.target).stores
  have alphabet : parts.base.toAlphabet = parts.ended.toAlphabet := by
    rw [base, TIOSTS.setInitialLocation_alphabet]
    exact TIOSTS.register_alphabet _ _
  rw [TIOSTS.actionsOf_eq_of_alphabet alphabet, ← declare_actionsOf, ended, stores]
  rfl

theorem base_clocks : parts.base.clocks = parts.tiosts1.clocks := by
  have located : parts.base.clocks = (parts.ended.extend parts.initial).clocks :=
    TIOSTS.updateLocation_clocks _ _ _
  rw [located, parts.base_grows.stores]
  exact parts.ended_prepares.clocks

theorem base_initialLocation : parts.base.initialLocation = some parts.initial.source := rfl

theorem base_initialCondition : parts.base.initialCondition =
    some (initialCondition parts.tiosts1 parts.tiosts2) := by
  rw [base, TIOSTS.setInitialLocation_eq]
  rfl

end Parts

section Parts

variable {order : IterationOrder} {model1 model2 : TIOSTS} {parts : Parts}

theorem IsParts.initialize (isParts : IsParts order model1 model2 parts) :
    initializeResult parts.tiosts1 parts.tiosts2 = .ok parts.base := by
  have prepares := parts.ended_prepares
  have created : parts.ended.create parts.initial = .ok (parts.ended.extend parts.initial) :=
    TIOSTS.create_eq prepares.labelled ((prepares.isRegistered _).mpr (Or.inr (Or.inl rfl)))
      ((prepares.isRegistered _).mpr (Or.inr (Or.inr rfl)))
  rw [initializeResult, isParts.init1, ok_bind, isParts.init2, ok_bind]
  change (parts.ended.create parts.initial >>= _) = _
  rw [created]
  rfl

theorem IsParts.unique (isParts : IsParts order model1 model2 parts) {other : Parts}
    (otherParts : IsParts order model1 model2 other) : parts = other := by
  obtain ⟨tiosts1, tiosts2, init1, init2⟩ := parts
  obtain ⟨other1, other2, otherInit1, otherInit2⟩ := other
  obtain rfl : tiosts1 = other1 :=
    Except.ok.inj (isParts.copy1.symm.trans otherParts.copy1)
  obtain rfl : tiosts2 = other2 :=
    Except.ok.inj (isParts.copy2.symm.trans otherParts.copy2)
  obtain rfl : init1 = otherInit1 := Except.ok.inj (isParts.init1.symm.trans otherParts.init1)
  obtain rfl : init2 = otherInit2 := Except.ok.inj (isParts.init2.symm.trans otherParts.init2)
  rfl

theorem IsParts.outcome (isParts : IsParts order model1 model2 parts) (depth : Nat)
    (visited : List String) :
    (parallelComposition order depth model1 model2).outcome visited =
      (parts.search model1 model2).visit depth parts.root parts.base visited := by
  have compatible : (!isCompatible order parts.tiosts1 parts.tiosts2) = false := by
    rw [isParts.compatible]
    rfl
  simp only [parallelComposition, isParts.copy1, isParts.copy2, Visits.outcome_bind,
    Visits.outcome_lift, compatible, Bool.false_eq_true, if_false, isParts.initialize,
    isParts.init1, isParts.init2]
  exact parComposition_outcome depth _ _ _ _

end Parts

/-- The search for the parts of a composition. -/
def findParts (order : IterationOrder) (model1 model2 : TIOSTS) : Except Failure Parts := do
  let tiosts1 ← model1.clone order
  let tiosts2 ← model2.clone order
  if isCompatible order tiosts1 tiosts2 then
    let init1 ← initTransition tiosts1
    let init2 ← initTransition tiosts2
    return ⟨tiosts1, tiosts2, init1, init2⟩
  else
    throw (.incompatibleCompositionalOperation incompatibleMessage)

theorem isParts_of_findParts {order : IterationOrder} {model1 model2 : TIOSTS} {parts : Parts}
    (found : findParts order model1 model2 = .ok parts) :
    IsParts order model1 model2 parts := by
  rw [findParts] at found
  obtain ⟨tiosts1, copy1, found⟩ := bind_eq_ok.mp found
  obtain ⟨tiosts2, copy2, found⟩ := bind_eq_ok.mp found
  by_cases compatible : isCompatible order tiosts1 tiosts2 = true
  · rw [if_pos compatible] at found
    obtain ⟨init1, first1, found⟩ := bind_eq_ok.mp found
    obtain ⟨init2, first2, found⟩ := bind_eq_ok.mp found
    obtain rfl := Except.ok.inj found
    exact ⟨copy1, copy2, compatible, first1, first2⟩
  · rw [if_neg compatible] at found
    cases found

end ParallelComposition

end Symbolrt
