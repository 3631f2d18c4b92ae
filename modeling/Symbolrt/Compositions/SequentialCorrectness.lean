import Symbolrt.Base.Assembly
import Symbolrt.Compositions.SequentialResult

/-!
# When a sequential composition renames all ends

The composition should rename the ends of the merged transitions wherever they occur.
It renames one end of each transition only and does not register the entry location of
the second model, so it does what it should exactly if no other transition has two ends
to rename and no other transition returns to the start or the entry of the second model.
-/

namespace Symbolrt

namespace SequentialComposition

namespace Junction

variable (junction : Junction)

/-- The location of the result that stands for a location of one of the models. -/
def relabel (label : String) : String :=
  if label = junction.tc1.source ∨ label = junction.t02.source then junction.source
  else if label = junction.tc1.target ∨ label = junction.t02.target then junction.target
  else label

/-- The transition between the locations that stand for its ends. -/
def renamed (transition : Transition) : Transition :=
  { transition with
    source := junction.relabel transition.source
    target := junction.relabel transition.target }

variable (order : IterationOrder)

/-- What the result should hold. -/
def expected : List Transition :=
  junction.merged :: (junction.others1 order).map junction.renamed ++
    (junction.others2 order).map junction.renamed

end Junction

theorem Junction.not_composed (junction : Junction) {label : String}
    (plain : ',' ∉ label.toList) : label ≠ junction.source ∧ label ≠ junction.target := by
  constructor
  · rintro rfl
    exact plain (comma_mem_composedLabel _ _)
  · rintro rfl
    exact plain (comma_mem_composedLabel _ _)

/-- The conditions on the two models: the transition found in the first model is the only
one that enters its target, which nothing leaves, and the entry transition is the only one
that leaves its source; both carry matching actions, and the models share no location and
no variable. -/
structure IsSequentialInput (order : IterationOrder) (model1 model2 : TIOSTS)
    (junction : Junction) : Prop where
  wellFormed1 : model1.WellFormed
  wellFormed2 : model2.WellFormed
  isJunction : IsJunction order model1 model2 junction
  final : junction.tiosts1.outOf junction.tc1.target = [] ∧
    junction.tiosts1.inOf junction.tc1.target = [junction.tc1]
  entry : junction.tiosts2.outOf junction.t02.source = [junction.t02] ∧
    junction.t02.source ≠ junction.t02.target
  actions : junction.tc1.action.type = .output ∧ junction.t02.action.type = .input ∧
    junction.tc1.action.parameters.length = junction.t02.action.parameters.length
  locations : ∀ label, model1.IsRegistered label → ¬ model2.IsRegistered label
  modelVariables : ∀ name ∈ model1.getVariableNames, name ∉ model2.getVariableNames

/-- The composition returns, and its locations hold exactly the expected transitions. -/
def IsExact (order : IterationOrder) (model1 model2 : TIOSTS) (junction : Junction) : Prop :=
  ∃ result, sequentialComposition order model1 model2 = .ok result ∧
    ∀ label, (result.outOf label).Perm
      ((junction.expected order).filter (fun transition => label = transition.source))

/-- No other transition has two ends to rename, no other transition touches the entry or
the start of the second model, and no other transition shares the action whose parameters
are replaced. -/
structure EndsApart (order : IterationOrder) (junction : Junction) : Prop where
  loop1 : ∀ transition ∈ junction.others1 order,
    ¬ (transition.source = junction.tc1.source ∧ transition.target = junction.tc1.source)
  loop2 : ∀ transition ∈ junction.others2 order,
    ¬ (transition.source = junction.t02.target ∧ transition.target = junction.t02.target)
  entry : ∀ transition ∈ junction.others2 order, transition.target ≠ junction.t02.source
  start : ∀ transition ∈ junction.others2 order,
    transition.source = junction.init2.source ∨ transition.target = junction.init2.source →
      junction.init2.source = junction.t02.target
  parameters : ∀ transition ∈ junction.others1 order,
    transition.action.type = junction.tc1.action.type →
      transition.action.name = junction.tc1.action.name →
        transition.action.parameters = junction.t02.action.parameters

instance (order : IterationOrder) (junction : Junction) :
    Decidable (EndsApart order junction) :=
  decidable_of_iff (_ ∧ _ ∧ _ ∧ _ ∧ _)
    ⟨fun ⟨loop1, loop2, entry, start, parameters⟩ => ⟨loop1, loop2, entry, start, parameters⟩,
      fun ⟨loop1, loop2, entry, start, parameters⟩ => ⟨loop1, loop2, entry, start, parameters⟩⟩

section Input

variable {order : IterationOrder} {model1 model2 : TIOSTS} {junction : Junction}

variable (input : IsSequentialInput order model1 model2 junction)

include input

theorem IsSequentialInput.copy1 : TIOSTS.IsExactCopy order model1 junction.tiosts1 :=
  exactCopy input.wellFormed1 input.isJunction.copy1

theorem IsSequentialInput.copy2 : TIOSTS.IsExactCopy order model2 junction.tiosts2 :=
  exactCopy input.wellFormed2 input.isJunction.copy2

theorem IsSequentialInput.tc1_mem :
    junction.tc1 ∈ junction.tiosts1.getTransitions order := by
  have found := input.isJunction.tc1
  rw [getCompositionTransition, recoverTransition_eq] at found
  exact (List.mem_filter.mp (List.mem_of_getLast? found)).1

theorem IsSequentialInput.t02_mem :
    junction.t02 ∈ junction.tiosts2.getTransitions order ∧
      junction.t02.source = junction.init2.target :=
  mem_getTransitions_of_outOf input.copy2 (firstOut_mem input.isJunction.t02)

theorem IsSequentialInput.init2_mem :
    junction.init2 ∈ junction.tiosts2.getTransitions order := by
  obtain ⟨start2, _, first⟩ := input.isJunction.init2
  exact (mem_getTransitions_of_outOf input.copy2 (firstOut_mem first)).1

theorem IsSequentialInput.ends1 {transition : Transition}
    (member : transition ∈ junction.others1 order) :
    model1.IsRegistered transition.source ∧ model1.IsRegistered transition.target ∧
      transition.source ≠ junction.tc1.target ∧ transition.target ≠ junction.tc1.target := by
  obtain ⟨listed, different⟩ := List.mem_filter.mp member
  obtain ⟨leaves, enters, source, target⟩ := copy_transition input.copy1 listed
  refine ⟨source, target, ?_, ?_⟩
  · intro same
    rw [same, input.final.1] at leaves
    cases leaves
  · intro same
    rw [same, input.final.2] at enters
    rw [List.mem_singleton.mp enters, Transition.equals_self] at different
    cases different

theorem IsSequentialInput.ends2 {transition : Transition}
    (member : transition ∈ junction.others2 order) :
    model2.IsRegistered transition.source ∧ model2.IsRegistered transition.target ∧
      transition.source ≠ junction.t02.source := by
  obtain ⟨listed, different⟩ := List.mem_filter.mp member
  obtain ⟨leaves, _, source, target⟩ := copy_transition input.copy2 listed
  refine ⟨source, target, ?_⟩
  intro same
  rw [same, input.entry.1] at leaves
  rw [List.mem_singleton.mp leaves, Transition.equals_self] at different
  simp at different

theorem IsSequentialInput.mem_labels {label : String} :
    label ∈ junction.labels order ↔
      (model1.IsRegistered label ∧ label ≠ junction.tc1.target ∧
        label ≠ junction.tc1.source) ∨
      (model2.IsRegistered label ∧ label ≠ junction.t02.source ∧
        label ≠ junction.t02.target ∧ label ≠ junction.start2.source) ∨
      label = junction.source ∨ label = junction.target := by
  have registered1 :
      label ∈ (junction.tiosts1.getLocations order).map Location.label ↔ _ :=
    mem_getLocationLabels input.copy1.wellFormed
  have registered2 :
      label ∈ (junction.tiosts2.getLocations order).map Location.label ↔ _ :=
    mem_getLocationLabels input.copy2.wellFormed
  simp only [Junction.labels, List.mem_append, mem_keptLabels,
    registered1, registered2, input.copy1.isRegistered, input.copy2.isRegistered,
    List.mem_cons, List.not_mem_nil, or_false, not_or]
  tauto

theorem IsSequentialInput.junction_registered :
    model1.IsRegistered junction.tc1.source ∧ model1.IsRegistered junction.tc1.target ∧
      model2.IsRegistered junction.t02.source ∧ model2.IsRegistered junction.t02.target := by
  obtain ⟨_, _, source1, target1⟩ := copy_transition input.copy1 input.tc1_mem
  obtain ⟨_, _, source2, target2⟩ := copy_transition input.copy2 input.t02_mem.1
  exact ⟨source1, target1, source2, target2⟩

theorem IsSequentialInput.source_ne_target1 : junction.tc1.source ≠ junction.tc1.target := by
  intro same
  obtain ⟨leaves, _⟩ := copy_transition input.copy1 input.tc1_mem
  rw [same, input.final.1] at leaves
  cases leaves

theorem IsSequentialInput.relabel1 {label : String} (registered : model1.IsRegistered label)
    (notFinal : label ≠ junction.tc1.target) :
    junction.relabel label =
      if label = junction.tc1.source then junction.source else label := by
  have source := input.locations label registered
  have notEntry : label ≠ junction.t02.source := by
    rintro rfl
    exact source input.junction_registered.2.2.1
  have notNext : label ≠ junction.t02.target := by
    rintro rfl
    exact source input.junction_registered.2.2.2
  simp [Junction.relabel, notEntry, notNext, notFinal]

theorem IsSequentialInput.relabel2 {label : String} (registered : model2.IsRegistered label)
    (notEntry : label ≠ junction.t02.source) :
    junction.relabel label =
      if label = junction.t02.target then junction.target else label := by
  have notSource : label ≠ junction.tc1.source := by
    rintro rfl
    exact input.locations _ input.junction_registered.1 registered
  have notTarget : label ≠ junction.tc1.target := by
    rintro rfl
    exact input.locations _ input.junction_registered.2.1 registered
  simp [Junction.relabel, notEntry, notSource, notTarget]

theorem EndsApart.rewired1_eq (apart : EndsApart order junction) {transition : Transition}
    (member : transition ∈ junction.others1 order) :
    junction.rewired1 transition = junction.renamed transition := by
  obtain ⟨source, target, notFinal, notFinalTarget⟩ := input.ends1 member
  have kept : transition.changeParameters junction.action junction.t02.action.parameters =
      transition := by
    obtain ⟨name, type⟩ := input.isJunction.action_eq
    unfold Transition.changeParameters Action.changeParameters
    by_cases same : transition.action.type = junction.action.type ∧
        transition.action.name = junction.action.name
    · rw [if_pos same, ← apart.parameters transition member (same.1.trans type)
        (same.2.trans name)]
    · rw [if_neg same]
  rw [Junction.rewired1, kept, Junction.renamed, input.relabel1 source notFinal,
    input.relabel1 target notFinalTarget]
  unfold rewireFirst
  by_cases isTarget : transition.target = junction.tc1.source
  · have notSource : transition.source ≠ junction.tc1.source := fun same =>
      apart.loop1 transition member ⟨same, isTarget⟩
    rw [if_pos isTarget, if_neg notSource, if_pos isTarget]
  · by_cases isSource : transition.source = junction.tc1.source
    · rw [if_neg isTarget, if_pos isSource, if_pos isSource, if_neg isTarget]
    · rw [if_neg isTarget, if_neg isSource, if_neg isSource, if_neg isTarget]

theorem EndsApart.rewired2_eq (apart : EndsApart order junction) {transition : Transition}
    (member : transition ∈ junction.others2 order) :
    junction.rewired2 transition = junction.renamed transition := by
  obtain ⟨source, target, notEntry⟩ := input.ends2 member
  rw [Junction.rewired2, Junction.renamed, input.relabel2 source notEntry,
    input.relabel2 target (apart.entry transition member)]
  unfold rewireSecond
  by_cases isSource : transition.source = junction.t02.target
  · have notTarget : transition.target ≠ junction.t02.target := fun same =>
      apart.loop2 transition member ⟨isSource, same⟩
    rw [if_pos isSource, if_pos isSource, if_neg notTarget]
  · by_cases isTarget : transition.target = junction.t02.target
    · rw [if_neg isSource, if_pos isTarget, if_neg isSource, if_pos isTarget]
    · rw [if_neg isSource, if_neg isTarget, if_neg isSource, if_neg isTarget]

/-- Nothing but the initial transition enters the entry location, so the location that is
left out is the start of the second model. -/
theorem IsSequentialInput.start2_eq
    (entry : ∀ transition ∈ junction.others2 order,
      transition.target ≠ junction.t02.source) :
    junction.start2.source = junction.init2.source := by
  obtain ⟨listed, target⟩ :=
    mem_getTransitions_of_inOf input.copy2 (firstIn_mem input.isJunction.start2)
  by_cases isInit : junction.start2.equals junction.init2 = true
  · simp only [Transition.equals, Bool.and_eq_true, beq_iff_eq] at isInit
    exact isInit.1.1.1.1.1.1.1
  · by_cases isEntry : junction.start2.equals junction.t02 = true
    · simp only [Transition.equals, Bool.and_eq_true, beq_iff_eq] at isEntry
      exact absurd (target.symm.trans isEntry.2) input.entry.2
    · apply absurd target
      apply entry
      exact List.mem_filter.mpr ⟨listed, by simp [isInit, isEntry]⟩

theorem EndsApart.mem_labels1 {label : String} (registered : model1.IsRegistered label)
    (notFinal : label ≠ junction.tc1.target) :
    junction.relabel label ∈ junction.labels order := by
  rw [input.relabel1 registered notFinal, input.mem_labels]
  by_cases isSource : label = junction.tc1.source
  · rw [if_pos isSource]
    exact Or.inr (Or.inr (Or.inl rfl))
  · rw [if_neg isSource]
    exact Or.inl ⟨registered, notFinal, isSource⟩

theorem EndsApart.mem_labels2 (apart : EndsApart order junction) {label : String}
    (registered : model2.IsRegistered label) (notEntry : label ≠ junction.t02.source)
    (notStart : label = junction.init2.source → junction.init2.source = junction.t02.target) :
    junction.relabel label ∈ junction.labels order := by
  rw [input.relabel2 registered notEntry, input.mem_labels]
  by_cases isTarget : label = junction.t02.target
  · rw [if_pos isTarget]
    exact Or.inr (Or.inr (Or.inr rfl))
  · rw [if_neg isTarget]
    refine Or.inr (Or.inl ⟨registered, notEntry, isTarget, ?_⟩)
    rw [input.start2_eq apart.entry]
    intro same
    exact isTarget (same.trans (notStart same))

theorem EndsApart.created_eq (apart : EndsApart order junction) :
    junction.created order = junction.expected order := by
  have first : (junction.others1 order).map junction.rewired1 =
      (junction.others1 order).map junction.renamed :=
    List.map_congr_left fun transition member => apart.rewired1_eq input member
  have second : (junction.others2 order).map junction.rewired2 =
      (junction.others2 order).map junction.renamed :=
    List.map_congr_left fun transition member => apart.rewired2_eq input member
  rw [Junction.created, first, second, Junction.expected]

theorem EndsApart.isExact (apart : EndsApart order junction) :
    IsExact order model1 model2 junction := by
  have registered : ∀ transition ∈ junction.created order,
      transition.source ∈ junction.labels order ∧
        transition.target ∈ junction.labels order := by
    rw [apart.created_eq input]
    intro transition member
    rcases List.mem_append.mp member with inFirst | inSecond
    · rcases List.mem_cons.mp inFirst with rfl | isOther
      · constructor
        · exact input.mem_labels.mpr (Or.inr (Or.inr (Or.inl rfl)))
        · exact input.mem_labels.mpr (Or.inr (Or.inr (Or.inr rfl)))
      · obtain ⟨original, isOriginal, rfl⟩ := List.mem_map.mp isOther
        obtain ⟨source, target, notFinal, notFinalTarget⟩ := input.ends1 isOriginal
        constructor
        · exact EndsApart.mem_labels1 input source notFinal
        · exact EndsApart.mem_labels1 input target notFinalTarget
    · obtain ⟨original, isOriginal, rfl⟩ := List.mem_map.mp inSecond
      obtain ⟨source, target, notEntry⟩ := input.ends2 isOriginal
      constructor
      · exact apart.mem_labels2 input source notEntry fun same =>
          apart.start original isOriginal (Or.inl same)
      · exact apart.mem_labels2 input target (apart.entry original isOriginal) fun same =>
          apart.start original isOriginal (Or.inr same)
  obtain ⟨result, returned⟩ := (returned_iff input.isJunction).mpr registered
  refine ⟨result, returned, ?_⟩
  intro label
  rw [returned_outOf input.isJunction returned, apart.created_eq input]

section Plain

variable (avoid1 : model1.LabelsAvoid [',']) (avoid2 : model2.LabelsAvoid [','])

include avoid1 in
theorem IsSequentialInput.not_mem_labels1 {label : String}
    (registered : model1.IsRegistered label) (removed : label = junction.tc1.source) :
    label ∉ junction.labels order := by
  obtain ⟨notSource, notTarget⟩ := junction.not_composed (avoid1 label registered ',' (by simp))
  rw [input.mem_labels]
  rintro (⟨_, _, kept⟩ | ⟨other, _⟩ | same | same)
  · exact kept removed
  · exact input.locations label registered other
  · exact notSource same
  · exact notTarget same

include avoid2 in
theorem IsSequentialInput.not_mem_labels2 {label : String}
    (registered : model2.IsRegistered label)
    (removed : label = junction.t02.source ∨ label = junction.t02.target ∨
      label = junction.start2.source) :
    label ∉ junction.labels order := by
  obtain ⟨notSource, notTarget⟩ := junction.not_composed (avoid2 label registered ',' (by simp))
  rw [input.mem_labels]
  rintro (⟨other, _⟩ | ⟨_, notEntry, notNext, notStart⟩ | same | same)
  · exact input.locations label other registered
  · rcases removed with isEntry | isNext | isStart
    · exact notEntry isEntry
    · exact notNext isNext
    · exact notStart isStart
  · exact notSource same
  · exact notTarget same

include avoid1 avoid2 in
/-- The transitions created from the second model leave other locations than those that
stand for locations of the first. -/
theorem IsSequentialInput.sources_differ {transition other : Transition}
    (member : transition ∈ junction.others1 order)
    (otherMember : other ∈ junction.others2 order) :
    (junction.rewired2 other).source ≠ (junction.renamed transition).source := by
  obtain ⟨source, _, notFinal, _⟩ := input.ends1 member
  obtain ⟨otherSource, _, _⟩ := input.ends2 otherMember
  have leaves : (junction.rewired2 other).source = junction.target ∨
      (junction.rewired2 other).source = other.source := by
    unfold Junction.rewired2 rewireSecond
    split
    · exact Or.inl rfl
    · split
      · exact Or.inr rfl
      · exact Or.inr rfl
  have stands : (junction.renamed transition).source =
      if transition.source = junction.tc1.source then junction.source
      else transition.source := input.relabel1 source notFinal
  have plain1 := avoid1 _ source ',' (by simp)
  have plain2 := avoid2 _ otherSource ',' (by simp)
  have apart : junction.source ≠ junction.target := by
    intro same
    obtain ⟨registered1, registeredTarget, _⟩ := input.junction_registered
    have equal := composedLabel_inj (avoid1 _ registered1 ',' (by simp))
      (avoid1 _ registeredTarget ',' (by simp)) same
    exact input.source_ne_target1 equal.1
  rw [stands]
  intro same
  rcases leaves with isTarget | isOwn
  · rw [isTarget] at same
    split at same
    · exact apart same.symm
    · exact (junction.not_composed plain1).2 same.symm
  · rw [isOwn] at same
    split at same
    · exact (junction.not_composed plain2).1 same
    · exact input.locations _ source (same ▸ otherSource)

omit input in
theorem Junction.rewired1_source_of_loop {transition : Transition}
    (isTarget : transition.target = junction.tc1.source) :
    (junction.rewired1 transition).source = transition.source := by
  unfold Junction.rewired1 rewireFirst
  rw [if_pos (show (transition.changeParameters _ _).target = _ from isTarget)]
  rfl

omit input in
theorem Junction.rewired2_source_of_ne {transition : Transition}
    (different : transition.source ≠ junction.t02.target) :
    (junction.rewired2 transition).source = transition.source := by
  unfold Junction.rewired2 rewireSecond
  rw [if_neg different]
  split <;> rfl

omit input in
theorem Junction.rewired2_target_of_ne {transition : Transition}
    (different : transition.target ≠ junction.t02.target) :
    (junction.rewired2 transition).target = transition.target := by
  unfold Junction.rewired2 rewireSecond
  rw [if_neg different]
  split <;> rfl

section Created

variable (registered : ∀ transition ∈ junction.created order,
  transition.source ∈ junction.labels order ∧ transition.target ∈ junction.labels order)

include registered

omit input in
theorem rewired1_registered {transition : Transition}
    (member : transition ∈ junction.others1 order) :
    (junction.rewired1 transition).source ∈ junction.labels order ∧
      (junction.rewired1 transition).target ∈ junction.labels order := by
  apply registered
  apply List.mem_append_left
  exact List.mem_cons_of_mem _ (List.mem_map_of_mem member)

omit input in
theorem rewired2_registered {transition : Transition}
    (member : transition ∈ junction.others2 order) :
    (junction.rewired2 transition).source ∈ junction.labels order ∧
      (junction.rewired2 transition).target ∈ junction.labels order := by
  apply registered
  exact List.mem_append_right _ (List.mem_map_of_mem member)

include avoid1 in
theorem IsSequentialInput.loop1_of_registered {transition : Transition}
    (member : transition ∈ junction.others1 order) :
    ¬ (transition.source = junction.tc1.source ∧ transition.target = junction.tc1.source) := by
  rintro ⟨isSource, isTarget⟩
  obtain ⟨source, _, _⟩ := input.ends1 member
  have inLabels := (rewired1_registered registered member).1
  rw [Junction.rewired1_source_of_loop isTarget] at inLabels
  exact input.not_mem_labels1 avoid1 source isSource inLabels

include avoid2 in
theorem IsSequentialInput.loop2_of_registered {transition : Transition}
    (member : transition ∈ junction.others2 order) :
    ¬ (transition.source = junction.t02.target ∧ transition.target = junction.t02.target) := by
  rintro ⟨isSource, isTarget⟩
  obtain ⟨_, target, _⟩ := input.ends2 member
  have same : (junction.rewired2 transition).target = transition.target := by
    unfold Junction.rewired2 rewireSecond
    rw [if_pos isSource]
  have inLabels := (rewired2_registered registered member).2
  rw [same] at inLabels
  exact input.not_mem_labels2 avoid2 target (Or.inr (Or.inl isTarget)) inLabels

include avoid2 in
theorem IsSequentialInput.entry_of_registered {transition : Transition}
    (member : transition ∈ junction.others2 order) :
    transition.target ≠ junction.t02.source := by
  intro isEntry
  obtain ⟨_, target, _⟩ := input.ends2 member
  have different : transition.target ≠ junction.t02.target :=
    fun isNext => input.entry.2 (isEntry.symm.trans isNext)
  have inLabels := (rewired2_registered registered member).2
  rw [Junction.rewired2_target_of_ne different] at inLabels
  exact input.not_mem_labels2 avoid2 target (Or.inl isEntry) inLabels

include avoid2 in
theorem IsSequentialInput.start_of_registered {transition : Transition}
    (member : transition ∈ junction.others2 order)
    (touches : transition.source = junction.init2.source ∨
      transition.target = junction.init2.source) :
    junction.init2.source = junction.t02.target := by
  by_contra different
  obtain ⟨source, target, _⟩ := input.ends2 member
  have isStart := input.start2_eq
    (fun _ other => input.entry_of_registered avoid2 registered other)
  rcases touches with isSource | isTarget
  · have inLabels := (rewired2_registered registered member).1
    rw [Junction.rewired2_source_of_ne
      (fun isNext => different (isSource.symm.trans isNext))] at inLabels
    exact input.not_mem_labels2 avoid2 source
      (Or.inr (Or.inr (isSource.trans isStart.symm))) inLabels
  · have inLabels := (rewired2_registered registered member).2
    rw [Junction.rewired2_target_of_ne
      (fun isNext => different (isTarget.symm.trans isNext))] at inLabels
    exact input.not_mem_labels2 avoid2 target
      (Or.inr (Or.inr (isTarget.trans isStart.symm))) inLabels

end Created

include avoid1 avoid2 in
/-- A transition on the composition action that is not the merged one has got the second
model's parameters, which are then its own. -/
theorem IsSequentialInput.parameters_of_exact (exact : IsExact order model1 model2 junction)
    {transition : Transition} (member : transition ∈ junction.others1 order)
    (type : transition.action.type = junction.tc1.action.type)
    (name : transition.action.name = junction.tc1.action.name) :
    transition.action.parameters = junction.t02.action.parameters := by
  obtain ⟨result, returned, permutation⟩ := exact
  have inExpected : junction.renamed transition ∈ (junction.expected order).filter
      (fun other => (junction.renamed transition).source = other.source) := by
    apply List.mem_filter.mpr
    refine ⟨?_, by simp⟩
    apply List.mem_append_left
    exact List.mem_cons_of_mem _ (List.mem_map_of_mem member)
  have inResult := (permutation _).mem_iff.mpr inExpected
  rw [returned_outOf input.isJunction returned] at inResult
  obtain ⟨actionName, actionType⟩ := input.isJunction.action_eq
  have own : (junction.renamed transition).action = transition.action := rfl
  rcases List.mem_append.mp (List.mem_filter.mp inResult).1 with inFirst | inSecond
  · rcases List.mem_cons.mp inFirst with isMerged | isOther
    · rw [← own, isMerged]
      rfl
    · obtain ⟨other, _, same⟩ := List.mem_map.mp isOther
      have action := junction.rewired1_action other
      rw [same, own] at action
      have holds : other.action.type = junction.action.type ∧
          other.action.name = junction.action.name := by
        constructor
        · rw [actionType, ← type, action, Action.changeParameters_type]
        · rw [actionName, ← name, action, Action.changeParameters_name]
      rw [action, Action.changeParameters, if_pos holds]
  · obtain ⟨other, otherMember, same⟩ := List.mem_map.mp inSecond
    have different := input.sources_differ avoid1 avoid2 member otherMember
    rw [same] at different
    exact absurd rfl different

include avoid1 avoid2 in
theorem IsSequentialInput.endsApart (exact : IsExact order model1 model2 junction) :
    EndsApart order junction := by
  have registered := (returned_iff input.isJunction).mp
    ⟨exact.choose, exact.choose_spec.1⟩
  constructor
  · exact fun _ member => input.loop1_of_registered avoid1 registered member
  · exact fun _ member => input.loop2_of_registered avoid2 registered member
  · exact fun _ member => input.entry_of_registered avoid2 registered member
  · exact fun _ member touches => input.start_of_registered avoid2 registered member touches
  · exact fun _ member type name =>
      input.parameters_of_exact avoid1 avoid2 exact member type name

end Plain

end Input

/-- The composition is exact if the ends are apart, and, when no label contains a comma,
only then. -/
theorem sequentialComposition_exact_iff {order : IterationOrder} {model1 model2 : TIOSTS}
    {junction : Junction} (input : IsSequentialInput order model1 model2 junction) :
    (EndsApart order junction → IsExact order model1 model2 junction) ∧
      (model1.LabelsAvoid [','] → model2.LabelsAvoid [','] →
        (IsExact order model1 model2 junction ↔ EndsApart order junction)) := by
  constructor
  · exact fun apart => apart.isExact input
  · intro avoid1 avoid2
    constructor
    · exact input.endsApart avoid1 avoid2
    · exact fun apart => apart.isExact input

namespace JunctionInstance

def order : IterationOrder := ⟨id, IterationOrder.id_perm⟩

def poll : Action := ⟨"poll", .input, []⟩

def model1 (polling : List Transition) : TIOSTS :=
  .assemble (.declare "M" [⟨"i", .internal, []⟩, poll, ⟨"ok", .output, ["p"]⟩] []
    [⟨"p", .integer⟩] []) ["s", "a", "b", "e"] "s"
    (.bare "s" ⟨"i", .internal, []⟩ "a" :: .bare "a" ⟨"ok", .output, ["p"]⟩ "b" :: polling)

def model2 : TIOSTS :=
  .assemble (.declare "N" [⟨"j", .internal, []⟩, ⟨"ok", .input, ["q"]⟩] []
    [⟨"q", .integer⟩] []) ["t", "c", "d"] "t"
    [.bare "t" ⟨"j", .internal, []⟩ "c", .bare "c" ⟨"ok", .input, ["q"]⟩ "d"]

/-- The transitions polled in a round trip and in a loop at the junction. -/
def roundTrip : List Transition := [.bare "a" poll "e", .bare "e" poll "a"]

def loop : List Transition := [.bare "a" poll "a"]

/-- What is checked of the parts of a composition. -/
def Checks (junction : Junction) : Prop :=
  (junction.tiosts1.outOf junction.tc1.target = [] ∧
    junction.tiosts1.inOf junction.tc1.target = [junction.tc1]) ∧
  (junction.tiosts2.outOf junction.t02.source = [junction.t02] ∧
    junction.t02.source ≠ junction.t02.target) ∧
  (junction.tc1.action.type = .output ∧ junction.t02.action.type = .input ∧
    junction.tc1.action.parameters.length = junction.t02.action.parameters.length)

instance (junction : Junction) : Decidable (Checks junction) :=
  inferInstanceAs (Decidable (_ ∧ _))

theorem wellFormed1 (polling : List Transition) (uses : TIOSTS.Uses (.declare "M"
    [⟨"i", .internal, []⟩, poll, ⟨"ok", .output, ["p"]⟩] [] [⟨"p", .integer⟩] [])
    ["s", "a", "b", "e"] "s" (.bare "s" ⟨"i", .internal, []⟩ "a" ::
      .bare "a" ⟨"ok", .output, ["p"]⟩ "b" :: polling)) : (model1 polling).WellFormed :=
  TIOSTS.assemble_wellFormed (TIOSTS.declare_isBlank _ _ _ _ _) uses

theorem wellFormed2 : model2.WellFormed :=
  TIOSTS.assemble_wellFormed (TIOSTS.declare_isBlank _ _ _ _ _) (by decide)

theorem isSequentialInput {polling : List Transition} {junction : Junction}
    (wellFormed : (model1 polling).WellFormed)
    (found : findJunction order (model1 polling) model2 = .ok junction)
    (checked : Checks junction) :
    IsSequentialInput order (model1 polling) model2 junction := by
  obtain ⟨final, entry, actions⟩ := checked
  refine ⟨wellFormed, wellFormed2, isJunction_of_findJunction found, final, entry, actions,
    ?_, ?_⟩
  · intro label registered1 registered2
    rw [model1, TIOSTS.assemble_isRegistered (TIOSTS.declare_isBlank _ _ _ _ _)]
      at registered1
    rw [model2, TIOSTS.assemble_isRegistered (TIOSTS.declare_isBlank _ _ _ _ _)]
      at registered2
    have apart : ∀ label ∈ ["s", "a", "b", "e"], label ∉ ["t", "c", "d"] := by decide
    exact apart label registered1 registered2
  · intro name member1 member2
    have inNames1 := TIOSTS.mem_dataNames_of_mem_getVariableNames member1
    have inNames2 := TIOSTS.mem_dataNames_of_mem_getVariableNames member2
    rw [model1, TIOSTS.assemble_dataNames] at inNames1
    rw [model2, TIOSTS.assemble_dataNames] at inNames2
    obtain rfl := List.mem_singleton.mp inNames1
    exact absurd inNames2 (by decide)

theorem found_of_run {polling : List Transition} {checked : Junction → Bool}
    (ran : (findJunction order (model1 polling) model2).toOption.map checked = some true) :
    ∃ junction, findJunction order (model1 polling) model2 = .ok junction ∧
      checked junction = true := by
  cases outcome : findJunction order (model1 polling) model2 with
  | error failure =>
      rw [outcome] at ran
      cases ran
  | ok junction =>
      rw [outcome] at ran
      exact ⟨junction, rfl, Option.some.inj ran⟩

end JunctionInstance

open JunctionInstance in
/-- A round trip from the junction and back is renamed at both ends. -/
theorem sequentialComposition_exact_roundTrip :
    ∃ junction, IsSequentialInput order (model1 roundTrip) model2 junction ∧
      IsExact order (model1 roundTrip) model2 junction := by
  have ran : (findJunction order (model1 roundTrip) model2).toOption.map (fun junction =>
      decide (Checks junction ∧ EndsApart order junction)) = some true := by decide
  obtain ⟨junction, found, checked⟩ := found_of_run ran
  obtain ⟨holds, apart⟩ := of_decide_eq_true checked
  have input := isSequentialInput (wellFormed1 roundTrip (by decide)) found holds
  exact ⟨junction, input, (sequentialComposition_exact_iff input).1 apart⟩

open JunctionInstance in
/-- A loop at the junction leaves a location that is not in the result. -/
theorem sequentialComposition_not_exact :
    ∃ junction, IsSequentialInput order (model1 loop) model2 junction ∧
      ¬ IsExact order (model1 loop) model2 junction := by
  have ran : (findJunction order (model1 loop) model2).toOption.map (fun junction =>
      decide (Checks junction)) = some true := by decide
  obtain ⟨junction, found, checked⟩ := found_of_run ran
  refine ⟨junction, ?_, ?_⟩
  · exact isSequentialInput (wellFormed1 loop (by decide)) found (of_decide_eq_true checked)
  · rintro ⟨result, returned, _⟩
    have failed : (sequentialComposition order (model1 loop) model2).toOption = none := by
      decide
    rw [returned] at failed
    cases failed

end SequentialComposition

end Symbolrt
