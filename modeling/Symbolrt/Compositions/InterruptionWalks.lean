import Symbolrt.Base.Walks
import Symbolrt.Compositions.InterruptionCorrectness
import Symbolrt.Lib.Relays

/-!
# Walks through an interruption composition

The ends of the synchronising transitions are glued together.  A walk through the composition
is a relay of walks through the two models: it may go over to the other model where it comes
to an end of a synchronising transition, and nowhere else.
-/

namespace Symbolrt

namespace InterruptionComposition

/-- The locations are the sources or the targets of the point's transitions. -/
def Point.Joins (point : Point) (label1 label2 : String) : Prop :=
  label1 = point.t1Sync.source ∧ label2 = point.t2Sync.source ∨
    label1 = point.t1Sync.target ∧ label2 = point.t2Sync.target

/-- A location is one of the two models'. -/
def IsLocation (model1 model2 : TIOSTS) (label : String) : Prop :=
  model1.IsRegistered label ∨ model2.IsRegistered label

namespace Parts

variable (parts : Parts)

/-- The locations are the same, or some point joins them. -/
def Meets (label other : String) : Prop :=
  label = other ∨ ∃ point ∈ parts.points, point.Joins label other ∨ point.Joins other label

/-- The first model, and the second one without its initial transitions. -/
def components : Set (Folding.Graph String Transition) :=
  {parts.tiosts1.graph,
    parts.tiosts2.graph.keep {transition | transition ∈ parts.tiosts2.graph.edges ∧
      parts.tiosts2.isInitial transition.source = false}}

/-- The transition of the result for a transition of one of the models. -/
def image (transition : Transition) : Transition :=
  match parts.points.find? (fun point => point.actionSync = transition.action.name) with
  | none => parts.renamed transition
  | some point => parts.merged point

end Parts

section Input

variable {order : IterationOrder} {model1 model2 : TIOSTS} {parts : Parts}

variable (input : IsInterruptionInput order model1 model2 parts)

include input

theorem IsInterruptionInput.relabel_joins {point : Point} (inPoints : point ∈ parts.points)
    {label1 label2 : String} (joins : point.Joins label1 label2) :
    parts.relabel label1 = composedLabel label1 label2 ∧
      parts.relabel label2 = composedLabel label1 label2 := by
  obtain ⟨⟨source1, target1⟩, source2, target2⟩ := input.relabel_point inPoints
  rcases joins with ⟨rfl, rfl⟩ | ⟨rfl, rfl⟩
  · exact ⟨source1, source2⟩
  · exact ⟨target1, target2⟩

theorem IsInterruptionInput.joins_registered {point : Point} (inPoints : point ∈ parts.points)
    {label1 label2 : String} (joins : point.Joins label1 label2) :
    model1.IsRegistered label1 ∧ model2.IsRegistered label2 := by
  have isPoint := input.isParts.isPoint inPoints
  obtain ⟨source1, target1⟩ := input.registered1 isPoint.t1Sync.1
  obtain ⟨source2, target2⟩ := input.registered2 isPoint.t2Sync.1
  rcases joins with ⟨rfl, rfl⟩ | ⟨rfl, rfl⟩
  · exact ⟨source1, source2⟩
  · exact ⟨target1, target2⟩

theorem IsInterruptionInput.relabel_joined {point : Point} (inPoints : point ∈ parts.points)
    {label label1 label2 : String} (joins : point.Joins label1 label2)
    (isEnd : label = label1 ∨ label = label2) :
    parts.relabel label = composedLabel label1 label2 := by
  obtain ⟨composed1, composed2⟩ := input.relabel_joins inPoints joins
  rcases isEnd with rfl | rfl
  · exact composed1
  · exact composed2

omit input in
theorem exists_joins {label : String} (isEnd : label ∈ parts.ends1 ∨ label ∈ parts.ends2) :
    ∃ point ∈ parts.points, ∃ label1 label2, point.Joins label1 label2 ∧
      (label = label1 ∨ label = label2) := by
  rcases isEnd with inEnds1 | inEnds2
  · obtain ⟨point, inPoints, isSource | isTarget⟩ := mem_ends1.mp inEnds1
    · exact ⟨point, inPoints, _, _, Or.inl ⟨rfl, rfl⟩, Or.inl isSource⟩
    · exact ⟨point, inPoints, _, _, Or.inr ⟨rfl, rfl⟩, Or.inl isTarget⟩
  · obtain ⟨point, inPoints, isSource | isTarget⟩ := mem_ends2.mp inEnds2
    · exact ⟨point, inPoints, _, _, Or.inl ⟨rfl, rfl⟩, Or.inr isSource⟩
    · exact ⟨point, inPoints, _, _, Or.inr ⟨rfl, rfl⟩, Or.inr isTarget⟩

/-- A location stands for itself, or it is merged with the one that a point joins it to. -/
theorem IsInterruptionInput.kept_or_joined (label : String) : parts.relabel label = label ∨
    ∃ point ∈ parts.points, ∃ label1 label2, point.Joins label1 label2 ∧
      (label = label1 ∨ label = label2) ∧ parts.relabel label = composedLabel label1 label2 := by
  by_cases inEnds : label ∈ parts.ends1 ∨ label ∈ parts.ends2
  · obtain ⟨point, inPoints, label1, label2, joins, isEnd⟩ := exists_joins inEnds
    exact Or.inr ⟨point, inPoints, label1, label2, joins, isEnd,
      input.relabel_joined inPoints joins isEnd⟩
  · obtain ⟨apart1, apart2⟩ := not_or.mp inEnds
    exact Or.inl (relabel_of_not_mem apart1 apart2)

section Plain

variable (avoid1 : model1.LabelsAvoid [',']) (avoid2 : model2.LabelsAvoid [','])

include avoid1 avoid2

omit input in
theorem joined_apart {label label1 label2 : String}
    (location : IsLocation model1 model2 label) (same : parts.relabel label = label) :
    parts.relabel label ≠ composedLabel label1 label2 := by
  rw [same]
  rintro rfl
  have comma := comma_mem_composedLabel label1 label2
  rcases location with one | two
  · exact avoid1 _ one ',' List.mem_cons_self comma
  · exact avoid2 _ two ',' List.mem_cons_self comma

/-- Two locations have one label in the result if they meet. -/
theorem IsInterruptionInput.relabel_eq_iff {label other : String}
    (location : IsLocation model1 model2 label) (otherLocation : IsLocation model1 model2 other) :
    parts.relabel label = parts.relabel other ↔ parts.Meets label other := by
  constructor
  · intro same
    rcases input.kept_or_joined label with kept |
      ⟨point, inPoints, label1, label2, joins, isEnd, composed⟩
    · rcases input.kept_or_joined other with otherKept |
        ⟨_, _, other1, other2, _, _, otherComposed⟩
      · exact Or.inl (kept.symm.trans (same.trans otherKept))
      · exact absurd (same.trans otherComposed)
          (joined_apart avoid1 avoid2 location kept)
    · rcases input.kept_or_joined other with otherKept |
        ⟨otherPoint, otherInPoints, other1, other2, otherJoins, otherEnd, otherComposed⟩
      · exact absurd (same.symm.trans composed)
          (joined_apart avoid1 avoid2 otherLocation otherKept)
      · have plain := avoid1 _ (input.joins_registered inPoints joins).1 ',' List.mem_cons_self
        have otherPlain := avoid1 _ (input.joins_registered otherInPoints otherJoins).1 ','
          List.mem_cons_self
        obtain ⟨rfl, rfl⟩ := composedLabel_inj plain otherPlain
          (composed.symm.trans (same.trans otherComposed))
        rcases isEnd with rfl | rfl
        · rcases otherEnd with rfl | rfl
          · exact Or.inl rfl
          · exact Or.inr ⟨point, inPoints, Or.inl joins⟩
        · rcases otherEnd with rfl | rfl
          · exact Or.inr ⟨point, inPoints, Or.inr joins⟩
          · exact Or.inl rfl
  · rintro (rfl | ⟨point, inPoints, joins | joins⟩)
    · rfl
    · obtain ⟨composed1, composed2⟩ := input.relabel_joins inPoints joins
      exact composed1.trans composed2.symm
    · obtain ⟨composed1, composed2⟩ := input.relabel_joins inPoints joins
      exact composed2.trans composed1.symm

end Plain

theorem IsInterruptionInput.meets_location {label other : String}
    (location : IsLocation model1 model2 label) (meets : parts.Meets label other) :
    IsLocation model1 model2 other := by
  rcases meets with rfl | ⟨point, inPoints, joins | joins⟩
  · exact location
  · exact Or.inr (input.joins_registered inPoints joins).2
  · exact Or.inl (input.joins_registered inPoints joins).1

theorem IsInterruptionInput.image_other {transition : Transition}
    (other : transition.action.name ∉ parts.eSync) :
    parts.image transition = parts.renamed transition := by
  have missing : parts.points.find?
      (fun point => point.actionSync = transition.action.name) = none := by
    rw [List.find?_eq_none]
    intro point inPoints same
    apply other
    rw [← input.isParts.points_found.1, ← of_decide_eq_true same]
    exact List.mem_map_of_mem inPoints
  rw [Parts.image, missing]

theorem IsInterruptionInput.image_sync {point : Point} (inPoints : point ∈ parts.points)
    {transition : Transition} (name : transition.action.name = point.actionSync) :
    parts.image transition = parts.merged point := by
  unfold Parts.image
  cases found : parts.points.find?
      (fun point => point.actionSync = transition.action.name) with
  | none =>
      exact absurd (decide_eq_true name.symm) (List.find?_eq_none.mp found point inPoints)
  | some other =>
      have isNamed := List.find?_some found
      have otherName : other.actionSync = transition.action.name := of_decide_eq_true isNamed
      rw [List.inj_on_of_nodup_map input.isParts.points_nodup (List.mem_of_find?_eq_some found)
        inPoints (otherName.trans name)]

theorem IsInterruptionInput.image_expected {transition : Transition}
    (other : transition.action.name ∉ parts.eSync →
      transition ∈ parts.others1 order ++ parts.others2 order)
    (sync : ∀ point ∈ parts.points, transition.action.name = point.actionSync →
      parts.relabel transition.source = point.source ∧
        parts.relabel transition.target = point.target) :
    parts.image transition ∈ parts.expected order ∧
      (parts.image transition).source = parts.relabel transition.source ∧
      (parts.image transition).target = parts.relabel transition.target := by
  by_cases synchronises : transition.action.name ∈ parts.eSync
  · rw [← input.isParts.points_found.1] at synchronises
    obtain ⟨point, inPoints, name⟩ := List.mem_map.mp synchronises
    obtain ⟨source, target⟩ := sync point inPoints name.symm
    rw [input.image_sync inPoints name.symm, source, target]
    exact ⟨mem_expected.mpr (Or.inl (List.mem_map_of_mem inPoints)), rfl, rfl⟩
  · rw [input.image_other synchronises]
    have isOther := other synchronises
    exact ⟨mem_expected.mpr (Or.inr (List.mem_map_of_mem isOther)), rfl, rfl⟩

theorem IsInterruptionInput.image_first {transition : Transition}
    (member : transition ∈ parts.tiosts1.graph.edges) :
    parts.image transition ∈ parts.expected order ∧
      (parts.image transition).source = parts.relabel transition.source ∧
      (parts.image transition).target = parts.relabel transition.target := by
  have listed := (mem_getTransitions_of_outOf input.copy1 member).1
  apply input.image_expected
  · exact fun other => List.mem_append_left _ (mem_others1.mpr ⟨listed, other⟩)
  · intro point inPoints name
    rw [input.single1 point inPoints transition listed name]
    exact (input.relabel_point inPoints).1

theorem IsInterruptionInput.image_second {transition : Transition}
    (member : transition ∈ parts.tiosts2.graph.edges)
    (later : parts.tiosts2.isInitial transition.source = false) :
    parts.image transition ∈ parts.expected order ∧
      (parts.image transition).source = parts.relabel transition.source ∧
      (parts.image transition).target = parts.relabel transition.target := by
  have listed := (mem_getTransitions_of_outOf input.copy2 member).1
  apply input.image_expected
  · exact fun other => List.mem_append_right _ (mem_others2.mpr ⟨listed, later, other⟩)
  · intro point inPoints name
    rw [input.single2 point inPoints transition listed name]
    exact (input.relabel_point inPoints).2

theorem IsInterruptionInput.expected_covered {made : Transition}
    (expected : made ∈ parts.expected order) :
    ∃ component ∈ parts.components, ∃ transition ∈ component.edges,
      made = parts.image transition := by
  rcases mem_expected.mp expected with merged | renamed
  · obtain ⟨point, inPoints, rfl⟩ := List.mem_map.mp merged
    have isPoint := input.isParts.isPoint inPoints
    exact ⟨_, Or.inl rfl, point.t1Sync, (copy_transition input.copy1 isPoint.t1Sync.1).1,
      (input.image_sync inPoints isPoint.t1Sync.2).symm⟩
  · obtain ⟨transition, isOther, rfl⟩ := List.mem_map.mp renamed
    rcases List.mem_append.mp isOther with one | two
    · obtain ⟨listed, other⟩ := mem_others1.mp one
      exact ⟨_, Or.inl rfl, transition, (copy_transition input.copy1 listed).1,
        (input.image_other other).symm⟩
    · obtain ⟨listed, later, other⟩ := mem_others2.mp two
      exact ⟨_, Or.inr rfl, transition, ⟨(copy_transition input.copy2 listed).1, later⟩,
        (input.image_other other).symm⟩

/-- Where nothing is entangled the composition glues the models together. -/
theorem IsInterruptionInput.glues (untangled : IsUntangled order parts)
    (avoid1 : model1.LabelsAvoid [',']) (avoid2 : model2.LabelsAvoid [',']) {result : TIOSTS}
    (returned : interruptionComposition order model1 model2 = .ok result) :
    Folding.Graph.Glues parts.components result.graph parts.relabel parts.image
      {label | IsLocation model1 model2 label} parts.Meets := by
  obtain ⟨same, again, members⟩ := untangled.isExact input
  rw [returned] at again
  cases again
  have mem_result : ∀ made : Transition,
      made ∈ result.graph.edges ↔ made ∈ parts.expected order :=
    fun made => (members made.source made).trans ⟨And.left, fun member => ⟨member, rfl⟩⟩
  constructor
  · rintro component (rfl | rfl) transition member
    · obtain ⟨source, target⟩ :=
        input.registered1 (mem_getTransitions_of_outOf input.copy1 member).1
      exact ⟨Or.inl source, Or.inl target⟩
    · obtain ⟨source, target⟩ :=
        input.registered2 (mem_getTransitions_of_outOf input.copy2 member.1).1
      exact ⟨Or.inr source, Or.inr target⟩
  · rintro component (rfl | rfl) transition member
    · obtain ⟨expected, ends⟩ := input.image_first member
      exact ⟨(mem_result _).mpr expected, ends⟩
    · obtain ⟨expected, ends⟩ := input.image_second member.1 member.2
      exact ⟨(mem_result _).mpr expected, ends⟩
  · exact fun made member => input.expected_covered ((mem_result made).mp member)
  · intro label location other
    constructor
    · intro meets
      have otherLocation := input.meets_location location meets
      exact ⟨otherLocation,
        (input.relabel_eq_iff avoid1 avoid2 location otherLocation).mpr meets⟩
    · rintro ⟨otherLocation, same⟩
      exact (input.relabel_eq_iff avoid1 avoid2 location otherLocation).mp same

end Input

/-- Where nothing is entangled, the walks of an interruption composition are relays: stretches
of walks through the first model and through the second one behind its initial location, each
of which starts where the one before ends, or at the location that a synchronising action
joins it to. -/
theorem interruptionComposition_relays {order : IterationOrder} {model1 model2 result : TIOSTS}
    {parts : Parts} (input : IsInterruptionInput order model1 model2 parts)
    (untangled : IsUntangled order parts) (avoid1 : model1.LabelsAvoid [','])
    (avoid2 : model2.LabelsAvoid [','])
    (returned : interruptionComposition order model1 model2 = .ok result) {label : String}
    (location : IsLocation model1 model2 label) (walk : List Transition) :
    walk ∈ result.graph.chains (parts.relabel label) ↔
      ∃ stretches, Folding.Graph.IsRelay parts.components parts.Meets label stretches ∧
        walk = stretches.flatten.map parts.image :=
  (input.glues untangled avoid1 avoid2 returned).isChain_iff location

open CallInstance in
/-- A call is interrupted by the work of the second model. -/
theorem interruptionComposition_relays_restart : ∃ (parts : Parts) (result : TIOSTS),
    interruptionComposition order (model1 restart) model2 = .ok result ∧
      ∀ walk, walk ∈ result.graph.chains (parts.relabel "s") ↔
        ∃ stretches, Folding.Graph.IsRelay parts.components parts.Meets "s" stretches ∧
          walk = stretches.flatten.map parts.image := by
  have ran : (findParts order (model1 restart) model2).toOption.map (fun parts =>
      decide (Checks parts ∧ IsUntangled order parts)) = some true := by decide
  obtain ⟨parts, found, checked⟩ := found_of_run ran
  obtain ⟨holds, untangled⟩ := of_decide_eq_true checked
  have blank1 : declarations1.IsBlank := TIOSTS.declare_isBlank _ _ _ _ _
  have wellFormed1 : (model1 restart).WellFormed :=
    TIOSTS.assemble_wellFormed blank1 (by decide)
  have input := isInterruptionInput wellFormed1 found holds
  obtain ⟨result, returned, _⟩ := untangled.isExact input
  have avoid1 : (model1 restart).LabelsAvoid [','] :=
    TIOSTS.assemble_labelsAvoid blank1 (by decide)
  have avoid2 : model2.LabelsAvoid [','] :=
    TIOSTS.assemble_labelsAvoid (TIOSTS.declare_isBlank _ _ _ _ _) (by decide)
  have registered : (model1 restart).IsRegistered "s" := by
    rw [model1, TIOSTS.assemble_isRegistered blank1]
    decide
  exact ⟨parts, result, returned,
    interruptionComposition_relays input untangled avoid1 avoid2 returned (Or.inl registered)⟩

end InterruptionComposition

end Symbolrt
