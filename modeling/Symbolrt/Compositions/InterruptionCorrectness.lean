import Symbolrt.Base.Assembly
import Symbolrt.Compositions.InterruptionResult

/-!
# When an interruption composition renames all ends

The composition should replace the ends of the synchronising transitions, wherever they
occur, by the locations they are merged into.  It looks at one end of each transition at a
time, and guesses the other one from a neighbour, so it does what it should if no
transition of the first model joins two such ends and the guesses are right.
-/

namespace Symbolrt

namespace InterruptionComposition

/-- The merged ends, each with the location it is merged into. -/
def Point.merges (point : Point) : List (String × String) :=
  [(point.t1Sync.source, point.source), (point.t2Sync.source, point.source),
    (point.t1Sync.target, point.target), (point.t2Sync.target, point.target)]

namespace Parts

variable (parts : Parts)

/-- The pairs of locations the synchronisations join. -/
def merges : List (String × String) := parts.points.flatMap Point.merges

/-- The location of the result that stands for a location of one of the models. -/
def relabel (label : String) : String :=
  match parts.merges.find? (fun merge => merge.1 = label) with
  | none => label
  | some merge => merge.2

/-- The transition between the locations that stand for its ends. -/
def renamed (transition : Transition) : Transition :=
  { transition with
    source := parts.relabel transition.source
    target := parts.relabel transition.target }

/-- The merged ends of the first model. -/
def ends1 : List String :=
  parts.points.flatMap (fun point => [point.t1Sync.source, point.t1Sync.target])

/-- The merged ends of the second model. -/
def ends2 : List String := excludedLocations parts.points

/-- What the result should hold. -/
def expected (order : IterationOrder) : List Transition :=
  parts.points.map parts.merged ++ (parts.others1 order).map parts.renamed ++
    (parts.others2 order).map parts.renamed

/-- The first transition of the list synchronises. -/
def StartsAtPoint (transitions : List Transition) : Prop :=
  ∃ first ∈ transitions.head?, first.action.name ∈ parts.eSync

instance (transitions : List Transition) : Decidable (parts.StartsAtPoint transitions) :=
  inferInstanceAs (Decidable (∃ first ∈ transitions.head?, _))

/-- Both ends of the second model's transition are found where the source looks for
them. -/
structure IsGuessed (point : Point) (transition : Transition) : Prop where
  fromTarget : transition.source = point.t2Sync.target →
    parts.StartsAtPoint (parts.tiosts2.outOf transition.target)
  toSource : transition.source ≠ point.t2Sync.target →
    transition.target = point.t2Sync.source →
      parts.StartsAtPoint (parts.tiosts2.inOf transition.source)
  toTarget : transition.source ≠ point.t2Sync.target →
    transition.target ≠ point.t2Sync.source → transition.target ≠ point.t2Sync.target

end Parts

/-- Disjoint models in which every synchronising action is on one transition, so that the
ends of these transitions are merged consistently. -/
structure IsInterruptionInput (order : IterationOrder) (model1 model2 : TIOSTS)
    (parts : Parts) : Prop where
  wellFormed1 : model1.WellFormed
  wellFormed2 : model2.WellFormed
  isParts : IsParts order model1 model2 parts
  locations : ∀ label, model1.IsRegistered label → ¬ model2.IsRegistered label
  single1 : ∀ point ∈ parts.points, ∀ transition ∈ parts.tiosts1.getTransitions order,
    transition.action.name = point.actionSync → transition = point.t1Sync
  single2 : ∀ point ∈ parts.points, ∀ transition ∈ parts.tiosts2.getTransitions order,
    transition.action.name = point.actionSync → transition = point.t2Sync
  function : ∀ merge ∈ parts.merges, ∀ other ∈ parts.merges, merge.1 = other.1 →
    merge.2 = other.2

/-- The composition returns, and its locations hold exactly the expected transitions. -/
def IsExact (order : IterationOrder) (model1 model2 : TIOSTS) (parts : Parts) : Prop :=
  ∃ result, interruptionComposition order model1 model2 = .ok result ∧
    ∀ label transition, transition ∈ result.outOf label ↔
      transition ∈ parts.expected order ∧ transition.source = label

/-- Every point can be merged, and every other transition has an end that is looked for
and an end that is kept. -/
structure EndsFound (order : IterationOrder) (parts : Parts) : Prop where
  entered : ∀ point ∈ parts.points, parts.tiosts2.inOf point.t2Sync.source ≠ []
  action : ∀ point ∈ parts.points, point.side.type = .output ∨
    point.side.type = .internal ∧
      point.side.name ∈ parts.tiosts1.internalActions.map Action.name
  between1 : ∀ transition ∈ parts.others1 order,
    transition.source ∈ parts.ends1 → transition.target ∉ parts.ends1
  initial2 : ∀ transition ∈ parts.tiosts2.getTransitions order,
    parts.tiosts2.isInitial transition.source = true →
      transition.source ∈ parts.ends2 ∨ transition.target ∈ parts.ends2
  leaving2 : ∀ transition ∈ parts.others2 order, transition.source ∈ parts.ends2 →
    transition.target ∉ parts.ends2 →
      ∃ point ∈ parts.points, transition.source = point.t2Sync.target

/-- The transitions of the second model that join two merged ends are found too, and no key
hides a merged transition. -/
structure IsUntangled (order : IterationOrder) (parts : Parts) : Prop
    extends EndsFound order parts where
  between2 : ∀ transition ∈ parts.others2 order, transition.source ∈ parts.ends2 →
    transition.target ∈ parts.ends2 → ∀ point ∈ parts.points,
      parts.IsGuessed point transition
  keys : ∀ point ∈ parts.points, ∀ transition ∈ parts.expected order,
    transition.key = (parts.merged point).key →
      transition.action.name = point.actionSync

section Input

variable {order : IterationOrder} {model1 model2 : TIOSTS} {parts : Parts}

theorem declared_in_copy {model copy : TIOSTS} {transition : Transition}
    (isCopy : TIOSTS.IsExactCopy order model copy)
    (member : transition ∈ copy.getTransitions order) :
    transition.action.name ∈ (copy.actionsOf transition.action.type).map Action.name := by
  obtain ⟨leaves, _⟩ := copy_transition isCopy member
  obtain ⟨action, found⟩ := isCopy.wellFormed.action_declared leaves
  obtain ⟨declared, _, name⟩ := TIOSTS.getAction_eq_some found
  exact List.mem_map.mpr ⟨action, declared, name⟩

theorem mem_merges {merge : String × String} :
    merge ∈ parts.merges ↔ ∃ point ∈ parts.points, merge ∈ point.merges := by
  simp [Parts.merges]

theorem mem_ends1 {label : String} : label ∈ parts.ends1 ↔
    ∃ point ∈ parts.points, label = point.t1Sync.source ∨ label = point.t1Sync.target := by
  simp [Parts.ends1]

theorem mem_ends2 {label : String} : label ∈ parts.ends2 ↔
    ∃ point ∈ parts.points, label = point.t2Sync.source ∨ label = point.t2Sync.target := by
  simp [Parts.ends2, excludedLocations]

theorem relabel_of_not_mem {label : String} (apart1 : label ∉ parts.ends1)
    (apart2 : label ∉ parts.ends2) : parts.relabel label = label := by
  have missing : parts.merges.find? (fun merge => merge.1 = label) = none := by
    rw [List.find?_eq_none]
    intro merge member same
    obtain ⟨point, inPoints, inMerges⟩ := mem_merges.mp member
    have labelEq : merge.1 = label := of_decide_eq_true same
    rw [mem_ends1] at apart1
    rw [mem_ends2] at apart2
    simp only [Point.merges, List.mem_cons, List.not_mem_nil, or_false] at inMerges
    rcases inMerges with rfl | rfl | rfl | rfl
    · exact apart1 ⟨point, inPoints, Or.inl labelEq.symm⟩
    · exact apart2 ⟨point, inPoints, Or.inl labelEq.symm⟩
    · exact apart1 ⟨point, inPoints, Or.inr labelEq.symm⟩
    · exact apart2 ⟨point, inPoints, Or.inr labelEq.symm⟩
  rw [Parts.relabel, missing]

variable (input : IsInterruptionInput order model1 model2 parts)

include input

theorem IsInterruptionInput.copy1 : TIOSTS.IsExactCopy order model1 parts.tiosts1 :=
  exactCopy input.wellFormed1 input.isParts.copy1

theorem IsInterruptionInput.copy2 : TIOSTS.IsExactCopy order model2 parts.tiosts2 :=
  exactCopy input.wellFormed2 input.isParts.copy2

theorem IsInterruptionInput.relabel_of_mem {merge : String × String}
    (member : merge ∈ parts.merges) : parts.relabel merge.1 = merge.2 := by
  unfold Parts.relabel
  cases found : parts.merges.find? (fun other => other.1 = merge.1) with
  | none =>
      have missing := List.find?_eq_none.mp found merge member
      simp at missing
  | some other =>
      have same : other.1 = merge.1 := by simpa using List.find?_some found
      exact input.function other (List.mem_of_find?_eq_some found) merge member same

theorem IsInterruptionInput.relabel_point {point : Point} (inPoints : point ∈ parts.points) :
    (parts.relabel point.t1Sync.source = point.source ∧
      parts.relabel point.t1Sync.target = point.target) ∧
    parts.relabel point.t2Sync.source = point.source ∧
      parts.relabel point.t2Sync.target = point.target := by
  have stands : ∀ merge ∈ point.merges, parts.relabel merge.1 = merge.2 := by
    intro merge member
    apply input.relabel_of_mem
    exact mem_merges.mpr ⟨point, inPoints, member⟩
  simp only [Point.merges, List.forall_mem_cons] at stands
  obtain ⟨source1, source2, target1, target2, _⟩ := stands
  exact ⟨⟨source1, target1⟩, source2, target2⟩

theorem IsInterruptionInput.ends1_registered {label : String} (member : label ∈ parts.ends1) :
    model1.IsRegistered label := by
  obtain ⟨point, inPoints, isEnd⟩ := mem_ends1.mp member
  obtain ⟨_, _, source, target⟩ :=
    copy_transition input.copy1 (input.isParts.isPoint inPoints).t1Sync.1
  rcases isEnd with rfl | rfl
  · exact source
  · exact target

theorem IsInterruptionInput.ends2_registered {label : String} (member : label ∈ parts.ends2) :
    model2.IsRegistered label := by
  obtain ⟨point, inPoints, isEnd⟩ := mem_ends2.mp member
  obtain ⟨_, _, source, target⟩ :=
    copy_transition input.copy2 (input.isParts.isPoint inPoints).t2Sync.1
  rcases isEnd with rfl | rfl
  · exact source
  · exact target

theorem IsInterruptionInput.relabel1 {label : String} (registered : model1.IsRegistered label)
    (apart : label ∉ parts.ends1) : parts.relabel label = label := by
  apply relabel_of_not_mem apart
  exact fun member => input.locations label registered (input.ends2_registered member)

theorem IsInterruptionInput.relabel2 {label : String} (registered : model2.IsRegistered label)
    (apart : label ∉ parts.ends2) : parts.relabel label = label := by
  apply relabel_of_not_mem _ apart
  exact fun member => input.locations label (input.ends1_registered member) registered

theorem IsInterruptionInput.mem_excluded1 {label : String} :
    label ∈ parts.excluded1 order ↔ label ∈ parts.ends1 := by
  rw [Parts.excluded1, mem_buildSynchronizationLocations, mem_ends1]
  constructor
  · rintro ⟨transition, listed, synchronises, isEnd⟩
    rw [← input.isParts.points_found.1] at synchronises
    obtain ⟨point, inPoints, name⟩ := List.mem_map.mp synchronises
    have same := input.single1 point inPoints transition listed name.symm
    rw [same] at isEnd
    exact ⟨point, inPoints, isEnd⟩
  · rintro ⟨point, inPoints, isEnd⟩
    have isPoint := input.isParts.isPoint inPoints
    refine ⟨point.t1Sync, isPoint.t1Sync.1, ?_, isEnd⟩
    rw [isPoint.t1Sync.2]
    exact isPoint.actionSync

theorem IsInterruptionInput.mem_excluded2 {label : String} :
    label ∈ parts.excluded2 order ↔ label ∈ parts.ends2 := by
  rw [Parts.excluded2, mem_buildSynchronizationLocations, mem_ends2]
  constructor
  · rintro ⟨transition, listed, synchronises, isEnd⟩
    rw [← input.isParts.points_found.1] at synchronises
    obtain ⟨point, inPoints, name⟩ := List.mem_map.mp synchronises
    have same := input.single2 point inPoints transition listed name.symm
    rw [same] at isEnd
    exact ⟨point, inPoints, isEnd⟩
  · rintro ⟨point, inPoints, isEnd⟩
    have isPoint := input.isParts.isPoint inPoints
    refine ⟨point.t2Sync, isPoint.t2Sync.1, ?_, isEnd⟩
    rw [isPoint.t2Sync.2]
    exact isPoint.actionSync

theorem IsInterruptionInput.mem_labels {label : String} :
    label ∈ parts.labels order ↔
      (model1.IsRegistered label ∧ label ∉ parts.ends1) ∨
      (model2.IsRegistered label ∧ label ∉ parts.ends2) ∨
      ∃ point ∈ parts.points, label = point.source ∨ label = point.target := by
  have registered1 :
      label ∈ (parts.tiosts1.getLocations order).map Location.label ↔ _ :=
    mem_getLocationLabels input.copy1.wellFormed
  have registered2 :
      label ∈ (parts.tiosts2.getLocations order).map Location.label ↔ _ :=
    mem_getLocationLabels input.copy2.wellFormed
  simp only [Parts.labels, Parts.keptLabels, List.mem_append, mem_keptLabels, registered1,
    registered2, input.copy1.isRegistered, input.copy2.isRegistered, input.mem_excluded1,
    input.mem_excluded2, List.mem_flatMap, List.mem_cons, List.not_mem_nil, or_false, or_assoc]

theorem IsInterruptionInput.relabel_mem_labels {label : String}
    (registered : model1.IsRegistered label ∨ model2.IsRegistered label) :
    parts.relabel label ∈ parts.labels order := by
  rw [input.mem_labels]
  by_cases inEnds1 : label ∈ parts.ends1
  · obtain ⟨point, inPoints, isEnd⟩ := mem_ends1.mp inEnds1
    obtain ⟨⟨source, target⟩, _⟩ := input.relabel_point inPoints
    refine Or.inr (Or.inr ⟨point, inPoints, ?_⟩)
    rcases isEnd with rfl | rfl
    · exact Or.inl source
    · exact Or.inr target
  · by_cases inEnds2 : label ∈ parts.ends2
    · obtain ⟨point, inPoints, isEnd⟩ := mem_ends2.mp inEnds2
      obtain ⟨_, source, target⟩ := input.relabel_point inPoints
      refine Or.inr (Or.inr ⟨point, inPoints, ?_⟩)
      rcases isEnd with rfl | rfl
      · exact Or.inl source
      · exact Or.inr target
    · rw [relabel_of_not_mem inEnds1 inEnds2]
      rcases registered with one | two
      · exact Or.inl ⟨one, inEnds1⟩
      · exact Or.inr (Or.inl ⟨two, inEnds2⟩)

theorem IsInterruptionInput.registered1 {transition : Transition}
    (member : transition ∈ parts.tiosts1.getTransitions order) :
    model1.IsRegistered transition.source ∧ model1.IsRegistered transition.target :=
  (copy_transition input.copy1 member).2.2

theorem IsInterruptionInput.registered2 {transition : Transition}
    (member : transition ∈ parts.tiosts2.getTransitions order) :
    model2.IsRegistered transition.source ∧ model2.IsRegistered transition.target :=
  (copy_transition input.copy2 member).2.2

theorem IsInterruptionInput.renamed_ends {transition : Transition}
    (member : transition ∈ parts.others1 order ++ parts.others2 order) :
    (parts.renamed transition).source ∈ parts.labels order ∧
      (parts.renamed transition).target ∈ parts.labels order := by
  rcases List.mem_append.mp member with one | two
  · obtain ⟨source, target⟩ := input.registered1 (mem_others1.mp one).1
    constructor
    · exact input.relabel_mem_labels (Or.inl source)
    · exact input.relabel_mem_labels (Or.inl target)
  · obtain ⟨source, target⟩ := input.registered2 (mem_others2.mp two).1
    constructor
    · exact input.relabel_mem_labels (Or.inr source)
    · exact input.relabel_mem_labels (Or.inr target)

/-- The kept transitions join kept locations. -/
theorem IsInterruptionInput.kept_ends : ∀ transition ∈ parts.kept1 order ++ parts.kept2 order,
    transition.source ∈ parts.keptLabels order ∧
      transition.target ∈ parts.keptLabels order := by
  have labels1 {label : String} :
      label ∈ (parts.tiosts1.getLocations order).map Location.label ↔ _ :=
    mem_getLocationLabels input.copy1.wellFormed
  have labels2 {label : String} :
      label ∈ (parts.tiosts2.getLocations order).map Location.label ↔ _ :=
    mem_getLocationLabels input.copy2.wellFormed
  intro transition member
  simp only [Parts.keptLabels, List.mem_append, mem_keptLabels, labels1, labels2,
    input.copy1.isRegistered, input.copy2.isRegistered]
  rcases List.mem_append.mp member with one | two
  · obtain ⟨listed, apartSource, apartTarget⟩ := mem_keptTransitions.mp one
    obtain ⟨source, target⟩ := input.registered1 listed
    exact ⟨Or.inl ⟨source, apartSource⟩, Or.inl ⟨target, apartTarget⟩⟩
  · obtain ⟨listed, apartSource, apartTarget⟩ := mem_keptTransitions.mp two
    obtain ⟨source, target⟩ := input.registered2 listed
    exact ⟨Or.inr ⟨source, apartSource⟩, Or.inr ⟨target, apartTarget⟩⟩

/-- The action of a point is declared if it is an output or one of the first model's
internal actions. -/
theorem IsInterruptionInput.declared_iff {point : Point} (inPoints : point ∈ parts.points) :
    point.side.name ∈ (parts.declaredActions point.side.type).map Action.name ↔
      point.side.type = .output ∨ point.side.type = .internal ∧
        point.side.name ∈ parts.tiosts1.internalActions.map Action.name := by
  have isPoint := input.isParts.isPoint inPoints
  have own1 := declared_in_copy input.copy1 isPoint.t1Sync.1
  have own2 := declared_in_copy input.copy2 isPoint.t2Sync.1
  have own : point.side.name ∈ (parts.tiosts1.actionsOf point.side.type).map Action.name ∨
      point.side.name ∈ (parts.tiosts2.actionsOf point.side.type).map Action.name := by
    unfold Point.side
    split
    · exact Or.inl own1
    · exact Or.inr own2
  have synchronises : point.side.name ∈ parts.eSync := by
    rw [isPoint.side_name]
    exact isPoint.actionSync
  cases type : point.side.type with
  | input =>
      constructor
      · intro declared
        obtain ⟨action, kept, name⟩ := List.mem_map.mp declared
        have apart := of_decide_eq_true (List.mem_filter.mp kept).2
        rw [name] at apart
        exact absurd synchronises apart
      · rintro (impossible | ⟨impossible, _⟩)
        · cases impossible
        · cases impossible
  | output =>
      rw [type] at own
      constructor
      · exact fun _ => Or.inl rfl
      · intro _
        apply (mem_foldl_addOutputAction _ _ _).mpr
        rw [List.map_append, List.mem_append]
        exact Or.inr own
  | internal =>
      constructor
      · exact fun declared => Or.inr ⟨rfl, declared⟩
      · rintro (impossible | ⟨_, declared⟩)
        · cases impossible
        · exact declared

end Input

section Enough

variable {order : IterationOrder} {model1 model2 : TIOSTS} {parts : Parts}
  {point : Point} {result : TIOSTS} {transition : Transition}

/-- Both ends of a renamed transition of the first model are the ones it is given. -/
theorem IsUntangled.rewireFirst_eq (untangled : IsUntangled order parts)
    (input : IsInterruptionInput order model1 model2 parts)
    (inPoints : point ∈ parts.points) (member : transition ∈ parts.others1 order) :
    rewireFirst point (some (parts.merged point)) result transition =
      if point.TouchesFirst transition then result.create (parts.renamed transition)
      else .ok result := by
  obtain ⟨source, target⟩ := input.registered1 (mem_others1.mp member).1
  obtain ⟨⟨relabelSource, relabelTarget⟩, _⟩ := input.relabel_point inPoints
  have sourceEnd : point.t1Sync.source ∈ parts.ends1 :=
    mem_ends1.mpr ⟨point, inPoints, Or.inl rfl⟩
  have targetEnd : point.t1Sync.target ∈ parts.ends1 :=
    mem_ends1.mpr ⟨point, inPoints, Or.inr rfl⟩
  have keepSource : transition.target ∈ parts.ends1 →
      parts.relabel transition.source = transition.source := by
    intro inEnds
    apply input.relabel1 source
    exact fun sourceIn => untangled.between1 transition member sourceIn inEnds
  have keepTarget : transition.source ∈ parts.ends1 →
      parts.relabel transition.target = transition.target :=
    fun inEnds => input.relabel1 target (untangled.between1 transition member inEnds)
  have changeTarget (isEnd : transition.target ∈ parts.ends1) :
      parts.renamed transition =
        { transition with target := parts.relabel transition.target } := by
    rw [Parts.renamed, keepSource isEnd]
  have changeSource (isEnd : transition.source ∈ parts.ends1) :
      parts.renamed transition =
        { transition with source := parts.relabel transition.source } := by
    rw [Parts.renamed, keepTarget isEnd]
  unfold rewireFirst
  by_cases toSource : transition.target = point.t1Sync.source
  · have touches : point.TouchesFirst transition := Or.inl toSource
    rw [← toSource] at sourceEnd relabelSource
    rw [if_pos toSource, if_pos touches, changeTarget sourceEnd, relabelSource]
    rfl
  · by_cases toTarget : transition.target = point.t1Sync.target
    · have touches : point.TouchesFirst transition := Or.inr (Or.inl toTarget)
      rw [← toTarget] at targetEnd relabelTarget
      rw [if_neg toSource, if_pos toTarget, if_pos touches, changeTarget targetEnd,
        relabelTarget]
      rfl
    · by_cases fromTarget : transition.source = point.t1Sync.target
      · have touches : point.TouchesFirst transition := Or.inr (Or.inr (Or.inl fromTarget))
        rw [← fromTarget] at targetEnd relabelTarget
        rw [if_neg toSource, if_neg toTarget, if_pos fromTarget, if_pos touches,
          changeSource targetEnd, relabelTarget]
        rfl
      · by_cases fromSource : transition.source = point.t1Sync.source
        · have touches : point.TouchesFirst transition :=
            Or.inr (Or.inr (Or.inr fromSource))
          rw [← fromSource] at sourceEnd relabelSource
          rw [if_neg toSource, if_neg toTarget, if_neg fromTarget, if_pos fromSource,
            if_pos touches, changeSource sourceEnd, relabelSource]
          rfl
        · have apart : ¬ point.TouchesFirst transition := by
            rintro (touches | touches | touches | touches)
            · exact toSource touches
            · exact toTarget touches
            · exact fromTarget touches
            · exact fromSource touches
          rw [if_neg toSource, if_neg toTarget, if_neg fromTarget, if_neg fromSource,
            if_neg apart]
          rfl

/-- The merged transitions can be found in the result. -/
def FindsPoints (order : IterationOrder) (parts : Parts) (result : TIOSTS) : Prop :=
  ∀ point ∈ parts.points,
    recoverTransition (result.getTransitions order) point.actionSync =
      some (parts.merged point)

theorem FindsPoints.firstOut (finds : FindsPoints order parts result)
    (input : IsInterruptionInput order model1 model2 parts) {label : String}
    (starts : parts.StartsAtPoint (parts.tiosts2.outOf label)) :
    ∃ guess, recoverAgain order result (parts.tiosts2.firstOut label) = .ok guess ∧
      guess.source = parts.relabel label := by
  obtain ⟨first, isFirst, synchronises⟩ := starts
  obtain ⟨rest, whole⟩ := List.head?_eq_some_iff.mp isFirst
  have found := firstOut_eq_ok.mpr ⟨rest, whole⟩
  obtain ⟨listed, source⟩ := mem_getTransitions_of_outOf input.copy2 (firstOut_mem found)
  rw [← input.isParts.points_found.1] at synchronises
  obtain ⟨other, inPoints, name⟩ := List.mem_map.mp synchronises
  have same := input.single2 other inPoints first listed name.symm
  refine ⟨parts.merged other, ?_, ?_⟩
  · rw [found, recoverAgain, ok_bind, ← name, finds other inPoints]
    rfl
  · rw [← source, same]
    exact (input.relabel_point inPoints).2.1.symm

theorem FindsPoints.firstIn (finds : FindsPoints order parts result)
    (input : IsInterruptionInput order model1 model2 parts) {label : String}
    (starts : parts.StartsAtPoint (parts.tiosts2.inOf label)) :
    ∃ guess, recoverAgain order result (parts.tiosts2.firstIn label) = .ok guess ∧
      guess.target = parts.relabel label := by
  obtain ⟨first, isFirst, synchronises⟩ := starts
  obtain ⟨rest, whole⟩ := List.head?_eq_some_iff.mp isFirst
  have found := firstIn_eq_ok.mpr ⟨rest, whole⟩
  obtain ⟨listed, target⟩ := mem_getTransitions_of_inOf input.copy2 (firstIn_mem found)
  rw [← input.isParts.points_found.1] at synchronises
  obtain ⟨other, inPoints, name⟩ := List.mem_map.mp synchronises
  have same := input.single2 other inPoints first listed name.symm
  refine ⟨parts.merged other, ?_, ?_⟩
  · rw [found, recoverAgain, ok_bind, ← name, finds other inPoints]
    rfl
  · rw [← target, same]
    exact (input.relabel_point inPoints).2.2.symm

/-- Both ends of a renamed transition of the second model are the ones it is given. -/
theorem IsUntangled.rewireSecond_eq (untangled : IsUntangled order parts)
    (input : IsInterruptionInput order model1 model2 parts)
    (finds : FindsPoints order parts result)
    (inPoints : point ∈ parts.points) (member : transition ∈ parts.others2 order) :
    rewireSecond order parts.tiosts2 parts.ends2 point (some (parts.merged point)) result
      transition =
        if point.TouchesSecond transition then result.create (parts.renamed transition)
        else .ok result := by
  obtain ⟨source, target⟩ := input.registered2 (mem_others2.mp member).1
  obtain ⟨_, relabelSource, relabelTarget⟩ := input.relabel_point inPoints
  have sourceEnd : point.t2Sync.source ∈ parts.ends2 :=
    mem_ends2.mpr ⟨point, inPoints, Or.inl rfl⟩
  have targetEnd : point.t2Sync.target ∈ parts.ends2 :=
    mem_ends2.mpr ⟨point, inPoints, Or.inr rfl⟩
  have guessed (sourceIn : transition.source ∈ parts.ends2)
      (targetIn : transition.target ∈ parts.ends2) : parts.IsGuessed point transition :=
    untangled.between2 transition member sourceIn targetIn point inPoints
  unfold rewireSecond
  by_cases fromTarget : transition.source = point.t2Sync.target
  · have touches : point.TouchesSecond transition := Or.inl fromTarget
    rw [← fromTarget] at targetEnd relabelTarget
    rw [if_pos fromTarget, if_pos touches, Parts.renamed, relabelTarget]
    by_cases outside : transition.target ∉ parts.ends2
    · rw [if_pos outside, input.relabel2 target outside]
      rfl
    · have inside := not_not.mp outside
      obtain ⟨guess, found, guessSource⟩ :=
        finds.firstOut input ((guessed targetEnd inside).fromTarget fromTarget)
      rw [if_neg outside, found, ok_bind, guessSource]
      rfl
  · by_cases toSource : transition.target = point.t2Sync.source
    · have touches : point.TouchesSecond transition := Or.inr (Or.inl toSource)
      rw [← toSource] at sourceEnd relabelSource
      rw [if_neg fromTarget, if_pos toSource, if_pos touches, Parts.renamed, relabelSource]
      by_cases outside : transition.source ∉ parts.ends2
      · rw [if_pos outside, input.relabel2 source outside]
        rfl
      · have inside := not_not.mp outside
        obtain ⟨guess, found, guessTarget⟩ :=
          finds.firstIn input ((guessed inside sourceEnd).toSource fromTarget toSource)
        rw [if_neg outside, found, ok_bind, guessTarget]
        rfl
    · by_cases toTarget : transition.target = point.t2Sync.target
      · have touches : point.TouchesSecond transition := Or.inr (Or.inr toTarget)
        rw [← toTarget] at targetEnd relabelTarget
        rw [if_neg fromTarget, if_neg toSource, if_pos toTarget, if_pos touches,
          Parts.renamed, relabelTarget]
        by_cases outside : transition.source ∉ parts.ends2
        · rw [if_pos outside, input.relabel2 source outside]
          rfl
        · have inside := not_not.mp outside
          exact absurd toTarget ((guessed inside targetEnd).toTarget fromTarget toSource)
      · have apart : ¬ point.TouchesSecond transition := by
          rintro (touches | touches | touches)
          · exact fromTarget touches
          · exact toSource touches
          · exact toTarget touches
        rw [if_neg fromTarget, if_neg toSource, if_neg toTarget, if_neg apart]
        rfl

/-- A loop that creates the renamed transitions of a kind. -/
theorem Holds.createSome {labels : List String} {start : TIOSTS} {created : List Transition}
    (step : TIOSTS → Transition → Except Failure TIOSTS) (touches : Transition → Prop)
    [DecidablePred touches] {transitions : List Transition}
    (holds : Holds start labels created result)
    (ends : ∀ transition ∈ transitions, (parts.renamed transition).source ∈ labels ∧
      (parts.renamed transition).target ∈ labels)
    (body : ∀ done ⊆ transitions, ∀ current,
      Holds start labels (created ++ (done.filter (fun transition =>
        touches transition)).map parts.renamed) current →
      ∀ transition ∈ transitions, step current transition =
        if touches transition then current.create (parts.renamed transition)
        else .ok current) :
    ∃ next, transitions.foldlM step result = .ok next ∧
      Holds start labels (created ++ (transitions.filter (fun transition =>
        touches transition)).map parts.renamed) next := by
  apply Loops.foldlM_returns (fun done current => Holds start labels
    (created ++ (done.filter (fun transition => touches transition)).map parts.renamed) current)
  · simpa using holds
  · intro done transition rest current whole before
    have member : transition ∈ transitions := by simp [whole]
    have included : done ⊆ transitions := by simp [whole]
    rw [body done included current before transition member]
    by_cases touching : touches transition
    · obtain ⟨source, target⟩ := ends transition member
      obtain ⟨next, ran, after⟩ := before.create source target
      refine ⟨next, ?_, ?_⟩
      · rw [if_pos touching]
        exact ran
      · simpa [touching] using after
    · refine ⟨current, ?_, ?_⟩
      · rw [if_neg touching]
      · simpa [touching] using before

namespace Parts

variable (parts) (order) (point)

/-- What the points create again when no end is mistaken. -/
def rewiredAt : List Transition :=
  ((parts.others1 order).filter (fun transition => point.TouchesFirst transition)).map
      parts.renamed ++
    ((parts.others2 order).filter (fun transition => point.TouchesSecond transition)).map
      parts.renamed

end Parts

theorem mem_expected : transition ∈ parts.expected order ↔
    transition ∈ parts.points.map parts.merged ∨
      transition ∈ (parts.others1 order ++ parts.others2 order).map parts.renamed := by
  rw [Parts.expected, List.map_append, List.append_assoc, List.mem_append]

theorem IsUntangled.stable_subset (untangled : IsUntangled order parts)
    (input : IsInterruptionInput order model1 model2 parts) :
    parts.stable order ⊆ parts.expected order := by
  intro transition member
  apply mem_expected.mpr
  rcases List.mem_append.mp member with kept | merged
  · have other := kept_name kept
    apply Or.inr
    apply List.mem_map.mpr
    rcases List.mem_append.mp kept with one | two
    · obtain ⟨listed, apartSource, apartTarget⟩ := mem_keptTransitions.mp one
      obtain ⟨source, target⟩ := input.registered1 listed
      refine ⟨transition, List.mem_append_left _ (mem_others1.mpr ⟨listed, other⟩), ?_⟩
      rw [input.mem_excluded1] at apartSource apartTarget
      rw [Parts.renamed, input.relabel1 source apartSource, input.relabel1 target apartTarget]
    · obtain ⟨listed, apartSource, apartTarget⟩ := mem_keptTransitions.mp two
      obtain ⟨source, target⟩ := input.registered2 listed
      rw [input.mem_excluded2] at apartSource apartTarget
      have later : parts.tiosts2.isInitial transition.source = false := by
        rw [Bool.eq_false_iff]
        intro initial
        rcases untangled.initial2 transition listed initial with inSource | inTarget
        · exact apartSource inSource
        · exact apartTarget inTarget
      refine ⟨transition, List.mem_append_right _
        (mem_others2.mpr ⟨listed, later, other⟩), ?_⟩
      rw [Parts.renamed, input.relabel2 source apartSource, input.relabel2 target apartTarget]
  · exact Or.inl merged

theorem IsUntangled.findsPoints (untangled : IsUntangled order parts)
    (input : IsInterruptionInput order model1 model2 parts) {added : List Transition}
    (known : added ⊆ (parts.others1 order ++ parts.others2 order).map parts.renamed)
    (holds : Holds (parts.base order) (parts.labels order) (parts.stable order ++ added)
      result) : FindsPoints order parts result := by
  have others : ∀ made ∈ added, made.action.name ∉ parts.eSync := by
    intro made member
    obtain ⟨transition, listed, rfl⟩ := List.mem_map.mp (known member)
    rcases List.mem_append.mp listed with one | two
    · exact (mem_others1.mp one).2
    · exact (mem_others2.mp two).2.2
  intro point inPoints
  have name : (parts.merged point).action.name = point.actionSync :=
    (input.isParts.isPoint inPoints).side_name
  rw [← name]
  apply holds.recovered_eq
  · apply List.mem_append_left
    exact List.mem_append_right _ (List.mem_map_of_mem inPoints)
  · intro other member same
    exact input.isParts.merged_of_name others member inPoints (same.trans name)
  · intro other member same
    rw [name]
    apply untangled.keys point inPoints other _ same
    rcases List.mem_append.mp member with stable | new
    · exact untangled.stable_subset input stable
    · exact mem_expected.mpr (Or.inr (known new))

theorem IsUntangled.rewire_runs (untangled : IsUntangled order parts)
    (input : IsInterruptionInput order model1 model2 parts) {added : List Transition}
    (known : added ⊆ (parts.others1 order ++ parts.others2 order).map parts.renamed)
    (holds : Holds (parts.base order) (parts.labels order) (parts.stable order ++ added)
      result) (inPoints : point ∈ parts.points) :
    ∃ next, rewire order parts.tiosts1 parts.tiosts2 parts.eSync
        (excludedLocations parts.points) result point = .ok next ∧
      Holds (parts.base order) (parts.labels order)
        (parts.stable order ++ (added ++ parts.rewiredAt order point)) next := by
  have found := untangled.findsPoints input known holds point inPoints
  obtain ⟨middle, first, holdsFirst⟩ := holds.createSome
    (rewireFirst point (some (parts.merged point))) point.TouchesFirst
    (fun transition member => input.renamed_ends (List.mem_append_left _ member))
    (fun _ _ current _ transition member =>
      untangled.rewireFirst_eq input inPoints member)
  rw [List.append_assoc] at holdsFirst
  obtain ⟨next, second, holdsSecond⟩ := holdsFirst.createSome
    (rewireSecond order parts.tiosts2 parts.ends2 point (some (parts.merged point)))
    point.TouchesSecond
    (fun transition member => input.renamed_ends (List.mem_append_right _ member))
    (by
      intro done included current before transition member
      rw [List.append_assoc] at before
      apply untangled.rewireSecond_eq input (untangled.findsPoints input _ before) inPoints
        member
      intro made isMade
      rcases List.mem_append.mp isMade with old | new
      · rcases List.mem_append.mp old with older | one
        · exact known older
        · obtain ⟨transition, listed, rfl⟩ := List.mem_map.mp one
          apply List.mem_map_of_mem
          exact List.mem_append_left _ (List.mem_filter.mp listed).1
      · obtain ⟨transition, listed, rfl⟩ := List.mem_map.mp new
        apply List.mem_map_of_mem
        exact List.mem_append_right _ (included (List.mem_filter.mp listed).1))
  refine ⟨next, ?_, ?_⟩
  · rw [rewire, found]
    change ((parts.others1 order).foldlM (rewireFirst point (some (parts.merged point)))
      result >>= _) = _
    rw [first]
    exact second
  · rw [Parts.rewiredAt, ← List.append_assoc added]
    rw [List.append_assoc] at holdsSecond
    exact holdsSecond

theorem rewiredAt_subset : parts.rewiredAt order point ⊆
    (parts.others1 order ++ parts.others2 order).map parts.renamed := by
  intro made member
  rcases List.mem_append.mp member with one | two
  · obtain ⟨transition, listed, rfl⟩ := List.mem_map.mp one
    apply List.mem_map_of_mem
    exact List.mem_append_left _ (List.mem_filter.mp listed).1
  · obtain ⟨transition, listed, rfl⟩ := List.mem_map.mp two
    apply List.mem_map_of_mem
    exact List.mem_append_right _ (List.mem_filter.mp listed).1

/-- Every expected transition is kept, merged or touches a point. -/
theorem IsUntangled.mem_created (untangled : IsUntangled order parts)
    (input : IsInterruptionInput order model1 model2 parts) :
    transition ∈ parts.stable order ++ parts.points.flatMap (parts.rewiredAt order) ↔
      transition ∈ parts.expected order := by
  constructor
  · intro member
    rcases List.mem_append.mp member with stable | rewired
    · exact untangled.stable_subset input stable
    · obtain ⟨point, _, inRewired⟩ := List.mem_flatMap.mp rewired
      exact mem_expected.mpr (Or.inr (rewiredAt_subset inRewired))
  · intro member
    rcases mem_expected.mp member with merged | renamed
    · exact List.mem_append_left _ (List.mem_append_right _ merged)
    · obtain ⟨original, listed, rfl⟩ := List.mem_map.mp renamed
      rcases List.mem_append.mp listed with one | two
      · by_cases touching : ∃ point ∈ parts.points, point.TouchesFirst original
        · obtain ⟨point, inPoints, touches⟩ := touching
          apply List.mem_append_right
          apply List.mem_flatMap.mpr
          refine ⟨point, inPoints, List.mem_append_left _ (List.mem_map_of_mem ?_)⟩
          exact List.mem_filter.mpr ⟨one, by simpa using touches⟩
        · obtain ⟨inTransitions, _⟩ := mem_others1.mp one
          obtain ⟨source, target⟩ := input.registered1 inTransitions
          have apartSource : original.source ∉ parts.ends1 := by
            intro inEnds
            obtain ⟨point, inPoints, isSource | isTarget⟩ := mem_ends1.mp inEnds
            · exact touching ⟨point, inPoints, Or.inr (Or.inr (Or.inr isSource))⟩
            · exact touching ⟨point, inPoints, Or.inr (Or.inr (Or.inl isTarget))⟩
          have apartTarget : original.target ∉ parts.ends1 := by
            intro inEnds
            obtain ⟨point, inPoints, isSource | isTarget⟩ := mem_ends1.mp inEnds
            · exact touching ⟨point, inPoints, Or.inl isSource⟩
            · exact touching ⟨point, inPoints, Or.inr (Or.inl isTarget)⟩
          rw [Parts.renamed, input.relabel1 source apartSource,
            input.relabel1 target apartTarget]
          apply List.mem_append_left
          apply List.mem_append_left
          apply List.mem_append_left
          rw [← input.mem_excluded1] at apartSource apartTarget
          exact mem_keptTransitions.mpr ⟨inTransitions, apartSource, apartTarget⟩
      · by_cases touching : ∃ point ∈ parts.points, point.TouchesSecond original
        · obtain ⟨point, inPoints, touches⟩ := touching
          apply List.mem_append_right
          apply List.mem_flatMap.mpr
          refine ⟨point, inPoints, List.mem_append_right _ (List.mem_map_of_mem ?_)⟩
          exact List.mem_filter.mpr ⟨two, by simpa using touches⟩
        · obtain ⟨inTransitions, _⟩ := mem_others2.mp two
          obtain ⟨source, target⟩ := input.registered2 inTransitions
          have apartTarget : original.target ∉ parts.ends2 := by
            intro inEnds
            obtain ⟨point, inPoints, isSource | isTarget⟩ := mem_ends2.mp inEnds
            · exact touching ⟨point, inPoints, Or.inr (Or.inl isSource)⟩
            · exact touching ⟨point, inPoints, Or.inr (Or.inr isTarget)⟩
          have apartSource : original.source ∉ parts.ends2 := by
            intro inEnds
            obtain ⟨point, inPoints, isTarget⟩ :=
              untangled.leaving2 original two inEnds apartTarget
            exact touching ⟨point, inPoints, Or.inl isTarget⟩
          rw [Parts.renamed, input.relabel2 source apartSource,
            input.relabel2 target apartTarget]
          apply List.mem_append_left
          apply List.mem_append_left
          apply List.mem_append_right
          rw [← input.mem_excluded2] at apartSource apartTarget
          exact mem_keptTransitions.mpr ⟨inTransitions, apartSource, apartTarget⟩

theorem IsUntangled.isExact (untangled : IsUntangled order parts)
    (input : IsInterruptionInput order model1 model2 parts) :
    IsExact order model1 model2 parts := by
  obtain ⟨kept, keptRan, holdsKept⟩ := base_holds.createAll input.kept_ends
  rw [List.nil_append] at holdsKept
  have merges : ∀ point ∈ parts.points, CanMerge parts point := by
    intro point inPoints
    constructor
    · exact untangled.entered point inPoints
    · exact (input.declared_iff inPoints).mpr (untangled.action point inPoints)
  obtain ⟨merged, mergedRan, holdsMerged⟩ := input.isParts.merged_runs holdsKept merges
  obtain ⟨result, ran, holds⟩ : ∃ result,
      parts.points.foldlM (rewire order parts.tiosts1 parts.tiosts2 parts.eSync
        (excludedLocations parts.points)) merged = .ok result ∧
      Holds (parts.base order) (parts.labels order)
        (parts.stable order ++ parts.points.flatMap (parts.rewiredAt order)) result := by
    apply Loops.foldlM_returns (fun done state => Holds (parts.base order)
      (parts.labels order) (parts.stable order ++ done.flatMap (parts.rewiredAt order)) state)
    · simpa using holdsMerged
    · intro done point rest state whole before
      have inPoints : point ∈ parts.points := by simp [whole]
      have known : done.flatMap (parts.rewiredAt order) ⊆
          (parts.others1 order ++ parts.others2 order).map parts.renamed := by
        intro made member
        obtain ⟨other, _, inRewired⟩ := List.mem_flatMap.mp member
        exact rewiredAt_subset inRewired
      obtain ⟨next, stepped, after⟩ := untangled.rewire_runs input known before inPoints
      refine ⟨next, stepped, ?_⟩
      rw [List.flatMap_append]
      simpa using after
  refine ⟨result, ?_, ?_⟩
  · rw [interruptionComposition_eq input.isParts, keptRan, ok_bind, mergedRan, ok_bind]
    exact ran
  · intro label transition
    rw [holds.outOf, List.mem_filter, untangled.mem_created input, decide_eq_true_eq,
      eq_comm]

end Enough

section Plain

variable {order : IterationOrder} {model1 model2 : TIOSTS} {parts : Parts}
  (input : IsInterruptionInput order model1 model2 parts)
  (avoid1 : model1.LabelsAvoid [',', '#']) (avoid2 : model2.LabelsAvoid [',', '#'])

theorem Point.comma_mem (point : Point) :
    ',' ∈ point.source.toList ∧ ',' ∈ point.target.toList :=
  ⟨comma_mem_composedLabel _ _, comma_mem_composedLabel _ _⟩

include input

theorem IsInterruptionInput.apart_of_label1 (avoid1 : model1.LabelsAvoid [',', '#'])
    {label : String} (registered : model1.IsRegistered label)
    (inLabels : label ∈ parts.labels order) : label ∉ parts.ends1 := by
  have plain := avoid1 label registered ',' (by simp)
  rcases input.mem_labels.mp inLabels with ⟨_, apart⟩ | ⟨other, _⟩ | ⟨point, _, isPoint⟩
  · exact apart
  · exact absurd other (input.locations label registered)
  · rcases isPoint with rfl | rfl
    · exact absurd point.comma_mem.1 plain
    · exact absurd point.comma_mem.2 plain

/-- A location stands for itself or is merged. -/
theorem IsInterruptionInput.relabel_cases {label : String}
    (registered : model1.IsRegistered label ∨ model2.IsRegistered label) :
    (parts.relabel label = label ∧ label ∉ parts.ends1 ∧ label ∉ parts.ends2) ∨
      ',' ∈ (parts.relabel label).toList := by
  by_cases inEnds1 : label ∈ parts.ends1
  · obtain ⟨point, inPoints, isEnd⟩ := mem_ends1.mp inEnds1
    obtain ⟨⟨source, target⟩, _⟩ := input.relabel_point inPoints
    apply Or.inr
    rcases isEnd with rfl | rfl
    · rw [source]
      exact point.comma_mem.1
    · rw [target]
      exact point.comma_mem.2
  · by_cases inEnds2 : label ∈ parts.ends2
    · obtain ⟨point, inPoints, isEnd⟩ := mem_ends2.mp inEnds2
      obtain ⟨_, source, target⟩ := input.relabel_point inPoints
      apply Or.inr
      rcases isEnd with rfl | rfl
      · rw [source]
        exact point.comma_mem.1
      · rw [target]
        exact point.comma_mem.2
    · exact Or.inl ⟨relabel_of_not_mem inEnds1 inEnds2, inEnds1, inEnds2⟩

include avoid1 avoid2

omit avoid1 in
/-- An expected transition between plain locations of the second model is one of its
transitions and does not leave the initial location. -/
theorem IsInterruptionInput.not_initial {transition : Transition}
    (registered : model2.IsRegistered transition.source)
    (expected : transition ∈ parts.expected order) :
    parts.tiosts2.isInitial transition.source = false := by
  have plain := avoid2 _ registered ',' (by simp)
  rcases mem_expected.mp expected with merged | renamed
  · obtain ⟨point, _, rfl⟩ := List.mem_map.mp merged
    exact absurd point.comma_mem.1 plain
  · obtain ⟨original, listed, rfl⟩ := List.mem_map.mp renamed
    rcases List.mem_append.mp listed with one | two
    · obtain ⟨source, _⟩ := input.registered1 (mem_others1.mp one).1
      rcases input.relabel_cases (Or.inl source) with ⟨same, _⟩ | composed
      · have own : (parts.renamed original).source = original.source := same
        rw [own] at registered
        exact absurd registered (input.locations _ source)
      · exact absurd composed plain
    · obtain ⟨source, _⟩ := input.registered2 (mem_others2.mp two).1
      rcases input.relabel_cases (Or.inr source) with ⟨same, _⟩ | composed
      · have own : (parts.renamed original).source = original.source := same
        rw [own]
        exact (mem_others2.mp two).2.1
      · exact absurd composed plain

/-- A transition of the result from a merged end of the second model to a location that is
not merged was created where the source looks for such an end. -/
theorem IsInterruptionInput.found_source {point : Point} (inPoints : point ∈ parts.points)
    {rewired : List Transition}
    (kinds : ∀ made ∈ rewired, ∃ point ∈ parts.points, RewiredAt order parts point made)
    {made : Transition} (member : made ∈ parts.stable order ++ rewired)
    (source : made.source = point.source) (registered : model2.IsRegistered made.target) :
    ∃ other ∈ parts.points, point.t2Sync.source = other.t2Sync.target := by
  have plain := avoid2 _ registered ',' (by simp)
  rcases List.mem_append.mp member with stable | new
  · rcases List.mem_append.mp stable with kept | merged
    · rcases List.mem_append.mp kept with one | two
      · have own := (input.registered1 (mem_keptTransitions.mp one).1).1
        rw [source] at own
        exact absurd point.comma_mem.1 (avoid1 _ own ',' (by simp))
      · have own := (input.registered2 (mem_keptTransitions.mp two).1).1
        rw [source] at own
        exact absurd point.comma_mem.1 (avoid2 _ own ',' (by simp))
    · obtain ⟨other, _, rfl⟩ := List.mem_map.mp merged
      exact absurd other.comma_mem.2 plain
  · obtain ⟨other, inOthers, rewiredAt⟩ := kinds made new
    rcases rewiredAt with ⟨original, listed, rewires⟩ | ⟨original, listed, rewires⟩
    · have own := (input.registered1 (mem_others1.mp listed).1).2
      cases rewires with
      | toSource => exact absurd other.comma_mem.1 plain
      | toTarget => exact absurd other.comma_mem.2 plain
      | fromTarget => exact absurd registered (input.locations _ own)
      | fromSource => exact absurd registered (input.locations _ own)
    · cases rewires with
      | fromTarget target isTarget _ =>
          have same : composedLabel other.t1Sync.target other.t2Sync.target =
              composedLabel point.t1Sync.source point.t2Sync.source := source
          have otherEnd := input.ends1_registered
            (mem_ends1.mpr ⟨other, inOthers, Or.inr rfl⟩)
          have pointEnd := input.ends1_registered
            (mem_ends1.mpr ⟨point, inPoints, Or.inl rfl⟩)
          have parted := composedLabel_inj (avoid1 _ otherEnd ',' (by simp))
            (avoid1 _ pointEnd ',' (by simp)) same
          exact ⟨other, inOthers, parted.2.symm⟩
      | toSource => exact absurd other.comma_mem.1 plain
      | toTarget => exact absurd other.comma_mem.2 plain
      | misplaced => exact absurd other.comma_mem.1 plain

theorem IsInterruptionInput.endsFound (exact : IsExact order model1 model2 parts) :
    EndsFound order parts := by
  obtain ⟨result, returned, members⟩ := exact
  obtain ⟨merges, rewired, holds, kinds, covered⟩ := input.isParts.returned_holds returned
  constructor
  · exact fun point inPoints => (merges point inPoints).entered
  · exact fun point inPoints => (input.declared_iff inPoints).mp (merges point inPoints).declared
  · intro transition member inSource inTarget
    obtain ⟨source, target⟩ := input.registered1 (mem_others1.mp member).1
    obtain ⟨point, inPoints, isEnd⟩ := mem_ends1.mp inTarget
    have touches : point.TouchesFirst transition := by
      rcases isEnd with isSource | isTarget
      · exact Or.inl isSource
      · exact Or.inr (Or.inl isTarget)
    obtain ⟨made, isMade, rewires⟩ := (covered point inPoints).1 transition member touches
    have ends := holds.ends made (List.mem_append_right _ isMade)
    cases rewires with
    | toSource => exact input.apart_of_label1 avoid1 source ends.1 inSource
    | toTarget => exact input.apart_of_label1 avoid1 source ends.1 inSource
    | fromTarget => exact input.apart_of_label1 avoid1 target ends.2 inTarget
    | fromSource => exact input.apart_of_label1 avoid1 target ends.2 inTarget
  · intro transition listed initial
    by_contra apart
    rw [not_or, ← input.mem_excluded2, ← input.mem_excluded2] at apart
    have kept : transition ∈ parts.kept2 order :=
      mem_keptTransitions.mpr ⟨listed, apart.1, apart.2⟩
    have inResult : transition ∈ result.outOf transition.source := by
      rw [holds.outOf]
      apply List.mem_filter.mpr
      refine ⟨?_, by simp⟩
      apply List.mem_append_left
      apply List.mem_append_left
      exact List.mem_append_right _ kept
    have later := input.not_initial avoid2 (input.registered2 listed).1
      ((members _ _).mp inResult).1
    rw [initial] at later
    cases later
  · intro transition member inSource outside
    obtain ⟨source, target⟩ := input.registered2 (mem_others2.mp member).1
    have expected : parts.renamed transition ∈ parts.expected order := by
      apply mem_expected.mpr
      apply Or.inr
      exact List.mem_map_of_mem (List.mem_append_right _ member)
    have inResult := (members _ _).mpr ⟨expected, rfl⟩
    rw [holds.outOf] at inResult
    have created := (List.mem_filter.mp inResult).1
    obtain ⟨point, inPoints, isSource | isTarget⟩ := mem_ends2.mp inSource
    · have leaves : (parts.renamed transition).source = point.source := by
        rw [← (input.relabel_point inPoints).2.1, ← isSource]
        rfl
      have enters : (parts.renamed transition).target = transition.target :=
        input.relabel2 target outside
      obtain ⟨other, inOthers, same⟩ := input.found_source avoid1 avoid2 inPoints kinds
        created leaves (by rw [enters]; exact target)
      exact ⟨other, inOthers, isSource.trans same⟩
    · exact ⟨point, inPoints, isTarget⟩

omit input avoid1 avoid2 in
/-- A key tells the name of its transition when no end contains its separator. -/
theorem name_of_key {transition other : Transition} (source : '#' ∉ transition.source.toList)
    (target : '#' ∉ transition.target.toList) (otherSource : '#' ∉ other.source.toList)
    (otherTarget : '#' ∉ other.target.toList) (same : transition.key = other.key) :
    transition.action.name = other.action.name := by
  have chars : ∀ transition : Transition, transition.key.toList =
      transition.source.toList ++
        '#' :: (transition.action.name.toList ++ '#' :: transition.target.toList) := by
    intro transition
    simp [Transition.key]
  have whole := congrArg String.toList same
  rw [chars, chars] at whole
  obtain ⟨_, rest⟩ := Text.append_cons_inj_left source otherSource whole
  obtain ⟨names, _⟩ := Text.append_cons_inj_right target otherTarget rest
  exact String.toList_injective names

theorem IsInterruptionInput.labels_avoid {label : String}
    (member : label ∈ parts.labels order) : '#' ∉ label.toList := by
  have composed : ∀ label1 label2, model1.IsRegistered label1 → model2.IsRegistered label2 →
      '#' ∉ (composedLabel label1 label2).toList := by
    intro label1 label2 registered1 registered2
    rw [composedLabel_toList]
    have one := avoid1 label1 registered1 '#' (by simp)
    have two := avoid2 label2 registered2 '#' (by simp)
    simp [one, two]
  rcases input.mem_labels.mp member with ⟨registered, _⟩ | ⟨registered, _⟩ |
    ⟨point, inPoints, isPoint⟩
  · exact avoid1 label registered '#' (by simp)
  · exact avoid2 label registered '#' (by simp)
  · have ends1 := input.registered1 (input.isParts.isPoint inPoints).t1Sync.1
    have ends2 := input.registered2 (input.isParts.isPoint inPoints).t2Sync.1
    rcases isPoint with rfl | rfl
    · exact composed _ _ ends1.1 ends2.1
    · exact composed _ _ ends1.2 ends2.2

theorem IsInterruptionInput.keys : ∀ point ∈ parts.points,
    ∀ transition ∈ parts.expected order, transition.key = (parts.merged point).key →
      transition.action.name = point.actionSync := by
  have pointLabels : ∀ point ∈ parts.points, point.source ∈ parts.labels order ∧
      point.target ∈ parts.labels order := by
    intro point inPoints
    constructor
    · exact input.mem_labels.mpr (Or.inr (Or.inr ⟨point, inPoints, Or.inl rfl⟩))
    · exact input.mem_labels.mpr (Or.inr (Or.inr ⟨point, inPoints, Or.inr rfl⟩))
  intro point inPoints transition expected same
  have ends : transition.source ∈ parts.labels order ∧
      transition.target ∈ parts.labels order := by
    rcases mem_expected.mp expected with merged | renamed
    · obtain ⟨other, inOthers, rfl⟩ := List.mem_map.mp merged
      exact pointLabels other inOthers
    · obtain ⟨original, listed, rfl⟩ := List.mem_map.mp renamed
      exact input.renamed_ends listed
  rw [← (input.isParts.isPoint inPoints).side_name]
  apply name_of_key _ _ _ _ same
  · exact input.labels_avoid avoid1 avoid2 ends.1
  · exact input.labels_avoid avoid1 avoid2 ends.2
  · exact input.labels_avoid avoid1 avoid2 (pointLabels point inPoints).1
  · exact input.labels_avoid avoid1 avoid2 (pointLabels point inPoints).2

end Plain

/-- The composition is exact if nothing is entangled.  When no label contains a separator,
it is exact only if the ends are found, and that is enough if the transitions of the second
model that join two merged ends are found too. -/
theorem interruptionComposition_exact_of_untangled {order : IterationOrder} {model1 model2 : TIOSTS}
    {parts : Parts} (input : IsInterruptionInput order model1 model2 parts) :
    (IsUntangled order parts → IsExact order model1 model2 parts) ∧
      (model1.LabelsAvoid [',', '#'] → model2.LabelsAvoid [',', '#'] →
        (IsExact order model1 model2 parts → EndsFound order parts) ∧
          ((∀ transition ∈ parts.others2 order, transition.source ∈ parts.ends2 →
              transition.target ∈ parts.ends2 → ∀ point ∈ parts.points,
                parts.IsGuessed point transition) →
            (IsExact order model1 model2 parts ↔ EndsFound order parts))) := by
  constructor
  · exact fun untangled => untangled.isExact input
  · intro avoid1 avoid2
    constructor
    · exact input.endsFound avoid1 avoid2
    · intro guessed
      constructor
      · exact input.endsFound avoid1 avoid2
      · intro found
        have untangled : IsUntangled order parts :=
          ⟨found, guessed, input.keys avoid1 avoid2⟩
        exact untangled.isExact input

instance (parts : Parts) (point : Point) (transition : Transition) :
    Decidable (parts.IsGuessed point transition) :=
  decidable_of_iff (_ ∧ _ ∧ _)
    ⟨fun ⟨fromTarget, toSource, toTarget⟩ => ⟨fromTarget, toSource, toTarget⟩,
      fun ⟨fromTarget, toSource, toTarget⟩ => ⟨fromTarget, toSource, toTarget⟩⟩

instance (order : IterationOrder) (parts : Parts) : Decidable (EndsFound order parts) :=
  decidable_of_iff (_ ∧ _ ∧ _ ∧ _ ∧ _)
    ⟨fun ⟨entered, action, between1, initial2, leaving2⟩ =>
      ⟨entered, action, between1, initial2, leaving2⟩,
      fun ⟨entered, action, between1, initial2, leaving2⟩ =>
        ⟨entered, action, between1, initial2, leaving2⟩⟩

instance (order : IterationOrder) (parts : Parts) : Decidable (IsUntangled order parts) :=
  decidable_of_iff (_ ∧ _ ∧ _)
    ⟨fun ⟨found, between2, keys⟩ => ⟨found, between2, keys⟩,
      fun ⟨found, between2, keys⟩ => ⟨found, between2, keys⟩⟩

namespace CallInstance

def order : IterationOrder := ⟨id, IterationOrder.id_perm⟩

def tick : Action := ⟨"tick", .input, []⟩

def declarations1 : TIOSTS :=
  .declare "M" [⟨"i", .internal, []⟩, tick, ⟨"call", .output, []⟩, ⟨"ret", .input, []⟩] [] [] []

/-- A model that calls the second one and waits for its return. -/
def model1 (ticking : List Transition) : TIOSTS :=
  .assemble declarations1 ["s", "p", "q", "e", "x"] "s"
    (.bare "s" ⟨"i", .internal, []⟩ "p" :: .bare "p" ⟨"call", .output, []⟩ "q" ::
      .bare "q" ⟨"ret", .input, []⟩ "e" :: ticking)

def declarations2 : TIOSTS :=
  .declare "N" [⟨"j", .internal, []⟩, ⟨"work", .input, []⟩, ⟨"call", .input, []⟩,
    ⟨"ret", .output, []⟩] [] [] []

/-- A model that works between the call and its return. -/
def model2 : TIOSTS :=
  .assemble declarations2 ["t", "c", "d", "f", "g"] "t"
    [.bare "t" ⟨"j", .internal, []⟩ "c", .bare "c" ⟨"call", .input, []⟩ "d",
      .bare "d" ⟨"work", .input, []⟩ "f", .bare "f" ⟨"work", .input, []⟩ "d",
      .bare "d" ⟨"ret", .output, []⟩ "g"]

/-- Ticks that start over, and one that loops where the model is interrupted. -/
def restart : List Transition := [.bare "e" tick "x", .bare "x" tick "p"]

def loop : List Transition := [.bare "p" tick "p"]

/-- What is checked of the parts of a composition. -/
def Checks (parts : Parts) : Prop :=
  (∀ point ∈ parts.points, ∀ transition ∈ parts.tiosts1.getTransitions order,
    transition.action.name = point.actionSync → transition = point.t1Sync) ∧
  (∀ point ∈ parts.points, ∀ transition ∈ parts.tiosts2.getTransitions order,
    transition.action.name = point.actionSync → transition = point.t2Sync) ∧
  ∀ merge ∈ parts.merges, ∀ other ∈ parts.merges, merge.1 = other.1 → merge.2 = other.2

instance (parts : Parts) : Decidable (Checks parts) :=
  inferInstanceAs (Decidable (_ ∧ _))

theorem isInterruptionInput {ticking : List Transition} {parts : Parts}
    (wellFormed1 : (model1 ticking).WellFormed)
    (found : findParts order (model1 ticking) model2 = .ok parts) (checked : Checks parts) :
    IsInterruptionInput order (model1 ticking) model2 parts := by
  obtain ⟨single1, single2, function⟩ := checked
  refine ⟨wellFormed1, ?_, isParts_of_findParts found, ?_, single1, single2, function⟩
  · exact TIOSTS.assemble_wellFormed (TIOSTS.declare_isBlank _ _ _ _ _) (by decide)
  · intro label registered1 registered2
    rw [model1, declarations1,
      TIOSTS.assemble_isRegistered (TIOSTS.declare_isBlank _ _ _ _ _)] at registered1
    rw [model2, declarations2,
      TIOSTS.assemble_isRegistered (TIOSTS.declare_isBlank _ _ _ _ _)] at registered2
    have apart : ∀ label ∈ ["s", "p", "q", "e", "x"], label ∉ ["t", "c", "d", "f", "g"] := by
      decide
    exact apart label registered1 registered2

theorem found_of_run {ticking : List Transition} {checked : Parts → Bool}
    (ran : (findParts order (model1 ticking) model2).toOption.map checked = some true) :
    ∃ parts, findParts order (model1 ticking) model2 = .ok parts ∧ checked parts = true := by
  cases outcome : findParts order (model1 ticking) model2 with
  | error failure =>
      rw [outcome] at ran
      cases ran
  | ok parts =>
      rw [outcome] at ran
      exact ⟨parts, rfl, Option.some.inj ran⟩

end CallInstance

open CallInstance in
/-- A call whose return leads back to it is composed exactly. -/
theorem interruptionComposition_exact_restart :
    ∃ parts, IsInterruptionInput order (model1 restart) model2 parts ∧
      IsExact order (model1 restart) model2 parts := by
  have wellFormed1 : (model1 restart).WellFormed :=
    TIOSTS.assemble_wellFormed (TIOSTS.declare_isBlank _ _ _ _ _) (by decide)
  have ran : (findParts order (model1 restart) model2).toOption.map (fun parts =>
      decide (Checks parts ∧ IsUntangled order parts)) = some true := by decide
  obtain ⟨parts, found, checked⟩ := found_of_run ran
  obtain ⟨holds, untangled⟩ := of_decide_eq_true checked
  have input := isInterruptionInput wellFormed1 found holds
  exact ⟨parts, input, (interruptionComposition_exact_of_untangled input).1 untangled⟩

open CallInstance in
/-- A loop at the interrupted location leaves a location that is not in the result. -/
theorem interruptionComposition_not_exact :
    ∃ parts, IsInterruptionInput order (model1 loop) model2 parts ∧
      ¬ IsExact order (model1 loop) model2 parts := by
  have wellFormed1 : (model1 loop).WellFormed :=
    TIOSTS.assemble_wellFormed (TIOSTS.declare_isBlank _ _ _ _ _) (by decide)
  have ran : (findParts order (model1 loop) model2).toOption.map (fun parts =>
      decide (Checks parts)) = some true := by decide
  obtain ⟨parts, found, checked⟩ := found_of_run ran
  refine ⟨parts, isInterruptionInput wellFormed1 found (of_decide_eq_true checked), ?_⟩
  rintro ⟨result, returned, _⟩
  have failed : (interruptionComposition order (model1 loop) model2).toOption = none := by
    decide
  rw [returned] at failed
  cases failed

end InterruptionComposition

end Symbolrt
