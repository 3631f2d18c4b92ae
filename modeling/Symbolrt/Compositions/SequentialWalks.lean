import Symbolrt.Base.Walks
import Symbolrt.Compositions.SequentialCorrectness
import Symbolrt.Lib.Bridge

/-!
# Walks through a sequential composition

The composed transition is a bridge from the first model to the second one.  A walk through
the composition stays in the first model, or goes to the junction, across the bridge, and on
behind the entry transition of the second model.
-/

namespace Symbolrt

open Folding

namespace SequentialComposition

namespace Junction

variable (junction : Junction) (order : IterationOrder)

/-- The first model without the transition at the junction. -/
def graph1 : Folding.Graph String Transition :=
  junction.tiosts1.graph.keep {transition | transition ∈ junction.others1 order}

/-- The second model without its initial and its entry transition. -/
def graph2 : Folding.Graph String Transition :=
  junction.tiosts2.graph.keep {transition | transition ∈ junction.others2 order}

def bridge : Folding.Graph (String ⊕ String) (Passage Transition Transition) :=
  (junction.graph1 order).bridge (junction.graph2 order) junction.tc1.source
    junction.t02.target

/-- The label of the result for a location of one of the models. -/
def labelOf (node : String ⊕ String) : String := junction.relabel (node.elim id id)

/-- The transition of the result for a passage. -/
def image : Passage Transition Transition → Transition
  | .before transition => junction.renamed transition
  | .across => junction.merged
  | .behind transition => junction.renamed transition

/-- The locations that are left: the final one of the first model and the entry of the second
one are given up. -/
def Stays (model1 model2 : TIOSTS) : String ⊕ String → Prop
  | .inl label => model1.IsRegistered label ∧ label ≠ junction.tc1.target
  | .inr label => model2.IsRegistered label ∧ label ≠ junction.t02.source

end Junction

section Input

variable {order : IterationOrder} {model1 model2 : TIOSTS} {junction : Junction}

variable (input : IsSequentialInput order model1 model2 junction)

include input

theorem IsSequentialInput.labelOf_across :
    junction.merged.source = junction.labelOf (.inl junction.tc1.source) ∧
      junction.merged.target = junction.labelOf (.inr junction.t02.target) := by
  obtain ⟨source1, target1, _, target2⟩ := input.junction_registered
  constructor
  · have label := input.relabel1 source1 input.source_ne_target1
    rw [if_pos rfl] at label
    exact label.symm
  · have label := input.relabel2 target2 input.entry.2.symm
    rw [if_pos rfl] at label
    exact label.symm

omit input in
theorem replaced_inj {replaced fresh label other : String} (notFresh : label ≠ fresh)
    (otherNotFresh : other ≠ fresh) (same : (if label = replaced then fresh else label) =
      if other = replaced then fresh else other) : label = other := by
  by_cases isReplaced : label = replaced
  · rw [if_pos isReplaced] at same
    by_cases otherReplaced : other = replaced
    · exact isReplaced.trans otherReplaced.symm
    · rw [if_neg otherReplaced] at same
      exact absurd same.symm otherNotFresh
  · rw [if_neg isReplaced] at same
    by_cases otherReplaced : other = replaced
    · rw [if_pos otherReplaced] at same
      exact absurd same notFresh
    · rw [if_neg otherReplaced] at same
      exact same

section Plain

variable (avoid1 : model1.LabelsAvoid [',']) (avoid2 : model2.LabelsAvoid [','])

include avoid1 in
theorem IsSequentialInput.source_ne_target : junction.source ≠ junction.target := by
  obtain ⟨source1, target1, _, _⟩ := input.junction_registered
  intro same
  exact input.source_ne_target1 (composedLabel_inj (avoid1 _ source1 ',' List.mem_cons_self)
    (avoid1 _ target1 ',' List.mem_cons_self) same).1

include avoid1 avoid2 in
/-- No location of the first model has the label of one of the second. -/
theorem IsSequentialInput.labelOf_apart {label other : String}
    (stays : junction.Stays model1 model2 (.inl label))
    (otherStays : junction.Stays model1 model2 (.inr other)) :
    junction.labelOf (.inl label) ≠ junction.labelOf (.inr other) := by
  have label1 : junction.labelOf (.inl label) =
      if label = junction.tc1.source then junction.source else label :=
    input.relabel1 stays.1 stays.2
  have label2 : junction.labelOf (.inr other) =
      if other = junction.t02.target then junction.target else other :=
    input.relabel2 otherStays.1 otherStays.2
  have plain1 := junction.not_composed (avoid1 label stays.1 ',' List.mem_cons_self)
  have plain2 := junction.not_composed (avoid2 other otherStays.1 ',' List.mem_cons_self)
  rw [label1, label2]
  by_cases isSource : label = junction.tc1.source
  · rw [if_pos isSource]
    by_cases isTarget : other = junction.t02.target
    · rw [if_pos isTarget]
      exact input.source_ne_target avoid1
    · rw [if_neg isTarget]
      exact plain2.1.symm
  · rw [if_neg isSource]
    by_cases isTarget : other = junction.t02.target
    · rw [if_pos isTarget]
      exact plain1.2
    · rw [if_neg isTarget]
      rintro rfl
      exact input.locations label stays.1 otherStays.1

include avoid1 avoid2 in
/-- The labels of the locations that are left tell them apart. -/
theorem IsSequentialInput.labelOf_inj {node other : String ⊕ String}
    (stays : junction.Stays model1 model2 node) (otherStays : junction.Stays model1 model2 other)
    (same : junction.labelOf node = junction.labelOf other) : node = other := by
  cases node with
  | inl label =>
      cases other with
      | inl other =>
          have plain := junction.not_composed (avoid1 label stays.1 ',' List.mem_cons_self)
          have otherPlain := junction.not_composed (avoid1 other otherStays.1 ','
            List.mem_cons_self)
          have labels : (if label = junction.tc1.source then junction.source else label) =
              if other = junction.tc1.source then junction.source else other :=
            (input.relabel1 stays.1 stays.2).symm.trans
              (same.trans (input.relabel1 otherStays.1 otherStays.2))
          rw [replaced_inj plain.1 otherPlain.1 labels]
      | inr other => exact absurd same (input.labelOf_apart avoid1 avoid2 stays otherStays)
  | inr label =>
      cases other with
      | inl other => exact absurd same.symm (input.labelOf_apart avoid1 avoid2 otherStays stays)
      | inr other =>
          have plain := junction.not_composed (avoid2 label stays.1 ',' List.mem_cons_self)
          have otherPlain := junction.not_composed (avoid2 other otherStays.1 ','
            List.mem_cons_self)
          have labels : (if label = junction.t02.target then junction.target else label) =
              if other = junction.t02.target then junction.target else other :=
            (input.relabel2 stays.1 stays.2).symm.trans
              (same.trans (input.relabel2 otherStays.1 otherStays.2))
          rw [replaced_inj plain.2 otherPlain.2 labels]

end Plain

/-- A passage joins locations that are left, and its transition their labels. -/
theorem IsSequentialInput.image_ends (apart : EndsApart order junction)
    {passage : Passage Transition Transition} (member : passage ∈ (junction.bridge order).edges) :
    junction.Stays model1 model2 ((junction.bridge order).source passage) ∧
      junction.Stays model1 model2 ((junction.bridge order).target passage) ∧
      (junction.image passage).source =
        junction.labelOf ((junction.bridge order).source passage) ∧
      (junction.image passage).target =
        junction.labelOf ((junction.bridge order).target passage) := by
  cases passage with
  | before transition =>
      have isOther : transition ∈ junction.others1 order :=
        Folding.Graph.before_mem_bridge.mp member
      obtain ⟨source, target, notFinal, notFinalTarget⟩ := input.ends1 isOther
      exact ⟨⟨source, notFinal⟩, ⟨target, notFinalTarget⟩, rfl, rfl⟩
  | across =>
      obtain ⟨source1, _, _, target2⟩ := input.junction_registered
      obtain ⟨source, target⟩ := input.labelOf_across
      exact ⟨⟨source1, input.source_ne_target1⟩, ⟨target2, input.entry.2.symm⟩, source, target⟩
  | behind transition =>
      have isOther : transition ∈ junction.others2 order :=
        Folding.Graph.behind_mem_bridge.mp member
      obtain ⟨source, target, notEntry⟩ := input.ends2 isOther
      exact ⟨⟨source, notEntry⟩, ⟨target, apart.entry transition isOther⟩, rfl, rfl⟩

omit input in
theorem mem_expected_iff {transition : Transition} : transition ∈ junction.expected order ↔
    ∃ passage ∈ (junction.bridge order).edges, transition = junction.image passage := by
  constructor
  · intro member
    rcases List.mem_append.mp member with inFirst | inSecond
    · rcases List.mem_cons.mp inFirst with isMerged | isOther
      · exact ⟨.across, Folding.Graph.across_mem_bridge, isMerged⟩
      · obtain ⟨original, isOriginal, rfl⟩ := List.mem_map.mp isOther
        exact ⟨.before original, Folding.Graph.before_mem_bridge.mpr isOriginal, rfl⟩
    · obtain ⟨original, isOriginal, rfl⟩ := List.mem_map.mp inSecond
      exact ⟨.behind original, Folding.Graph.behind_mem_bridge.mpr isOriginal, rfl⟩
  · rintro ⟨passage, member, rfl⟩
    cases passage with
    | before original =>
        have isOther : original ∈ junction.others1 order :=
          Folding.Graph.before_mem_bridge.mp member
        exact List.mem_append_left _ (List.mem_cons_of_mem _ (List.mem_map_of_mem isOther))
    | across => exact List.mem_append_left _ List.mem_cons_self
    | behind original =>
        have isOther : original ∈ junction.others2 order :=
          Folding.Graph.behind_mem_bridge.mp member
        exact List.mem_append_right _ (List.mem_map_of_mem isOther)

theorem IsSequentialInput.mem_result_graph (apart : EndsApart order junction) {result : TIOSTS}
    (returned : sequentialComposition order model1 model2 = .ok result)
    {transition : Transition} : transition ∈ result.graph.edges ↔
      ∃ passage ∈ (junction.bridge order).edges, transition = junction.image passage := by
  have listed : transition ∈ result.graph.edges ↔ transition ∈ junction.expected order := by
    change transition ∈ result.outOf transition.source ↔ _
    rw [returned_outOf input.isJunction returned, apart.created_eq input, List.mem_filter]
    exact ⟨And.left, fun member => ⟨member, decide_eq_true rfl⟩⟩
  exact listed.trans mem_expected_iff

section Walks

variable (apart : EndsApart order junction) {result : TIOSTS}
  (returned : sequentialComposition order model1 model2 = .ok result)

include apart returned

/-- Walks through the result are images of chains over the bridge. -/
theorem IsSequentialInput.isChain_iff (avoid1 : model1.LabelsAvoid [','])
    (avoid2 : model2.LabelsAvoid [',']) {node : String ⊕ String}
    (stays : junction.Stays model1 model2 node) {walk : List Transition} :
    result.graph.IsChain (junction.labelOf node) walk ↔
      ∃ chain, (junction.bridge order).IsChain node chain ∧ walk = chain.map junction.image := by
  constructor
  · intro isWalk
    induction walk generalizing node with
    | nil => exact ⟨[], trivial, rfl⟩
    | cons transition walk induction =>
        obtain ⟨member, source, later⟩ := isWalk
        obtain ⟨passage, isPassage, rfl⟩ :=
          (input.mem_result_graph apart returned).mp member
        obtain ⟨sourceStays, targetStays, isSource, isTarget⟩ :=
          input.image_ends apart isPassage
        have target : result.graph.target (junction.image passage) =
            junction.labelOf ((junction.bridge order).target passage) := isTarget
        rw [target] at later
        obtain ⟨chain, isChain, rfl⟩ := induction targetStays later
        have same := input.labelOf_inj avoid1 avoid2 sourceStays stays
          (isSource.symm.trans source)
        exact ⟨passage :: chain, ⟨isPassage, same, isChain⟩, rfl⟩
  · rintro ⟨chain, isChain, rfl⟩
    induction chain generalizing node with
    | nil => trivial
    | cons passage chain induction =>
        obtain ⟨member, rfl, later⟩ := isChain
        obtain ⟨_, targetStays, isSource, isTarget⟩ := input.image_ends apart member
        refine ⟨(input.mem_result_graph apart returned).mpr ⟨passage, member, rfl⟩, isSource, ?_⟩
        have target : result.graph.target (junction.image passage) =
            junction.labelOf ((junction.bridge order).target passage) := isTarget
        rw [target]
        exact induction targetStays later

end Walks

/-- Behind the transition at the junction the first model has nothing left to do, so what
stands in front of it in a walk are other transitions. -/
theorem IsSequentialInput.others_before {label : String} {walk : List Transition}
    (isWalk : junction.tiosts1.graph.IsChain label (walk ++ [junction.tc1])) :
    ∀ transition ∈ walk, transition ∈ junction.others1 order := by
  induction walk generalizing label with
  | nil => exact fun transition impossible => absurd impossible List.not_mem_nil
  | cons first walk induction =>
      obtain ⟨member, _, later⟩ := isWalk
      have leaves : first ∈ junction.tiosts1.outOf first.source := member
      have different : first.equals junction.tc1 = false := by
        apply Bool.eq_false_iff.mpr
        intro same
        have target : first.target = junction.tc1.target :=
          eq_of_beq (Bool.and_eq_true_iff.mp same).2
        have noNext : ∀ next : Transition, next ∈ junction.tiosts1.graph.edges →
            next.source = first.target → False := by
          intro next inGraph source
          have nextLeaves : next ∈ junction.tiosts1.outOf next.source := inGraph
          rw [source, target, input.final.1] at nextLeaves
          cases nextLeaves
        cases walk with
        | nil => exact noNext junction.tc1 later.1 later.2.1
        | cons next walk => exact noNext next later.1 later.2.1
      intro transition listed
      rcases List.mem_cons.mp listed with rfl | inRest
      · refine List.mem_filter.mpr ⟨(mem_getTransitions_of_outOf input.copy1 leaves).1, ?_⟩
        rw [different]
        rfl
      · exact induction later transition inRest

theorem IsSequentialInput.isChain_graph1_iff {label : String} {walk : List Transition} :
    (junction.graph1 order).IsChain label walk ↔
      junction.tiosts1.graph.IsChain label walk ∧
        ∀ transition ∈ walk, transition ∈ junction.others1 order := by
  apply Folding.Graph.IsChain.keep_iff
  intro transition member
  exact (copy_transition input.copy1 (List.mem_filter.mp member).1).1

theorem IsSequentialInput.isChain_graph2_iff {label : String} {walk : List Transition} :
    (junction.graph2 order).IsChain label walk ↔
      junction.tiosts2.graph.IsChain label walk ∧
        ∀ transition ∈ walk, transition ∈ junction.others2 order := by
  apply Folding.Graph.IsChain.keep_iff
  intro transition member
  exact (copy_transition input.copy2 (List.mem_filter.mp member).1).1

theorem IsSequentialInput.isChain_tc1_iff {label : String} {walk : List Transition} :
    junction.tiosts1.graph.IsChain label (walk ++ [junction.tc1]) ↔
      (junction.graph1 order).IsChain label walk ∧
        (junction.graph1 order).endOf label walk = junction.tc1.source := by
  have sameEnd : (junction.graph1 order).endOf label walk =
      junction.tiosts1.graph.endOf label walk := by
    induction walk generalizing label with
    | nil => rfl
    | cons first walk induction => exact induction
  rw [sameEnd, input.isChain_graph1_iff]
  constructor
  · intro isWalk
    obtain ⟨isChain, _, source⟩ := junction.tiosts1.graph.isChain_concat.mp isWalk
    exact ⟨⟨isChain, input.others_before isWalk⟩, source.symm⟩
  · rintro ⟨⟨isChain, _⟩, ends⟩
    apply junction.tiosts1.graph.isChain_concat.mpr
    exact ⟨isChain, (copy_transition input.copy1 input.tc1_mem).1, ends.symm⟩

theorem IsSequentialInput.isChain_entry_iff {walk : List Transition} :
    junction.tiosts2.graph.IsChain junction.init2.source
        (junction.init2 :: junction.t02 :: walk) ↔
      junction.tiosts2.graph.IsChain junction.t02.target walk := by
  constructor
  · exact fun isWalk => isWalk.2.2.2.2
  · intro isWalk
    obtain ⟨inGraph, source⟩ := input.t02_mem
    exact ⟨(copy_transition input.copy2 input.init2_mem).1, rfl,
      (copy_transition input.copy2 inGraph).1, source, isWalk⟩

end Input

/-- Where a sequential composition is exact, its walks from a location of the first model are
the renamed walks of that model which do not come to the junction's transition, and those that
do, continued across the composed transition by walks of the second model behind its initial
and its entry transition. -/
theorem sequentialComposition_walks {order : IterationOrder} {model1 model2 result : TIOSTS}
    {junction : Junction} (input : IsSequentialInput order model1 model2 junction)
    (apart : EndsApart order junction) (avoid1 : model1.LabelsAvoid [','])
    (avoid2 : model2.LabelsAvoid [','])
    (returned : sequentialComposition order model1 model2 = .ok result) {label : String}
    (registered : model1.IsRegistered label) (notFinal : label ≠ junction.tc1.target)
    (walk : List Transition) :
    walk ∈ result.graph.chains (junction.relabel label) ↔
      (∃ walk1 ∈ junction.tiosts1.graph.chains label,
        (∀ transition ∈ walk1, transition ∈ junction.others1 order) ∧
          walk = walk1.map junction.renamed) ∨
      ∃ walk1 walk2, walk1 ++ [junction.tc1] ∈ junction.tiosts1.graph.chains label ∧
        junction.init2 :: junction.t02 :: walk2 ∈
          junction.tiosts2.graph.chains junction.init2.source ∧
        (∀ transition ∈ walk2, transition ∈ junction.others2 order) ∧
        walk = walk1.map junction.renamed ++ junction.merged :: walk2.map junction.renamed := by
  have stays : junction.Stays model1 model2 (.inl label) := ⟨registered, notFinal⟩
  have images : walk ∈ result.graph.chains (junction.relabel label) ↔ _ :=
    input.isChain_iff apart returned avoid1 avoid2 stays
  rw [images]
  constructor
  · rintro ⟨chain, isChain, rfl⟩
    rcases Folding.Graph.isChain_before_iff.mp isChain with ⟨walk1, isWalk1, rfl⟩ |
      ⟨walk1, walk2, isWalk1, ends, isWalk2, rfl⟩
    · obtain ⟨inModel, others⟩ := input.isChain_graph1_iff.mp isWalk1
      refine Or.inl ⟨walk1, inModel, others, ?_⟩
      rw [List.map_map]
      rfl
    · obtain ⟨inModel, others⟩ := input.isChain_graph2_iff.mp isWalk2
      refine Or.inr ⟨walk1, walk2, input.isChain_tc1_iff.mpr ⟨isWalk1, ends⟩,
        input.isChain_entry_iff.mpr inModel, others, ?_⟩
      rw [List.map_append, List.map_cons, List.map_map, List.map_map]
      rfl
  · rintro (⟨walk1, isWalk1, others, rfl⟩ | ⟨walk1, walk2, isWalk1, isWalk2, others, rfl⟩)
    · refine ⟨walk1.map .before, ?_, ?_⟩
      · exact Folding.Graph.isChain_before_iff.mpr
          (Or.inl ⟨walk1, input.isChain_graph1_iff.mpr ⟨isWalk1, others⟩, rfl⟩)
      · rw [List.map_map]
        rfl
    · obtain ⟨isChain1, ends⟩ := input.isChain_tc1_iff.mp isWalk1
      have isChain2 := input.isChain_graph2_iff.mpr
        ⟨input.isChain_entry_iff.mp isWalk2, others⟩
      refine ⟨walk1.map .before ++ .across :: walk2.map .behind, ?_, ?_⟩
      · exact Folding.Graph.isChain_before_iff.mpr
          (Or.inr ⟨walk1, walk2, isChain1, ends, isChain2, rfl⟩)
      · rw [List.map_append, List.map_cons, List.map_map, List.map_map]
        rfl

open JunctionInstance in
/-- After a round trip from the junction the first model hands over to the second. -/
theorem sequentialComposition_walks_roundTrip : ∃ (junction : Junction) (result : TIOSTS),
    sequentialComposition order (model1 roundTrip) model2 = .ok result ∧
      ∀ walk, walk ∈ result.graph.chains (junction.relabel "s") ↔
        (∃ walk1 ∈ junction.tiosts1.graph.chains "s",
          (∀ transition ∈ walk1, transition ∈ junction.others1 order) ∧
            walk = walk1.map junction.renamed) ∨
        ∃ walk1 walk2, walk1 ++ [junction.tc1] ∈ junction.tiosts1.graph.chains "s" ∧
          junction.init2 :: junction.t02 :: walk2 ∈
            junction.tiosts2.graph.chains junction.init2.source ∧
          (∀ transition ∈ walk2, transition ∈ junction.others2 order) ∧
          walk = walk1.map junction.renamed ++
            junction.merged :: walk2.map junction.renamed := by
  have ran : (findJunction order (model1 roundTrip) model2).toOption.map (fun junction =>
      decide ((Checks junction ∧ EndsApart order junction) ∧ junction.tc1.target = "b")) =
        some true := by decide
  obtain ⟨junction, found, checked⟩ := found_of_run ran
  obtain ⟨⟨holds, apart⟩, final⟩ := of_decide_eq_true checked
  have wellFormed : (model1 roundTrip).WellFormed := wellFormed1 roundTrip (by decide)
  have input := isSequentialInput wellFormed found holds
  obtain ⟨result, returned, _⟩ := apart.isExact input
  have blank1 : (TIOSTS.declare "M" [⟨"i", .internal, []⟩, poll, ⟨"ok", .output, ["p"]⟩] []
      [⟨"p", .integer⟩] []).IsBlank := TIOSTS.declare_isBlank _ _ _ _ _
  have avoid1 : (model1 roundTrip).LabelsAvoid [','] :=
    TIOSTS.assemble_labelsAvoid blank1 (by decide)
  have avoid2 : model2.LabelsAvoid [','] :=
    TIOSTS.assemble_labelsAvoid (TIOSTS.declare_isBlank _ _ _ _ _) (by decide)
  have registered : (model1 roundTrip).IsRegistered "s" := by
    rw [model1, TIOSTS.assemble_isRegistered blank1]
    decide
  have notFinal : "s" ≠ junction.tc1.target := by
    rw [final]
    decide
  exact ⟨junction, result, returned, sequentialComposition_walks input apart avoid1 avoid2
    returned registered notFinal⟩

end SequentialComposition

end Symbolrt
