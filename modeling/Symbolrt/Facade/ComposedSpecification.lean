import Symbolrt.Compositions.ParallelWalks
import Symbolrt.Facade.TestCaseRefinement

/-!
# Tests generated from a composed specification

A parallel composition is a specification like any other.  A walk through a test case that
is generated from it is a walk through the composition, so it tests an interleaving of both
components.
-/

namespace Symbolrt

open Folding SymbolicExecution

namespace ParallelComposition

section Labels

variable {order : IterationOrder} {model1 model2 : TIOSTS} {parts : Parts}
  (input : IsParallelInput order model1 model2 parts) {excluded : List Char}

include input

theorem IsParallelInput.pairLabel_avoids (avoid1 : model1.LabelsAvoid excluded)
    (avoid2 : model2.LabelsAvoid excluded) (noComma : ',' ∉ excluded) {pair : String × String}
    (inside : parts.Inside pair) : ∀ c ∈ excluded, c ∉ (pairLabel pair).toList := by
  have registered1 := (input.exactCopy1.isRegistered pair.1).mp inside.1
  have registered2 := (input.exactCopy2.isRegistered pair.2).mp inside.2
  intro c isExcluded member
  rw [pairLabel, composedLabel_toList] at member
  rcases List.mem_append.mp member with inFirst | later
  · exact avoid1 pair.1 registered1 c isExcluded inFirst
  · rcases List.mem_cons.mp later with rfl | inSecond
    · exact noComma isExcluded
    · exact avoid2 pair.2 registered2 c isExcluded inSecond

theorem IsParallelInput.result_labelsAvoid (avoid1 : model1.LabelsAvoid excluded)
    (avoid2 : model2.LabelsAvoid excluded) (noComma : ',' ∉ excluded) {depth : Nat}
    {visited after : List String} {result : TIOSTS}
    (returned : (parallelComposition order depth model1 model2).outcome visited =
      (.ok result, after)) : result.LabelsAvoid excluded := by
  obtain ⟨followed, follows, _, isFollowed⟩ := input.returned_followed returned
  have avoids : ∀ pair, parts.Inside pair → ∀ c ∈ excluded, c ∉ (pairLabel pair).toList :=
    fun pair inside => input.pairLabel_avoids avoid1 avoid2 noComma inside
  have source : parts.initial.source = pairLabel parts.start := rfl
  have target : parts.initial.target = pairLabel parts.root := rfl
  intro label registered
  rcases (follows.isRegistered label).mp registered with atBase | ⟨move, member, ends⟩
  · rw [parts.base_isRegistered, source, target] at atBase
    rcases atBase with rfl | rfl
    · exact avoids parts.start input.start_inside
    · exact avoids parts.root input.root_inside
  · obtain ⟨reaches, atSource⟩ := isFollowed move member
    obtain ⟨_, legal, _⟩ := input.mem_moves.mp atSource
    have inside := input.reached_inside (input.legallyReaches reaches)
    rcases ends with rfl | rfl
    · exact avoids move.source inside
    · exact avoids move.target (input.target_inside inside legal)

end Labels

end ParallelComposition

open ParallelComposition

/-- Every walk through a test case that is generated from a parallel composition mirrors a
walk through the composition, whose moves project to copies of walks through both models. -/
theorem SYMBOLRT.generateTestCases_interleaves {order compositionOrder : IterationOrder}
    {tools : SymbolicTools} {model1 model2 result tp : TIOSTS} {parts : Parts}
    (input : IsParallelInput compositionOrder model1 model2 parts)
    (plain1 : model1.LabelsAvoid [',', '_']) (plain2 : model2.LabelsAvoid ['_'])
    (tpWellFormed : tp.WellFormed) {depth generationDepth rounds : Nat}
    {visited after : List String}
    (returned : (parallelComposition compositionOrder depth model1 model2).outcome visited =
      (.ok result, after)) {testCases : List TIOSTS}
    (generated : generateTestCases tools order generationDepth rounds result tp =
      .ok testCases) :
    ∀ testCase ∈ testCases, ∃ start, testCase.initialLocation = some start ∧
      ∀ walk ∈ testCase.graph.chains start, ∃ composedWalk joints,
        List.Forall₂ (Mirrors result) walk composedWalk ∧
        parts.Interleaves model1 model2 joints ∧
        IsWalkOf parts model1 model2 result joints composedWalk ∧
        (∃ walk1 ∈ model1.graph.chains parts.start.1,
          joints.filterMap Joint.edge1 = walk1.map model1.copied) ∧
        (∃ walk2 ∈ model2.graph.chains parts.start.2,
          joints.filterMap Joint.edge2 = walk2.map model2.copied) ∧
        specPart (testCase.graph.endOf start walk) =
          pairLabel (parts.tiosts1.graph.endOf parts.start.1 (joints.filterMap Joint.edge1),
            parts.tiosts2.graph.endOf parts.start.2 (joints.filterMap Joint.edge2)) := by
  have startsAt := input.startsAt returned
  have noComma : model1.LabelsAvoid [','] := by
    intro label registered c isComma
    rw [List.mem_singleton.mp isComma]
    exact plain1 label registered ',' List.mem_cons_self
  have noSeparator : model1.LabelsAvoid ['_'] := by
    intro label registered c isSeparator
    exact plain1 label registered c (List.mem_cons_of_mem _ isSeparator)
  have specLabels := input.result_labelsAvoid noSeparator plain2 (by decide) returned
  intro testCase member
  obtain ⟨start, initial, specInitial, simulation⟩ := simulates_of_generated
    startsAt.wellFormed tpWellFormed specLabels generated testCase member
  have isStart : specPart start = pairLabel parts.start :=
    Option.some.inj (specInitial.symm.trans startsAt.initialLocation)
  refine ⟨start, initial, ?_⟩
  intro walk isWalk
  obtain ⟨composedWalk, isChain, mirrored, ended⟩ := simulation.chain isStart isWalk
  obtain ⟨joints, interleaves, isWalkOf⟩ := input.exists_interleaving noComma returned isChain
  exact ⟨composedWalk, joints, mirrored, interleaves, isWalkOf,
    input.exactCopy1.exists_walk input.wellFormed1 interleaves.walk1,
    input.exactCopy2.exists_walk input.wellFormed2 interleaves.walk2,
    ended.trans isWalkOf.endOf⟩

namespace ComposedInstance

open AcceptInstance (pay tp)
open InterleavingInstance (model2)

def order : IterationOrder := GenerationInstance.order

/-- The first component pays while the second goes round in its loop. -/
def payer : TIOSTS :=
  .assemble (.declare "M" [⟨"i", .internal, []⟩, pay] [] [] []) ["s", "a", "b"] "s"
    [.bare "s" ⟨"i", .internal, []⟩ "a", .bare "a" pay "b"]

def composed : Except Failure TIOSTS :=
  ((parallelComposition order 4 payer model2).outcome []).1

def generated : Except Failure (List TIOSTS) := do
  let result ← composed
  SYMBOLRT.generateTestCases LoopInstance.tools order 5 12 result tp

theorem exists_testCases : ∃ testCases, generated = .ok testCases ∧ testCases.length = 2 := by
  have ran : generated.toOption.map (fun testCases => decide (testCases.length = 2)) =
    some true := by decide +kernel
  obtain ⟨testCases, returned, length⟩ := exists_checked ran
  exact ⟨testCases, returned, of_decide_eq_true length⟩

end ComposedInstance

open ComposedInstance in
/-- The payment is tested before and after a round of the other component. -/
theorem SYMBOLRT.generateTestCases_interleaves_payer :
    ∃ (parts : Parts) (result : TIOSTS) (testCases : List TIOSTS),
      composed = .ok result ∧ generated = .ok testCases ∧ testCases.length = 2 ∧
      ∀ testCase ∈ testCases, ∃ start, testCase.initialLocation = some start ∧
        ∀ walk ∈ testCase.graph.chains start, ∃ composedWalk joints,
          List.Forall₂ (Mirrors result) walk composedWalk ∧
          parts.Interleaves payer InterleavingInstance.model2 joints ∧
          IsWalkOf parts payer InterleavingInstance.model2 result joints composedWalk := by
  have ran : (findParts order payer InterleavingInstance.model2).toOption.map
    (fun _ => true) = some true := by decide
  have wellFormed1 : payer.WellFormed :=
    TIOSTS.assemble_wellFormed (TIOSTS.declare_isBlank _ _ _ _ _) (by decide)
  obtain ⟨parts, input, _⟩ := InterleavingInstance.found_of_run wellFormed1
    InterleavingInstance.model2_wellFormed ran
  have plain1 : payer.LabelsAvoid [',', '_'] :=
    TIOSTS.assemble_labelsAvoid (TIOSTS.declare_isBlank _ _ _ _ _) (by decide)
  have plain2 : InterleavingInstance.model2.LabelsAvoid ['_'] :=
    TIOSTS.assemble_labelsAvoid (TIOSTS.declare_isBlank _ _ _ _ _) (by decide)
  obtain ⟨testCases, returned, length⟩ := exists_testCases
  obtain ⟨result, isComposed, isGenerated⟩ := bind_eq_ok.mp returned
  obtain ⟨after, outcome⟩ := Visits.exists_returned _ _ isComposed
  refine ⟨parts, result, testCases, isComposed, returned, length, ?_⟩
  intro testCase member
  obtain ⟨start, initial, walks⟩ := SYMBOLRT.generateTestCases_interleaves input plain1 plain2
    AcceptInstance.tp_wellFormed outcome isGenerated testCase member
  refine ⟨start, initial, ?_⟩
  intro walk isWalk
  obtain ⟨composedWalk, joints, mirrored, interleaves, isWalkOf, _⟩ := walks walk isWalk
  exact ⟨composedWalk, joints, mirrored, interleaves, isWalkOf⟩

end Symbolrt
