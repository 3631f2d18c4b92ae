import Symbolrt.Algorithms.ProductCorrectness
import Symbolrt.Algorithms.CompletionCoverage

/-!
# The product with a completed test purpose

A completed test purpose never blocks the specification.  At a pair whose second
location is complete, an enabled transition of the specification gives an enabled
move, and the product has a transition with the guards of every move of every
reachable pair.
-/

namespace Symbolrt

open SynchronousProduct Completion

section Guards

variable {atoms : List String → Prop} {clocks : String → ℝ}

theorem createDataGuard_holds {specGuard tpGuard : DataGuard}
    (balanced : Formula.BalancedText specGuard.text)
    (specHolds : Formula.holds atoms specGuard.text)
    (tpHolds : Formula.holds atoms tpGuard.text) :
    Formula.holds atoms (createDataGuard specGuard tpGuard).text := by
  unfold createDataGuard
  split
  · exact specHolds
  · split
    · exact tpHolds
    · exact Formula.holds_conjunction balanced specHolds tpHolds

theorem createClockGuard_holds {specGuard tpGuard : ClockGuard}
    (specHolds : specGuard.holds clocks) (tpHolds : tpGuard.holds clocks) :
    (createClockGuard specGuard tpGuard).holds clocks := by
  intro simple member
  rcases List.mem_append.mp member with inSpec | inTp
  · exact specHolds simple inSpec
  · exact tpHolds simple inTp

/-- The guards a move is searched with hold. -/
def ProductMove.Enabled (atoms : List String → Prop) (clocks : String → ℝ)
    (move : ProductMove) : Prop :=
  Formula.holds atoms move.dataGuard.text ∧ move.clockGuard.holds clocks

theorem createdClockGuard_holds (allClocks : List String) (move : ProductMove) :
    (move.createdClockGuard allClocks).holds clocks ↔ move.clockGuard.holds clocks := by
  cases together : move.tpTransition with
  | none =>
      simp only [ProductMove.createdClockGuard, ProductMove.clockGuard, together]
      exact ClockGuard.holds_renumber _ _ _
  | some tpTransition =>
      simp only [ProductMove.createdClockGuard, ProductMove.clockGuard, together]

theorem enabled_transition_iff (initial : TIOSTS) (move : ProductMove) :
    (move.transition initial).mirror.Enabled atoms clocks ↔ move.Enabled atoms clocks :=
  and_congr_right fun _ => createdClockGuard_holds initial.clocks move

end Guards

section Moves

variable {spec tp : TIOSTS} {pair : LocationPair} {specTransition : Transition}

theorem mem_movesAt_of_alone (ordinary : isSpecialLabel pair.tpLabel = false)
    (registered : tp.IsRegistered pair.tpLabel)
    (inSpec : specTransition ∈ spec.outOf pair.specLabel)
    (absent : ∀ tpTransition ∈ tp.outOf pair.tpLabel,
      tpTransition.action.name ≠ specTransition.action.name) :
    (⟨specTransition, pair.tpLabel, none⟩ : ProductMove) ∈ movesAt spec tp pair := by
  have inTp : pair.tpLabel ∈ tp.locations := registered
  have none' : (tp.outOf pair.tpLabel).filter
      (fun tpTransition => tpTransition.action.equals specTransition.action) = [] := by
    apply List.filter_eq_nil_iff.mpr
    intro tpTransition member same
    exact absent tpTransition member (by simpa [Action.equals] using same)
  unfold movesAt
  rw [if_neg (by simp [ordinary, inTp])]
  apply List.mem_flatMap.mpr
  refine ⟨specTransition, inSpec, ?_⟩
  rw [movesOf, none']
  exact List.mem_singleton.mpr rfl

theorem mem_movesAt_of_together (ordinary : isSpecialLabel pair.tpLabel = false)
    (registered : tp.IsRegistered pair.tpLabel)
    (inSpec : specTransition ∈ spec.outOf pair.specLabel) {tpTransition : Transition}
    (inTpOut : tpTransition ∈ tp.outOf pair.tpLabel)
    (same : tpTransition.action.name = specTransition.action.name) :
    (⟨specTransition, pair.tpLabel, some tpTransition⟩ : ProductMove) ∈
      movesAt spec tp pair := by
  have inTp : pair.tpLabel ∈ tp.locations := registered
  have kept : tpTransition ∈ (tp.outOf pair.tpLabel).filter
      (fun tpTransition => tpTransition.action.equals specTransition.action) := by
    apply List.mem_filter.mpr
    exact ⟨inTpOut, by simp [Action.equals, same]⟩
  unfold movesAt
  rw [if_neg (by simp [ordinary, inTp])]
  apply List.mem_flatMap.mpr
  refine ⟨specTransition, inSpec, ?_⟩
  unfold movesOf
  split
  · rename_i none'
    rw [none'] at kept
    cases kept
  · rename_i first rest some'
    rw [some'] at kept
    exact List.mem_map.mpr ⟨tpTransition, kept, rfl⟩

variable {atoms : List String → Prop} {clocks : String → ℝ}

/-- At a complete location of the test purpose an enabled transition of the
specification gives an enabled move. -/
theorem exists_enabled_move {actions : List Action}
    (ordinary : isSpecialLabel pair.tpLabel = false)
    (registered : tp.IsRegistered pair.tpLabel)
    (isComplete : IsComplete actions (tp.outOf pair.tpLabel))
    (inSpec : specTransition ∈ spec.outOf pair.specLabel)
    (balanced : Formula.BalancedText specTransition.dataGuard.text)
    (enabled : specTransition.Enabled atoms clocks) :
    ∃ move ∈ movesAt spec tp pair, move.specTransition = specTransition ∧
      move.Enabled atoms clocks := by
  by_cases known : ∃ tpTransition ∈ tp.outOf pair.tpLabel,
      tpTransition.action.name = specTransition.action.name
  · obtain ⟨witness, inWitness, witnessName⟩ := known
    obtain ⟨tpTransition, inTpOut, name, tpEnabled⟩ :=
      isComplete.covers witness inWitness atoms clocks
    have member := mem_movesAt_of_together ordinary registered inSpec inTpOut
      (name.trans witnessName)
    refine ⟨_, member, rfl, ?_⟩
    constructor
    · exact createDataGuard_holds balanced enabled.1 tpEnabled.1
    · exact createClockGuard_holds enabled.2 tpEnabled.2
  · have absent : ∀ tpTransition ∈ tp.outOf pair.tpLabel,
        tpTransition.action.name ≠ specTransition.action.name := fun tpTransition inTpOut name =>
      known ⟨tpTransition, inTpOut, name⟩
    exact ⟨_, mem_movesAt_of_alone ordinary registered inSpec absent, rfl, enabled⟩

/-- A returned product has, for every move of a location pair it registers, a transition
with the action, the guards and the target of the move. -/
theorem IsProductRun.exists_transition {initial result : TIOSTS} {root : LocationPair}
    {final : List ProductMove} (run : IsProductRun spec tp initial root final result)
    (specLabels : spec.LabelsAvoid ['_']) (isRegistered : pair.IsRegistered spec tp)
    (inProduct : result.IsRegistered pair.label) {move : ProductMove}
    (atPair : move ∈ movesAt spec tp pair) (enabled : move.Enabled atoms clocks) :
    ∃ out ∈ result.outOf pair.label, out.action.name = move.specTransition.action.name ∧
      out.target = move.target.label ∧ out.Enabled atoms clocks := by
  have rootRegistered : root.IsRegistered spec tp := by
    obtain ⟨specLoc, specFound, _⟩ := run.specWellFormed.initial_registered run.specInitial
    obtain ⟨tpLoc, tpFound, _⟩ := run.tpWellFormed.initial_registered run.tpInitial
    exact ⟨(spec.isRegistered_iff _).mpr ⟨specLoc, specFound⟩,
      (tp.isRegistered_iff _).mpr ⟨tpLoc, tpFound⟩⟩
  obtain ⟨other, reaches, sameLabel⟩ := run.reaches_of_registered inProduct
  have otherRegistered := reaches_isRegistered run.specWellFormed run.tpWellFormed
    rootRegistered reaches
  obtain rfl := LocationPair.label_inj specLabels otherRegistered isRegistered sameLabel
  have locates := stampsLocate run.specWellFormed run.tpWellFormed specLabels initial.clocks
  have source := source_of_mem_movesAt run.specWellFormed atPair
  have listed : ∀ taken ∈ final, taken.source.label = other.label →
      (taken.transition initial).mirror ∈ result.outOf other.label := by
    intro taken inFinal sameSource
    rw [run.outOf]
    apply List.mem_map_of_mem
    apply List.mem_filter.mpr
    exact ⟨List.mem_reverse.mpr inFinal, by simp [sameSource]⟩
  have name : ∀ taken : ProductMove, (taken.transition initial).mirror.action.name =
      taken.specTransition.action.name := by
    intro taken
    exact (Action.mirror_name _).trans (taken.transition_action_name initial)
  rcases run.expands.covers_reachable locates reaches move atPair with
    inFinal | ⟨taken, inFinal, _, stamped⟩
  · refine ⟨_, listed move inFinal (by rw [source]), name move, rfl, ?_⟩
    exact (enabled_transition_iff initial move).mpr enabled
  · -- a move with the same source, guards, action and target was taken instead
    have sameSource : taken.source.label = move.source.label :=
      congrArg ProductMark.source stamped
    have sameData : taken.dataGuard.text = move.dataGuard.text :=
      congrArg ProductMark.dataGuard stamped
    have sameClock : taken.createdClockGuard initial.clocks = move.clockGuard :=
      congrArg ProductMark.clockGuard stamped
    have sameAction : taken.specTransition.action.name = move.specTransition.action.name :=
      congrArg ProductMark.action stamped
    refine ⟨_, listed taken inFinal (by rw [sameSource, source]),
      (name taken).trans sameAction, congrArg ProductMark.target stamped, ?_⟩
    constructor
    · have dataHolds := enabled.1
      rw [← sameData] at dataHolds
      exact dataHolds
    · have clockHolds := enabled.2
      rw [← sameClock] at clockHolds
      exact clockHolds

end Moves

/-- At every location of the product with a completed test purpose, unless the location
of the test purpose is initial or special, every enabled transition of the specification
has an enabled counterpart. -/
theorem completed_never_blocks (order : IterationOrder) {spec tp : TIOSTS}
    (specWellFormed : spec.WellFormed) (tpWellFormed : tp.WellFormed)
    (completable : tp.IsCompletable) (specLabels : spec.LabelsAvoid ['_'])
    (balanced : ∀ label, ∀ transition ∈ spec.outOf label,
      Formula.BalancedText transition.dataGuard.text) :
    ∃ completed, complete order tp = .ok completed ∧
      ∀ depth result, synchronousProduct depth spec completed = .ok result →
      ∀ specLabel tpLabel tpLoc, spec.IsRegistered specLabel →
        completed.getLocation tpLabel = some tpLoc →
        tpLoc.isSpecialLocation = false → tpLoc.isInitialLocation = false →
        result.IsRegistered (pairLabel specLabel tpLabel) →
      ∀ specTransition ∈ spec.outOf specLabel, ∀ atoms clocks,
        specTransition.Enabled atoms clocks →
        ∃ out ∈ result.outOf (pairLabel specLabel tpLabel),
          out.action.name = specTransition.action.name ∧
          (∃ nextTp, completed.IsRegistered nextTp ∧
            out.target = pairLabel specTransition.target nextTp) ∧
          out.Enabled atoms clocks := by
  obtain ⟨completed, returned, isCompletion⟩ :=
    exists_complete order tpWellFormed completable
  refine ⟨completed, returned, ?_⟩
  intro depth result product specLabel tpLabel tpLoc specRegistered tpFound notSpecial
    notInitial inProduct specTransition inSpec atoms clocks enabled
  obtain ⟨initial, root, final, _, run⟩ :=
    isProductRun_of_ok specWellFormed isCompletion.wellFormed product
  have tpRegistered : completed.IsRegistered tpLabel :=
    (completed.isRegistered_iff tpLabel).mpr ⟨tpLoc, tpFound⟩
  have ordinary : isSpecialLabel tpLabel = false := by
    rw [isSpecialLocation_eq (isCompletion.wellFormed.label_eq tpFound)] at notSpecial
    exact notSpecial
  let pair : LocationPair := ⟨specLabel, tpLabel⟩
  have pairRegistered : pair.IsRegistered spec completed := ⟨specRegistered, tpRegistered⟩
  have labelRegistered : result.IsRegistered pair.label := inProduct
  have isComplete : IsComplete tp.getInputOutputActions (completed.outOf pair.tpLabel) :=
    isCompletion.isComplete tpFound notSpecial notInitial
  have leaves : specTransition ∈ spec.outOf pair.specLabel := inSpec
  obtain ⟨move, atPair, rfl, moveEnabled⟩ := exists_enabled_move ordinary tpRegistered
    isComplete leaves (balanced specLabel specTransition inSpec) enabled
  obtain ⟨out, inOut, name, target, outEnabled⟩ := run.exists_transition specLabels
    pairRegistered labelRegistered atPair moveEnabled
  refine ⟨out, inOut, name, ?_, outEnabled⟩
  refine ⟨move.target.tpLabel, ?_, ?_⟩
  · exact (target_isRegistered specWellFormed isCompletion.wellFormed atPair).2
  · rw [target, LocationPair.label, ProductMove.target]
    cases move.tpTransition <;> rfl

namespace CompletedInstance

open Completion.GuardedInstance

def order : IterationOrder := ⟨id, IterationOrder.id_perm⟩

def specList : List Transition :=
  [.bare "r" enter "n", .bare "n" enter "n",
    { Transition.bare "n" act "n" with dataGuard := .written "m > 1 OR m < 0" }]

def specDeclared : TIOSTS := .declare "S" [enter, act] [⟨"m", .integer⟩] [] []

def spec : TIOSTS := .assemble specDeclared ["r", "n"] "r" specList

/-- The test purpose completed, and its product with the specification. -/
def run : Except Failure (TIOSTS × TIOSTS) := do
  let completed ← complete order tp
  let result ← synchronousProduct 6 spec completed
  return (completed, result)

end CompletedInstance

open CompletedInstance Completion.GuardedInstance in
/-- At `n_v` the action `a` is enabled whenever it is enabled at `n`. -/
theorem completed_never_blocks_guarded :
    ∃ completed result, complete order tp = .ok completed ∧
      synchronousProduct 6 spec completed = .ok result ∧
      ∀ specTransition ∈ spec.outOf "n", ∀ atoms clocks,
        specTransition.Enabled atoms clocks →
        ∃ out ∈ result.outOf "n_v", out.action.name = specTransition.action.name ∧
          out.Enabled atoms clocks := by
  have blank : specDeclared.IsBlank := TIOSTS.declare_isBlank _ _ _ _ _
  have uses : specDeclared.Uses ["r", "n"] "r" specList := by decide
  have plain : ∀ transition ∈ specList,
      Formula.BalancedText transition.dataGuard.text := by decide
  obtain ⟨completed, returned, blocks⟩ := completed_never_blocks order
    (TIOSTS.assemble_wellFormed blank uses) tp_wellFormed tp_isCompletable
    (TIOSTS.assemble_labelsAvoid blank (by decide)) (by
      intro label transition member
      rw [TIOSTS.assemble_outOf blank uses] at member
      exact plain transition (List.mem_filter.mp member).1)
  have ran : run.toOption.map (fun models =>
      (decide ("n_v" ∈ models.2.locations),
        (models.1.getLocation "v").map (fun location =>
          (location.isSpecialLocation, location.isInitialLocation)))) =
      some (true, some (false, false)) := by decide
  obtain ⟨⟨same, result⟩, bothReturned, facts⟩ := Option.map_eq_some_iff.mp ran
  have runs : run = .ok (same, result) := by
    cases outcome : run with
    | error failure =>
        rw [outcome] at bothReturned
        cases bothReturned
    | ok models =>
        rw [outcome] at bothReturned
        rw [Option.some.inj bothReturned]
  unfold run at runs
  rw [returned, ok_bind] at runs
  obtain ⟨product, productReturned, pairEq⟩ := bind_eq_ok.mp runs
  cases pairEq
  obtain ⟨inProduct, flags⟩ := Prod.mk.inj facts
  obtain ⟨tpLoc, tpFound, tpFlags⟩ := Option.map_eq_some_iff.mp flags
  obtain ⟨notSpecial, notInitial⟩ := Prod.mk.inj tpFlags
  have registered : "n_v" ∈ result.locations := of_decide_eq_true inProduct
  refine ⟨completed, result, returned, productReturned, ?_⟩
  intro specTransition inSpec atoms clocks enabled
  obtain ⟨out, inOut, name, _, outEnabled⟩ := blocks 6 result productReturned "n" "v" tpLoc
    ((TIOSTS.assemble_isRegistered blank "n").mpr (by simp)) tpFound notSpecial notInitial
    registered specTransition inSpec atoms clocks enabled
  exact ⟨out, inOut, name, outEnabled⟩

end Symbolrt
