import Symbolrt.Algorithms.ProductCorrectness

/-!
# Clock numbers in a product

A clock guard carries the number of its clock in the list it was read against.
The product appends the clocks of the test purpose to those of the specification.
Guards taken over alone are read again; guards of two synchronised transitions
are copied with the numbers they had.
-/

namespace Symbolrt

open SynchronousProduct

/-- The simple guards of a clock guard carry the numbers of a clock list. -/
def ClockGuard.NumberedBy (allClocks : List String) (guard : ClockGuard) : Prop :=
  ∀ simple ∈ guard.clockGuard, simple.clockId = clockIdIn allClocks simple.clock

/-- The clock guards were read against the clock list of the model and name only
the given clocks. -/
structure TIOSTS.ReadsClocks (model : TIOSTS) (known : List String) : Prop where
  numbered : ∀ label, ∀ transition ∈ model.outOf label,
    transition.clockGuard.NumberedBy model.clocks
  named : ∀ label, ∀ transition ∈ model.outOf label,
    ∀ simple ∈ transition.clockGuard.clockGuard, simple.clock ∈ known

/-- Every simple clock guard carries the number of its clock, counted from one. -/
def TIOSTS.ClockIdsMatch (model : TIOSTS) : Prop :=
  ∀ label, ∀ transition ∈ model.outOf label,
    ∀ simple ∈ transition.clockGuard.clockGuard,
      simple.clockId = model.getClockId simple.clock ∧ 1 ≤ simple.clockId

/-- Where two transitions are synchronised, the specification guards its own
clocks, and the test purpose guards none or the specification has none. -/
def SynchronisedClocksAgree (spec tp : TIOSTS) (root : LocationPair) : Prop :=
  ∀ pair, (productSearch spec tp (spec.clocks ++ tp.clocks)).Reaches root pair →
    ∀ move ∈ movesAt spec tp pair, ∀ tpTransition, move.tpTransition = some tpTransition →
      (∀ simple ∈ move.specTransition.clockGuard.clockGuard, simple.clock ∈ spec.clocks) ∧
        (tpTransition.clockGuard.clockGuard = [] ∨ spec.clocks = [])

theorem one_le_clockIdIn {allClocks : List String} {clock : String} :
    1 ≤ clockIdIn allClocks clock ↔ clock ∈ allClocks := by
  unfold clockIdIn
  by_cases member : clock ∈ allClocks <;> simp [member]

theorem clockIdIn_append_right {allClocks added : List String} {clock : String}
    (absent : clock ∉ allClocks) (member : clock ∈ added) :
    clockIdIn (allClocks ++ added) clock = allClocks.length + clockIdIn added clock := by
  simp [clockIdIn, absent, member, List.idxOf_append_of_notMem]
  omega

section Ids

variable {spec tp : TIOSTS} (disjoint : ∀ clock ∈ tp.clocks, clock ∉ spec.clocks)

/-- A number taken over from the specification is right for its own clocks only. -/
theorem specId_iff {simple : SimpleClockGuard}
    (numbered : simple.clockId = clockIdIn spec.clocks simple.clock)
    (named : simple.clock ∈ spec.clocks ++ tp.clocks) :
    simple.clockId = clockIdIn (spec.clocks ++ tp.clocks) simple.clock ↔
      simple.clock ∈ spec.clocks := by
  constructor
  · intro same
    have positive := one_le_clockIdIn.mpr named
    rw [← same, numbered] at positive
    exact one_le_clockIdIn.mp positive
  · intro declared
    rw [numbered, clockIdIn_append declared]

include disjoint in
/-- A number taken over from the test purpose is right only if the specification has
no clocks. -/
theorem tpId_iff {simple : SimpleClockGuard}
    (numbered : simple.clockId = clockIdIn tp.clocks simple.clock)
    (named : simple.clock ∈ spec.clocks ++ tp.clocks) :
    simple.clockId = clockIdIn (spec.clocks ++ tp.clocks) simple.clock ↔
      spec.clocks = [] := by
  constructor
  · intro same
    have positive := one_le_clockIdIn.mpr named
    rw [← same, numbered] at positive
    have inTp := one_le_clockIdIn.mp positive
    rw [numbered, clockIdIn_append_right (disjoint _ inTp) inTp] at same
    have noLength : spec.clocks.length = 0 := by omega
    exact List.length_eq_zero_iff.mp noLength
  · intro none
    rw [numbered, none, List.nil_append]

end Ids

section Product

variable {spec tp initial result : TIOSTS} {root : LocationPair} {final : List ProductMove}

/-- The numbers a move leaves are right exactly if it is alone or its guards agree. -/
theorem createdClockGuard_numbered_iff
    (disjoint : ∀ clock ∈ tp.clocks, clock ∉ spec.clocks)
    (specReads : spec.ReadsClocks (spec.clocks ++ tp.clocks))
    (tpReads : tp.ReadsClocks (spec.clocks ++ tp.clocks)) {pair : LocationPair}
    {move : ProductMove} (atPair : move ∈ movesAt spec tp pair) :
    (move.createdClockGuard (spec.clocks ++ tp.clocks)).NumberedBy
        (spec.clocks ++ tp.clocks) ↔
      ∀ tpTransition, move.tpTransition = some tpTransition →
        (∀ simple ∈ move.specTransition.clockGuard.clockGuard,
          simple.clock ∈ spec.clocks) ∧
        (tpTransition.clockGuard.clockGuard = [] ∨ spec.clocks = []) := by
  obtain ⟨_, inSpec, _, choice⟩ := mem_movesAt spec tp atPair
  have specNumbered := specReads.numbered _ _ inSpec
  have specNamed := specReads.named _ _ inSpec
  unfold ProductMove.createdClockGuard
  rcases choice with ⟨alone, _⟩ | ⟨tpTransition, inTp, together, _⟩
  · simp only [alone]
    constructor
    · intro _ tpTransition impossible
      cases impossible
    · intro _ simple member
      obtain ⟨before, _, rfl⟩ := List.mem_map.mp member
      rfl
  · have tpNumbered := tpReads.numbered _ _ inTp
    have tpNamed := tpReads.named _ _ inTp
    simp only [together, Option.some.injEq, forall_eq', ClockGuard.NumberedBy,
      createClockGuard, List.mem_append, or_imp, forall_and]
    apply and_congr
    · apply forall₂_congr
      intro simple member
      exact specId_iff (specNumbered simple member) (specNamed simple member)
    · have each : ∀ simple ∈ tpTransition.clockGuard.clockGuard,
          (simple.clockId = clockIdIn (spec.clocks ++ tp.clocks) simple.clock ↔
            spec.clocks = []) := fun simple member =>
        tpId_iff disjoint (tpNumbered simple member) (tpNamed simple member)
      cases guards : tpTransition.clockGuard.clockGuard with
      | nil => simp
      | cons first rest =>
          rw [guards] at each
          constructor
          · intro same
            exact Or.inr ((each first (by simp)).mp (same first (by simp)))
          · rintro (impossible | none) simple member
            · cases impossible
            · exact (each simple member).mpr none

theorem createdClockGuard_named
    (specReads : spec.ReadsClocks (spec.clocks ++ tp.clocks))
    (tpReads : tp.ReadsClocks (spec.clocks ++ tp.clocks)) {pair : LocationPair}
    {move : ProductMove} (atPair : move ∈ movesAt spec tp pair) (clocks : List String) :
    ∀ simple ∈ (move.createdClockGuard clocks).clockGuard,
      simple.clock ∈ spec.clocks ++ tp.clocks := by
  obtain ⟨_, inSpec, _, choice⟩ := mem_movesAt spec tp atPair
  unfold ProductMove.createdClockGuard
  intro simple member
  rcases choice with ⟨alone, _⟩ | ⟨tpTransition, inTp, together, _⟩
  · rw [alone] at member
    obtain ⟨before, inGuard, rfl⟩ := List.mem_map.mp member
    exact specReads.named _ _ inSpec before inGuard
  · rw [together] at member
    rcases List.mem_append.mp member with inGuard | inGuard
    · exact specReads.named _ _ inSpec simple inGuard
    · exact tpReads.named _ _ inTp simple inGuard

/-- The clock numbers of a returned product are right exactly if those of the moves
taken are. -/
theorem IsProductRun.clockIdsMatch_iff
    (run : IsProductRun spec tp initial root final result)
    (specReads : spec.ReadsClocks (spec.clocks ++ tp.clocks))
    (tpReads : tp.ReadsClocks (spec.clocks ++ tp.clocks)) :
    result.ClockIdsMatch ↔ ∀ move ∈ final,
      (move.createdClockGuard (spec.clocks ++ tp.clocks)).NumberedBy
        (spec.clocks ++ tp.clocks) := by
  constructor
  · intro right move inFinal simple member
    have out : (move.transition initial).mirror ∈ result.outOf move.source.label := by
      rw [run.outOf]
      exact List.mem_map_of_mem (List.mem_filter.mpr
        ⟨List.mem_reverse.mpr inFinal, decide_eq_true rfl⟩)
    have guardEq : (move.transition initial).mirror.clockGuard =
        move.createdClockGuard (spec.clocks ++ tp.clocks) := by
      rw [← run.declares.clocks]
      rfl
    have found := right _ _ out simple (by rw [guardEq]; exact member)
    rw [TIOSTS.getClockId, run.clocks] at found
    exact found.1
  · intro numbered label transition member simple inGuard
    rw [run.outOf] at member
    obtain ⟨move, inFiltered, rfl⟩ := List.mem_map.mp member
    have inFinal := List.mem_reverse.mp (List.mem_filter.mp inFiltered).1
    obtain ⟨pair, _, atPair⟩ := run.expands.sound_root move inFinal
    have created : simple ∈
        (move.createdClockGuard (spec.clocks ++ tp.clocks)).clockGuard := by
      rw [← run.declares.clocks]
      exact inGuard
    have sameId := numbered move inFinal simple created
    have named := createdClockGuard_named specReads tpReads atPair _ simple created
    rw [TIOSTS.getClockId, run.clocks]
    refine ⟨sameId, ?_⟩
    rw [sameId]
    exact one_le_clockIdIn.mpr named

/-- Agreement of the synchronised guards gives every clock its number, and with
underscore-free labels it is also needed. -/
theorem product_clockIds_iff (root : LocationPair) {depth : Nat} (specWellFormed : spec.WellFormed)
    (tpWellFormed : tp.WellFormed)
    (specInitial : spec.initialLocation = some root.specLabel)
    (tpInitial : tp.initialLocation = some root.tpLabel)
    (returned : synchronousProduct depth spec tp = .ok result)
    (specReads : spec.ReadsClocks (spec.clocks ++ tp.clocks))
    (tpReads : tp.ReadsClocks (spec.clocks ++ tp.clocks)) :
    (SynchronisedClocksAgree spec tp root → result.ClockIdsMatch) ∧
    (spec.LabelsAvoid ['_'] →
      (result.ClockIdsMatch ↔ SynchronisedClocksAgree spec tp root)) := by
  obtain ⟨initial, otherRoot, final, _, run⟩ :=
    isProductRun_of_ok specWellFormed tpWellFormed returned
  obtain rfl := run.root_eq specInitial tpInitial
  have disjoint := run.declares.clocks_disjoint
  have expands := run.expands
  rw [run.declares.clocks] at expands
  rw [run.clockIdsMatch_iff specReads tpReads]
  have enough : SynchronisedClocksAgree spec tp otherRoot → ∀ move ∈ final,
      (move.createdClockGuard (spec.clocks ++ tp.clocks)).NumberedBy
        (spec.clocks ++ tp.clocks) := by
    intro agree move inFinal
    obtain ⟨pair, reaches, atPair⟩ := expands.sound_root move inFinal
    exact (createdClockGuard_numbered_iff disjoint specReads tpReads atPair).mpr
      (agree pair reaches move atPair)
  refine ⟨enough, fun specLabels => ⟨?_, enough⟩⟩
  intro numbered pair reaches move atPair
  have locates := stampsLocate specWellFormed tpWellFormed specLabels
    (spec.clocks ++ tp.clocks)
  rw [← createdClockGuard_numbered_iff disjoint specReads tpReads atPair]
  rcases expands.covers_reachable locates reaches move atPair with
    taken | ⟨taken, inFinal, _, stamped⟩
  · exact numbered move taken
  · have guardEq : taken.createdClockGuard (spec.clocks ++ tp.clocks) = move.clockGuard :=
      congrArg ProductMark.clockGuard stamped
    have takenNumbered := numbered taken inFinal
    rw [guardEq] at takenNumbered
    -- alone, the move is read again; together, it is created as it is searched
    rw [createdClockGuard_numbered_iff disjoint specReads tpReads atPair]
    intro tpTransition together
    have sameGuard : move.createdClockGuard (spec.clocks ++ tp.clocks) = move.clockGuard := by
      simp only [ProductMove.createdClockGuard, ProductMove.clockGuard, together]
    rw [← sameGuard, createdClockGuard_numbered_iff disjoint specReads tpReads atPair]
      at takenNumbered
    exact takenNumbered tpTransition together

end Product

theorem assemble_readsClocks {declarations : TIOSTS} (blank : declarations.IsBlank)
    {labels : List String} {initial : String} {transitions : List Transition}
    (uses : declarations.Uses labels initial transitions) {known : List String}
    (numbered : ∀ transition ∈ transitions, ∀ simple ∈ transition.clockGuard.clockGuard,
      simple.clockId = clockIdIn declarations.clocks simple.clock ∧
        simple.clock ∈ known) :
    (declarations.assemble labels initial transitions).ReadsClocks known := by
  constructor
  · intro label transition member simple inGuard
    rw [TIOSTS.assemble_outOf blank uses] at member
    rw [TIOSTS.assemble_clocks]
    exact (numbered transition (List.mem_filter.mp member).1 simple inGuard).1
  · intro label transition member simple inGuard
    rw [TIOSTS.assemble_outOf blank uses] at member
    exact (numbered transition (List.mem_filter.mp member).1 simple inGuard).2

namespace ClockInstances

def enter : Action := ⟨"i", .input, []⟩
def act : Action := ⟨"a", .output, []⟩

/-- A comparison of the clock, read under the given id. -/
def below (clockId : Nat) (clock : String) : ClockGuard :=
  if valid : isName clock = true then
    ⟨[⟨clockId, clock, .lt, "5", valid, isNumeral_five⟩]⟩
  else
    ClockGuard.empty

def specList : List Transition :=
  [.bare "r" enter "n", { Transition.bare "n" act "n" with clockGuard := below 1 "x" }]

def tpList (guard : ClockGuard) : List Transition :=
  [.bare "t" enter "v", { Transition.bare "v" act "Accept" with clockGuard := guard }]

def specDeclared : TIOSTS := .declare "S" [enter, act] [] [] ["x"]

def tpDeclared : TIOSTS := .declare "T" [enter, act] [] [] ["y"]

/-- One clock, compared in the loop at `n`. -/
def spec : TIOSTS := .assemble specDeclared ["r", "n"] "r" specList

/-- One clock, compared on the way to acceptance. -/
def tp (guard : ClockGuard) : TIOSTS :=
  .assemble tpDeclared ["t", "v", "Accept"] "t" (tpList guard)

end ClockInstances

open ClockInstances in
theorem product_clockIds_unguarded :
    ∃ result, synchronousProduct 4 spec (tp ClockGuard.empty) = .ok result ∧
      result.ClockIdsMatch := by
  have specBlank : specDeclared.IsBlank := TIOSTS.declare_isBlank _ _ _ _ _
  have tpBlank : tpDeclared.IsBlank := TIOSTS.declare_isBlank _ _ _ _ _
  have specUses : specDeclared.Uses ["r", "n"] "r" specList := by decide
  have tpUses : tpDeclared.Uses ["t", "v", "Accept"] "t" (tpList ClockGuard.empty) := by
    decide
  obtain ⟨result, returned⟩ : ∃ result,
      synchronousProduct 4 spec (tp ClockGuard.empty) = .ok result := exists_ok (by decide)
  have specReads : spec.ReadsClocks (spec.clocks ++ (tp ClockGuard.empty).clocks) :=
    assemble_readsClocks specBlank specUses (by decide)
  have tpReads : (tp ClockGuard.empty).ReadsClocks
      (spec.clocks ++ (tp ClockGuard.empty).clocks) :=
    assemble_readsClocks tpBlank tpUses (by decide)
  refine ⟨result, returned, ?_⟩
  apply (product_clockIds_iff ⟨"r", "t"⟩ (TIOSTS.assemble_wellFormed specBlank specUses)
    (TIOSTS.assemble_wellFormed tpBlank tpUses) TIOSTS.assemble_initialLocation
    TIOSTS.assemble_initialLocation returned specReads tpReads).1
  intro pair _ move atPair tpTransition together
  obtain ⟨_, inSpec, _, choice⟩ := mem_movesAt spec (tp ClockGuard.empty) atPair
  have unguarded : ∀ transition ∈ tpList ClockGuard.empty,
      transition.clockGuard.clockGuard = [] := by decide
  have guarded : ∀ transition ∈ specList, ∀ simple ∈ transition.clockGuard.clockGuard,
      simple.clock ∈ ["x"] := by decide
  rw [spec, TIOSTS.assemble_outOf specBlank specUses] at inSpec
  refine ⟨guarded _ (List.mem_filter.mp inSpec).1, Or.inl ?_⟩
  rcases choice with ⟨alone, _⟩ | ⟨chosen, inTp, chosenTogether, _⟩
  · rw [alone] at together
    cases together
  · rw [chosenTogether] at together
    rw [tp, TIOSTS.assemble_outOf tpBlank tpUses] at inTp
    exact Option.some.inj together ▸ unguarded chosen (List.mem_filter.mp inTp).1

open ClockInstances in
/-- The guard `y < 5` of the test purpose is numbered 1 there and keeps this number in a
product where `y` is the second clock. -/
theorem product_clockIds_mismatch :
    spec.WellFormed ∧ (tp (below 1 "y")).WellFormed ∧
      spec.ReadsClocks (spec.clocks ++ (tp (below 1 "y")).clocks) ∧
      (tp (below 1 "y")).ReadsClocks (spec.clocks ++ (tp (below 1 "y")).clocks) ∧
      ∃ result, synchronousProduct 4 spec (tp (below 1 "y")) = .ok result ∧
        ¬ result.ClockIdsMatch := by
  have specBlank : specDeclared.IsBlank := TIOSTS.declare_isBlank _ _ _ _ _
  have tpBlank : tpDeclared.IsBlank := TIOSTS.declare_isBlank _ _ _ _ _
  have specUses : specDeclared.Uses ["r", "n"] "r" specList := by decide
  have tpUses : tpDeclared.Uses ["t", "v", "Accept"] "t" (tpList (below 1 "y")) := by decide
  have ids : (synchronousProduct 4 spec (tp (below 1 "y"))).toOption.map (fun result =>
      (result.outOf "n_v").map (fun transition => transition.clockGuard.clockGuard.map
        (fun simple => (simple.clockId, result.getClockId simple.clock)))) =
      some [[(1, 1), (1, 2)]] := by decide
  refine ⟨TIOSTS.assemble_wellFormed specBlank specUses,
    TIOSTS.assemble_wellFormed tpBlank tpUses,
    assemble_readsClocks specBlank specUses (by decide),
    assemble_readsClocks tpBlank tpUses (by decide), ?_⟩
  cases returned : synchronousProduct 4 spec (tp (below 1 "y")) with
  | error failure =>
      rw [returned] at ids
      cases ids
  | ok result =>
      rw [returned] at ids
      have listed : (result.outOf "n_v").map (fun transition =>
          transition.clockGuard.clockGuard.map
            (fun simple => (simple.clockId, result.getClockId simple.clock))) =
          [[(1, 1), (1, 2)]] := Option.some.inj ids
      refine ⟨result, rfl, ?_⟩
      intro idsMatch
      obtain ⟨transition, inOut, guards⟩ : ∃ transition ∈ result.outOf "n_v",
          transition.clockGuard.clockGuard.map
            (fun simple => (simple.clockId, result.getClockId simple.clock)) =
              [(1, 1), (1, 2)] := List.mem_map.mp (listed ▸ List.mem_singleton.mpr rfl)
      obtain ⟨simple, inGuard, pairEq⟩ := List.mem_map.mp
        (guards ▸ (by simp : ((1, 2) : Nat × Nat) ∈ [(1, 1), (1, 2)]))
      have sameId := (idsMatch _ transition inOut simple inGuard).1
      have left := congrArg Prod.fst pairEq
      have right := congrArg Prod.snd pairEq
      simp only at left right
      omega

end Symbolrt
