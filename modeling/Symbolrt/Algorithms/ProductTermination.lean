import Symbolrt.Base.Assembly
import Symbolrt.Algorithms.ProductLabels

/-!
# When the recursion of the product ends

A move that shares its key with a move of other guards can lose its entry in the
map of transitions, and a move whose clock guard is not read back as it was is
never found.  Such a move is taken again every time its pair is entered.  The
recursion ends unless these moves form a cycle of reachable pairs.
-/

namespace Symbolrt

open SynchronousProduct

section Condition

variable (spec tp : TIOSTS) (clocks : List String) (root : LocationPair)

/-- The entry the move is looked up by can hold something else than the move looks
for. -/
def ProductMove.Evictable (move : ProductMove) : Prop :=
  ∃ pair, (productSearch spec tp clocks).Reaches root pair ∧
    ∃ other ∈ movesAt spec tp pair, other.key = move.key ∧
      ((productSearch spec tp clocks).mark other ≠
          (productSearch spec tp clocks).mark move ∨
        (productSearch spec tp clocks).stamp other ≠
          (productSearch spec tp clocks).mark move)

/-- A move that a later one of the same key may replace. -/
def EvictableStep (pair next : LocationPair) : Prop :=
  ∃ move ∈ movesAt spec tp pair, move.target = next ∧
    move.Evictable spec tp clocks root

/-- A reachable pair from which evictable moves lead back to it. -/
def HasEvictableCycle : Prop :=
  ∃ pair, (productSearch spec tp clocks).Reaches root pair ∧
    Relation.TransGen (EvictableStep spec tp clocks root) pair pair

/-- The recursion started by `synchronousProduct` returns. -/
def SyncProductEnds (initial : TIOSTS) : Prop :=
  ∃ specLoc tpLoc depth sp, spec.getLocation root.specLabel = some specLoc ∧
    tp.getLocation root.tpLabel = some tpLoc ∧
    syncProduct spec tp depth specLoc tpLoc initial = .ok sp

open Classical in
/-- The reachable pairs. -/
noncomputable def reachablePairs : Finset LocationPair :=
  {pair ∈ LocationPair.registered spec tp |
    (productSearch spec tp clocks).Reaches root pair}

end Condition

section Ends

variable {spec tp initial : TIOSTS} {root : LocationPair}

theorem mem_reachablePairs (specWellFormed : spec.WellFormed)
    (tpWellFormed : tp.WellFormed) {clocks : List String}
    (registered : root.IsRegistered spec tp) {pair : LocationPair} :
    pair ∈ reachablePairs spec tp clocks root ↔
      (productSearch spec tp clocks).Reaches root pair := by
  simp only [reachablePairs, Finset.mem_filter, LocationPair.mem_registered]
  constructor
  · exact fun member => member.2
  · intro reaches
    exact ⟨reaches_isRegistered specWellFormed tpWellFormed registered reaches, reaches⟩

/-- The recursion returns exactly if the search does. -/
theorem syncProductEnds_iff (specWellFormed : spec.WellFormed)
    (tpWellFormed : tp.WellFormed) (declares : Declares spec tp initial)
    (registered : root.IsRegistered spec tp) :
    SyncProductEnds spec tp root initial ↔
      ∃ final, (productSearch spec tp initial.clocks).Expands (movesAt spec tp root) []
        final := by
  have product := declares.isProductSetUp specWellFormed tpWellFormed
  constructor
  · rintro ⟨specLoc, tpLoc, depth, sp, specFound, tpFound, returned⟩
    have simulated : syncProduct spec tp depth specLoc tpLoc initial = _ :=
      syncProduct_build product depth specFound tpFound []
    cases visited : (productSearch spec tp initial.clocks).visit depth
        ⟨root.specLabel, root.tpLabel⟩ [] with
    | none =>
        rw [simulated, visited] at returned
        cases returned
    | some final => exact ⟨final, KeyedSearch.visit_expands visited⟩
  · rintro ⟨final, expands⟩
    obtain ⟨specLoc, specFound⟩ := (TIOSTS.isRegistered_iff _ _).mp registered.1
    obtain ⟨tpLoc, tpFound⟩ := (TIOSTS.isRegistered_iff _ _).mp registered.2
    obtain ⟨depth, visited⟩ := KeyedSearch.visit_iff_expands.mpr expands
    have simulated : syncProduct spec tp depth specLoc tpLoc initial = _ :=
      syncProduct_build product depth specFound tpFound []
    refine ⟨specLoc, tpLoc, depth, build initial final, specFound, tpFound, ?_⟩
    rw [simulated]
    exact congrArg (built initial) visited

theorem settled_of_not_evictable (specWellFormed : spec.WellFormed)
    (tpWellFormed : tp.WellFormed) {clocks : List String}
    (registered : root.IsRegistered spec tp) {move : ProductMove}
    (kept : ¬ move.Evictable spec tp clocks root) :
    (productSearch spec tp clocks).Settled (reachablePairs spec tp clocks root)
      move.key := by
  refine ⟨(productSearch spec tp clocks).mark move, ?_⟩
  intro pair member other atPair sameKey
  have reaches := (mem_reachablePairs specWellFormed tpWellFormed registered).mp member
  constructor
  · by_contra different
    exact kept ⟨pair, reaches, other, atPair, sameKey, Or.inl different⟩
  · by_contra different
    exact kept ⟨pair, reaches, other, atPair, sameKey, Or.inr different⟩

/-- Without a cycle of evictable moves the recursion ends, whatever the labels. -/
theorem ends_of_no_cycle (specWellFormed : spec.WellFormed) (tpWellFormed : tp.WellFormed)
    (declares : Declares spec tp initial) (registered : root.IsRegistered spec tp)
    (acyclic : ¬ HasEvictableCycle spec tp initial.clocks root) :
    SyncProductEnds spec tp root initial := by
  rw [syncProductEnds_iff specWellFormed tpWellFormed declares registered]
  have reached : ∀ {pair}, pair ∈ reachablePairs spec tp initial.clocks root ↔
      (productSearch spec tp initial.clocks).Reaches root pair :=
    mem_reachablePairs specWellFormed tpWellFormed registered
  have closed : (productSearch spec tp initial.clocks).Closed
      (reachablePairs spec tp initial.clocks root) := by
    intro pair member move atPair
    exact reached.mpr ((reached.mp member).tail ⟨move, atPair, rfl⟩)
  apply KeyedSearch.exists_expands closed
  · intro pair member cycle
    refine acyclic ⟨pair, reached.mp member, ?_⟩
    refine Relation.TransGen.mono ?_ _ _ cycle
    rintro before after ⟨_, move, atBefore, target, unsettled⟩
    refine ⟨move, atBefore, target, ?_⟩
    by_contra kept
    exact unsettled (settled_of_not_evictable specWellFormed tpWellFormed registered kept)
  · exact reached.mpr Relation.ReflTransGen.refl

/-- The clock guard a move leaves is determined by what the move looks for, among the
moves of one pair with one action. -/
theorem stamp_eq_of_mark_eq {clocks : List String} {pair : LocationPair}
    {move other : ProductMove} (member : move ∈ movesAt spec tp pair)
    (otherMember : other ∈ movesAt spec tp pair)
    (sameMark : (productSearch spec tp clocks).mark other =
      (productSearch spec tp clocks).mark move) :
    (productSearch spec tp clocks).stamp other =
      (productSearch spec tp clocks).stamp move := by
  obtain ⟨_, _, _, choice⟩ := mem_movesAt spec tp member
  obtain ⟨_, _, _, otherChoice⟩ := mem_movesAt spec tp otherMember
  simp only [productSearch, ProductMark.mk.injEq] at sameMark ⊢
  obtain ⟨source, dataGuard, clockGuard, action, target⟩ := sameMark
  refine ⟨source, dataGuard, ?_, action, target⟩
  rcases choice with ⟨alone, absent⟩ | ⟨tpTransition, inTp, together, sameAction⟩ <;>
    rcases otherChoice with ⟨otherAlone, otherAbsent⟩ |
      ⟨otherTransition, otherInTp, otherTogether, otherSameAction⟩
  · simp only [ProductMove.clockGuard, alone, otherAlone] at clockGuard
    simp only [ProductMove.createdClockGuard, alone, otherAlone, clockGuard]
  · rw [← action] at absent
    exact absurd otherSameAction (absent _ otherInTp)
  · rw [action] at otherAbsent
    exact absurd sameAction (otherAbsent _ inTp)
  · simp only [ProductMove.clockGuard, together, otherTogether] at clockGuard
    simp only [ProductMove.createdClockGuard, together, otherTogether, clockGuard]

/-- With labels that can be told apart, a cycle of evictable moves is restless. -/
theorem restless_of_cycle (root : LocationPair) (specWellFormed : spec.WellFormed)
    (tpWellFormed : tp.WellFormed)
    (specLabels : spec.LabelsAvoid ['_', '#']) (tpLabels : tp.LabelsAvoid ['#'])
    (clocks : List String) :
    (productSearch spec tp clocks).Restless (fun pair =>
      Relation.TransGen (EvictableStep spec tp clocks root) pair pair) := by
  intro pair cycle
  obtain ⟨next, ⟨move, atPair, target, evictable⟩, back⟩ :=
    Relation.TransGen.head'_iff.mp cycle
  have onCycle : Relation.TransGen (EvictableStep spec tp clocks root) next next :=
    Relation.TransGen.tail' back ⟨move, atPair, target, evictable⟩
  have sameMoves : ∀ {otherPair : LocationPair} {other : ProductMove},
      other ∈ movesAt spec tp otherPair → other.key = move.key →
      otherPair = pair ∧ other.target = next := by
    intro otherPair other atOther sameKey
    obtain ⟨samePair, _, sameTarget⟩ := eq_of_key_eq specWellFormed tpWellFormed specLabels
      tpLabels atOther atPair sameKey
    exact ⟨samePair, sameTarget.trans target⟩
  refine ⟨move.key, ⟨move, atPair, rfl⟩, ?_, ?_, ?_⟩
  · intro other atOther sameKey
    have targetEq : (productSearch spec tp clocks).target other = next :=
      (sameMoves atOther sameKey).2
    rw [targetEq]
    exact onCycle
  · rintro other atOther otherKey taken ⟨takenPair, takenAt⟩ takenKey _
    exact (sameMoves takenAt takenKey).1 ▸ takenAt
  · rintro ⟨value, marks, writer, atWriter, writerKey, stamped⟩
    obtain ⟨otherPair, _, other, atOther, otherKey, different⟩ := evictable
    obtain ⟨rfl, _⟩ := sameMoves atOther otherKey
    have moveMark := marks move atPair rfl
    have otherMark := marks other atOther otherKey
    have writerMark := marks writer atWriter writerKey
    rcases different with marksDiffer | stampDiffers
    · exact marksDiffer (otherMark.trans moveMark.symm)
    · apply stampDiffers
      rw [moveMark, ← stamped]
      exact stamp_eq_of_mark_eq atWriter atOther (otherMark.trans writerMark.symm)

theorem not_hasEvictableCycle_of_rank {clocks : List String} (rank : String → Nat)
    (rises : ∀ label, ∀ transition ∈ spec.outOf label,
      rank label < rank transition.target) :
    ¬ HasEvictableCycle spec tp clocks root := by
  have stepRises : ∀ pair next, EvictableStep spec tp clocks root pair next →
      rank pair.specLabel < rank next.specLabel := by
    rintro pair next ⟨move, atPair, rfl, _⟩
    have risen := rises _ _ (mem_movesAt spec tp atPair).2.1
    unfold ProductMove.target
    split <;> exact risen
  rintro ⟨pair, _, cycle⟩
  have risen : ∀ last, Relation.TransGen (EvictableStep spec tp clocks root) pair last →
      rank pair.specLabel < rank last.specLabel := by
    intro last path
    induction path with
    | single step => exact stepRises _ _ step
    | tail _ step induction => exact lt_trans induction (stepRises _ _ step)
  exact lt_irrefl _ (risen pair cycle)

theorem not_ends_of_cycle (specWellFormed : spec.WellFormed) (tpWellFormed : tp.WellFormed)
    (declares : Declares spec tp initial) (registered : root.IsRegistered spec tp)
    (specLabels : spec.LabelsAvoid ['_', '#']) (tpLabels : tp.LabelsAvoid ['#'])
    (cycle : HasEvictableCycle spec tp initial.clocks root) :
    ¬ SyncProductEnds spec tp root initial := by
  rw [syncProductEnds_iff specWellFormed tpWellFormed declares registered]
  rintro ⟨final, expands⟩
  obtain ⟨pair, reaches, onCycle⟩ := cycle
  have joints : spec.LabelsAvoid ['_'] := fun label isRegistered c member =>
    specLabels label isRegistered c (by simp_all)
  have restless := restless_of_cycle root specWellFormed tpWellFormed specLabels tpLabels
    initial.clocks
  exact restless.diverges (stampsLocate specWellFormed tpWellFormed joints initial.clocks)
    reaches onCycle final expands

/-- The recursion ends if evictable moves form no cycle, and with labels that can be told
apart only then. -/
theorem syncProduct_ends_iff (root : LocationPair) (specWellFormed : spec.WellFormed)
    (tpWellFormed : tp.WellFormed)
    (accepted : initializeSyncProduct spec tp = .ok initial)
    (specInitial : spec.initialLocation = some root.specLabel)
    (tpInitial : tp.initialLocation = some root.tpLabel) :
    (¬ HasEvictableCycle spec tp initial.clocks root →
      SyncProductEnds spec tp root initial) ∧
    (spec.LabelsAvoid ['_', '#'] → tp.LabelsAvoid ['#'] →
      (SyncProductEnds spec tp root initial ↔
        ¬ HasEvictableCycle spec tp initial.clocks root)) := by
  have declares := initializeSyncProduct_declares accepted
  obtain ⟨specLoc, specFound, _⟩ := specWellFormed.initial_registered specInitial
  obtain ⟨tpLoc, tpFound, _⟩ := tpWellFormed.initial_registered tpInitial
  have registered : root.IsRegistered spec tp :=
    ⟨(TIOSTS.isRegistered_iff _ _).mpr ⟨specLoc, specFound⟩,
      (TIOSTS.isRegistered_iff _ _).mpr ⟨tpLoc, tpFound⟩⟩
  have enough := ends_of_no_cycle specWellFormed tpWellFormed declares registered
  refine ⟨enough, fun specLabels tpLabels => ⟨?_, enough⟩⟩
  intro ends cycle
  exact not_ends_of_cycle specWellFormed tpWellFormed declares registered specLabels
    tpLabels cycle ends

end Ends

namespace ParallelInstances

def enter : Action := ⟨"i", .input, []⟩
def act : Action := ⟨"a", .output, []⟩

/-- Two parallel transitions with different guards. -/
def parallel (target : String) : List Transition :=
  [.bare "r" enter "n",
    { Transition.bare "n" act target with dataGuard := .written "x > 0" },
    { Transition.bare "n" act target with dataGuard := .written "x < 5" }]

def declarations : TIOSTS := .declare "S" [enter, act] [⟨"x", .integer⟩] [] []

/-- Two transitions on one action, between the same locations or to different ones. -/
def spec (target : String) : TIOSTS :=
  .assemble declarations ["r", "n", "m"] "r" (parallel target)

/-- A test purpose without transitions. -/
def tp : TIOSTS := .assemble (.declare "T" [] [] [] []) ["t"] "t" []

def root : LocationPair := ⟨"r", "t"⟩

def move (target : String) (guard : DataGuard) : ProductMove :=
  ⟨{ Transition.bare "n" act target with dataGuard := guard }, "t", none⟩

end ParallelInstances

open ParallelInstances in
/-- Parallel transitions outside a cycle are explored. -/
theorem syncProduct_ends_branching :
    ∃ initial, initializeSyncProduct (spec "m") tp = .ok initial ∧
      SyncProductEnds (spec "m") tp root initial := by
  have specBlank := TIOSTS.declare_isBlank "S" [enter, act] [⟨"x", .integer⟩] [] []
  have tpBlank := TIOSTS.declare_isBlank "T" [] [] [] []
  have specUses : declarations.Uses ["r", "n", "m"] "r" (parallel "m") := by decide
  have tpUses : (TIOSTS.declare "T" [] [] [] []).Uses ["t"] "t" [] := by decide
  obtain ⟨initial, accepted⟩ : ∃ initial, initializeSyncProduct (spec "m") tp = .ok initial :=
    exists_ok (by decide)
  refine ⟨initial, accepted, ?_⟩
  have ends := syncProduct_ends_iff root (TIOSTS.assemble_wellFormed specBlank specUses)
    (TIOSTS.assemble_wellFormed tpBlank tpUses) accepted TIOSTS.assemble_initialLocation
    TIOSTS.assemble_initialLocation
  refine (ends.2 (TIOSTS.assemble_labelsAvoid specBlank (by decide))
    (TIOSTS.assemble_labelsAvoid tpBlank (by decide))).mpr ?_
  have rises : ∀ transition ∈ parallel "m", ["r", "n", "m"].idxOf transition.source <
      ["r", "n", "m"].idxOf transition.target := by decide
  apply not_hasEvictableCycle_of_rank (fun label => ["r", "n", "m"].idxOf label)
  intro label transition member
  rw [TIOSTS.assemble_outOf specBlank specUses] at member
  obtain ⟨inList, source⟩ := List.mem_filter.mp member
  rw [decide_eq_true_eq.mp source]
  exact rises transition inList

open ParallelInstances in
/-- Parallel loops with different guards evict each other, and the recursion goes on for
ever. -/
theorem syncProduct_diverges_on_loops :
    ∃ initial, initializeSyncProduct (spec "n") tp = .ok initial ∧
      (spec "n").WellFormed ∧ tp.WellFormed ∧
      ¬ SyncProductEnds (spec "n") tp root initial := by
  have specBlank := TIOSTS.declare_isBlank "S" [enter, act] [⟨"x", .integer⟩] [] []
  have tpBlank := TIOSTS.declare_isBlank "T" [] [] [] []
  have specUses : declarations.Uses ["r", "n", "m"] "r" (parallel "n") := by decide
  have tpUses : (TIOSTS.declare "T" [] [] [] []).Uses ["t"] "t" [] := by decide
  have specWellFormed := TIOSTS.assemble_wellFormed specBlank specUses
  have tpWellFormed := TIOSTS.assemble_wellFormed tpBlank tpUses
  obtain ⟨initial, accepted⟩ : ∃ initial, initializeSyncProduct (spec "n") tp = .ok initial :=
    exists_ok (by decide)
  refine ⟨initial, accepted, specWellFormed, tpWellFormed, ?_⟩
  have registered : root.IsRegistered (spec "n") tp :=
    ⟨(TIOSTS.assemble_isRegistered specBlank _).mpr (by decide),
      (TIOSTS.assemble_isRegistered tpBlank _).mpr (by decide)⟩
  apply not_ends_of_cycle specWellFormed tpWellFormed
    (initializeSyncProduct_declares accepted) registered
    (TIOSTS.assemble_labelsAvoid specBlank (by decide))
    (TIOSTS.assemble_labelsAvoid tpBlank (by decide))
  have entered : (productSearch (spec "n") tp initial.clocks).Reaches root ⟨"n", "t"⟩ :=
    Relation.ReflTransGen.single (by
      refine ⟨⟨.bare "r" enter "n", "t", none⟩, ?_, rfl⟩
      show _ ∈ movesAt (spec "n") tp root
      decide)
  have firstLoop : move "n" (.written "x > 0") ∈ movesAt (spec "n") tp ⟨"n", "t"⟩ := by decide
  have secondLoop : move "n" (.written "x < 5") ∈ movesAt (spec "n") tp ⟨"n", "t"⟩ := by decide
  refine ⟨⟨"n", "t"⟩, entered, Relation.TransGen.single ⟨_, firstLoop, rfl, ?_⟩⟩
  refine ⟨⟨"n", "t"⟩, entered, _, secondLoop, rfl, Or.inl ?_⟩
  intro same
  have guards : "x < 5" = "x > 0" := congrArg ProductMark.dataGuard same
  exact absurd guards (by decide)

end Symbolrt
