import Symbolrt.Base.Assembly
import Symbolrt.Algorithms.ProductLabels

/-!
# What the synchronous product contains

For models with unique transition keys, labels free of the joining characters
and specification guards numbered against the clocks of the specification, the
product is returned and consists of the moves of the reachable pairs, each taken
once.
-/

namespace Symbolrt

open SynchronousProduct

theorem clockIdIn_append {allClocks : List String} {clock : String}
    (member : clock ∈ allClocks) (added : List String) :
    clockIdIn (allClocks ++ added) clock = clockIdIn allClocks clock := by
  simp [clockIdIn, member, List.idxOf_append_of_mem]

theorem mark_eq_stamp {spec tp initial : TIOSTS} (declares : Declares spec tp initial)
    (numbered : spec.NumberedClocks) {pair : LocationPair} {move : ProductMove}
    (member : move ∈ movesAt spec tp pair) :
    (productSearch spec tp initial.clocks).stamp move =
      (productSearch spec tp initial.clocks).mark move := by
  obtain ⟨_, inOut, _, choice⟩ := mem_movesAt spec tp member
  have sameGuard : move.createdClockGuard initial.clocks = move.clockGuard := by
    rcases choice with ⟨alone, _⟩ | ⟨tpTransition, _, together, _⟩
    · simp only [ProductMove.createdClockGuard, ProductMove.clockGuard, alone]
      apply ClockGuard.renumber_eq_self
      intro simple inGuard
      obtain ⟨declared, clockId⟩ := numbered _ _ inOut simple inGuard
      rw [clockId, declares.clocks, clockIdIn_append declared]
      rfl
    · simp only [ProductMove.createdClockGuard, ProductMove.clockGuard, together]
  simp only [productSearch, sameGuard]

theorem nodup_inj {α β : Type} {items : List α} {key : α → β}
    (nodup : (items.map key).Nodup) {first second : α} (firstMember : first ∈ items)
    (secondMember : second ∈ items) (same : key first = key second) : first = second :=
  List.inj_on_of_nodup_map nodup firstMember secondMember same

section Correctness

variable {spec tp : TIOSTS}

/-- One move to a key. -/
theorem move_eq_of_key_eq (specWellFormed : spec.WellFormed)
    (tpWellFormed : tp.WellFormed) (specUnique : spec.UniqueTransitions)
    (tpUnique : tp.UniqueTransitions) (specLabels : spec.LabelsAvoid ['_', '#'])
    (tpLabels : tp.LabelsAvoid ['#']) {pair otherPair : LocationPair}
    {move other : ProductMove} (member : move ∈ movesAt spec tp pair)
    (otherMember : other ∈ movesAt spec tp otherPair) (same : move.key = other.key) :
    move = other := by
  obtain ⟨rfl, actionEq, targetEq⟩ := eq_of_key_eq specWellFormed tpWellFormed specLabels
    tpLabels member otherMember same
  obtain ⟨_, inOut, tpLabel, choice⟩ := mem_movesAt spec tp member
  obtain ⟨_, otherOut, otherTpLabel, otherChoice⟩ := mem_movesAt spec tp otherMember
  have specTarget : move.specTransition.target = other.specTransition.target := by
    have labels := congrArg LocationPair.specLabel targetEq
    unfold ProductMove.target at labels
    split at labels <;> split at labels <;> exact labels
  have specEq : move.specTransition = other.specTransition :=
    nodup_inj (specUnique pair.specLabel) inOut otherOut (by simp [actionEq, specTarget])
  have tpEq : move.tpTransition = other.tpTransition := by
    rcases choice with ⟨alone, absent⟩ | ⟨tpTransition, inTp, together, sameAction⟩ <;>
      rcases otherChoice with ⟨otherAlone, otherAbsent⟩ |
        ⟨otherTransition, otherInTp, otherTogether, otherSameAction⟩
    · rw [alone, otherAlone]
    · rw [specEq] at absent
      exact absurd otherSameAction (absent _ otherInTp)
    · rw [← specEq] at otherAbsent
      exact absurd sameAction (otherAbsent _ inTp)
    · have tpTarget : tpTransition.target = otherTransition.target := by
        have labels := congrArg LocationPair.tpLabel targetEq
        simpa [ProductMove.target, together, otherTogether] using labels
      rw [together, otherTogether, nodup_inj (tpUnique pair.tpLabel) inTp otherInTp
        (by simp [sameAction, otherSameAction, specEq, tpTarget])]
  obtain ⟨specTransition, moveTpLabel, tpTransition⟩ := move
  obtain ⟨otherSpec, otherMoveTp, otherTpTransition⟩ := other
  simp only at specEq tpEq tpLabel otherTpLabel
  rw [specEq, tpEq, tpLabel, otherTpLabel]

theorem movesOf_nodup (tpUnique : tp.UniqueTransitions) (tpLabel : String)
    (specTransition : Transition) : (movesOf tp tpLabel specTransition).Nodup := by
  have listed : (tp.outOf tpLabel).Nodup := (tpUnique tpLabel).of_map
  unfold movesOf
  split
  · simp
  · rename_i first rest filtered
    rw [← filtered]
    apply (listed.filter _).map
    intro one other same
    simpa using same

theorem movesAt_nodup (specUnique : spec.UniqueTransitions)
    (tpUnique : tp.UniqueTransitions) (pair : LocationPair) :
    (movesAt spec tp pair).Nodup := by
  have listed : (spec.outOf pair.specLabel).Nodup := (specUnique pair.specLabel).of_map
  unfold movesAt
  split
  · simp
  · rw [List.nodup_flatMap]
    refine ⟨fun specTransition _ => movesOf_nodup tpUnique _ specTransition, ?_⟩
    refine listed.imp ?_
    intro first second different move inFirst inSecond
    have firstEq := (mem_movesOf tp inFirst).1
    have secondEq := (mem_movesOf tp inSecond).1
    exact different (firstEq.symm.trans secondEq)

/-- What the product of two models should be: the outgoing transitions of the
locations are the moves of the reachable pairs, there are no other locations and
transitions, and the actions are declared. -/
structure IsExactProduct (spec tp initial : TIOSTS) (root : LocationPair)
    (result : TIOSTS) : Prop where
  moves : ∀ pair, (productSearch spec tp initial.clocks).Reaches root pair →
    (result.outOf pair.label).Perm
      ((movesAt spec tp pair).map (fun move => (move.transition initial).mirror))
  locations : ∀ label, result.IsRegistered label →
    ∃ pair, (productSearch spec tp initial.clocks).Reaches root pair ∧ pair.label = label
  actions : ∀ label, ∀ transition ∈ result.outOf label,
    transition.action ∈ result.actionsOf transition.action.type

/-- The product is returned and is exact. -/
def HasExactProduct (spec tp : TIOSTS) : Prop :=
  ∃ initial root depth result,
    initializeSyncProduct spec tp = .ok initial ∧
    spec.initialLocation = some root.specLabel ∧
    tp.initialLocation = some root.tpLabel ∧
    synchronousProduct depth spec tp = .ok result ∧
    IsExactProduct spec tp initial root result

theorem IsProductRun.action_mem {initial result : TIOSTS} {root : LocationPair}
    {final : List ProductMove} (run : IsProductRun spec tp initial root final result)
    {label : String} {transition : Transition} (member : transition ∈ result.outOf label) :
    transition.action ∈ result.actionsOf transition.action.type := by
  rw [run.outOf] at member
  obtain ⟨move, inFinal, rfl⟩ := List.mem_map.mp member
  have inLog := List.mem_reverse.mp (List.mem_filter.mp inFinal).1
  obtain ⟨node, _, atNode⟩ := run.expands.sound_root move inLog
  have product := run.declares.isProductSetUp run.specWellFormed run.tpWellFormed
  have found := actionIn_eq product move (mem_movesAt spec tp atNode).2.1
  obtain ⟨declared, type, _⟩ := TIOSTS.getAction_eq_some found
  rw [run.declares.actions] at declared
  have mirrored : (move.actionIn initial).mirror ∈
      result.actionsOf (move.actionIn initial).type.mirror := by
    rw [run.actionsOf, type]
    exact List.mem_map_of_mem declared
  rw [← Action.mirror_type] at mirrored
  exact mirrored

theorem IsProductRun.reaches_of_registered {initial result : TIOSTS} {root : LocationPair}
    {final : List ProductMove} (run : IsProductRun spec tp initial root final result)
    {label : String} (registered : result.IsRegistered label) :
    ∃ pair, (productSearch spec tp initial.clocks).Reaches root pair ∧
      pair.label = label := by
  obtain ⟨move, inFinal, isLabel⟩ := (run.isRegistered label).mp registered
  obtain ⟨node, reaches, atNode⟩ := run.expands.sound_root move inFinal
  rcases isLabel with source | target
  · exact ⟨node, reaches,
      by rw [source, source_of_mem_movesAt run.specWellFormed atNode]⟩
  · exact ⟨move.target, reaches.tail ⟨move, atNode, rfl⟩, target.symm⟩

/-- A returned product is exact when every key belongs to one move. -/
theorem IsProductRun.isExact {initial result : TIOSTS} {root : LocationPair}
    {final : List ProductMove} (run : IsProductRun spec tp initial root final result)
    (rootRegistered : root.IsRegistered spec tp)
    (specUnique : spec.UniqueTransitions) (tpUnique : tp.UniqueTransitions)
    (specLabels : spec.LabelsAvoid ['_', '#']) (tpLabels : tp.LabelsAvoid ['#'])
    (numbered : spec.NumberedClocks) : IsExactProduct spec tp initial root result where
  moves := by
    intro pair reaches
    have joints : spec.LabelsAvoid ['_'] := fun label registered c member =>
      specLabels label registered c (by simp_all)
    have unique : ∀ move taken,
        (productSearch spec tp initial.clocks).Actual move →
        (productSearch spec tp initial.clocks).Actual taken →
        (productSearch spec tp initial.clocks).key taken =
          (productSearch spec tp initial.clocks).key move → taken = move := by
      rintro move taken ⟨node, atNode⟩ ⟨takenNode, takenAt⟩ same
      exact move_eq_of_key_eq run.specWellFormed run.tpWellFormed specUnique tpUnique
        specLabels tpLabels takenAt atNode same
    have nodup : final.Nodup := run.expands.nodup unique
      (fun move ⟨node, atNode⟩ => mark_eq_stamp run.declares numbered atNode)
      (fun move member => ⟨root, member⟩) (by simp) List.nodup_nil
    have pairRegistered := reaches_isRegistered run.specWellFormed run.tpWellFormed
      rootRegistered reaches
    rw [run.outOf]
    apply List.Perm.map
    rw [List.perm_ext_iff_of_nodup ((List.nodup_reverse.mpr nodup).filter _)
      (movesAt_nodup specUnique tpUnique pair)]
    intro move
    rw [List.mem_filter, List.mem_reverse, decide_eq_true_eq]
    constructor
    · rintro ⟨inFinal, sameLabel⟩
      obtain ⟨node, nodeReaches, atNode⟩ := run.expands.sound_root move inFinal
      rw [source_of_mem_movesAt run.specWellFormed atNode] at sameLabel
      have nodeRegistered := reaches_isRegistered run.specWellFormed run.tpWellFormed
        rootRegistered nodeReaches
      rw [LocationPair.label_inj joints pairRegistered nodeRegistered sameLabel]
      exact atNode
    · intro atPair
      refine ⟨?_, by rw [source_of_mem_movesAt run.specWellFormed atPair]⟩
      have locates := stampsLocate run.specWellFormed run.tpWellFormed joints initial.clocks
      rcases run.expands.covers_reachable locates reaches move atPair with
        taken | ⟨taken, inFinal, sameKey, _⟩
      · exact taken
      · obtain ⟨node, _, atNode⟩ := run.expands.sound_root taken inFinal
        rwa [← unique move taken ⟨pair, atPair⟩ ⟨node, atNode⟩ sameKey]
  locations := fun label registered => run.reaches_of_registered registered
  actions := fun label transition member => run.action_mem member

/-- The search ends when every key belongs to one move. -/
theorem exists_expands_of_unique {initial : TIOSTS} {root : LocationPair}
    (specWellFormed : spec.WellFormed) (tpWellFormed : tp.WellFormed)
    (declares : Declares spec tp initial) (rootRegistered : root.IsRegistered spec tp)
    (specUnique : spec.UniqueTransitions) (tpUnique : tp.UniqueTransitions)
    (specLabels : spec.LabelsAvoid ['_', '#']) (tpLabels : tp.LabelsAvoid ['#'])
    (numbered : spec.NumberedClocks) :
    ∃ final, (productSearch spec tp initial.clocks).Expands (movesAt spec tp root) []
      final := by
  have settled : ∀ key, (productSearch spec tp initial.clocks).Settled
      (LocationPair.registered spec tp) key := by
    intro key
    by_cases used : ∃ node, ∃ move ∈ movesAt spec tp node, move.key = key
    · obtain ⟨node, move, atNode, moveKey⟩ := used
      refine ⟨(productSearch spec tp initial.clocks).mark move, ?_⟩
      intro other _ otherMove atOther otherKey
      have same := move_eq_of_key_eq specWellFormed tpWellFormed specUnique tpUnique
        specLabels tpLabels atOther atNode (otherKey.trans moveKey.symm)
      rw [mark_eq_stamp declares numbered atOther, same]
      exact ⟨rfl, rfl⟩
    · refine ⟨⟨"", "", ClockGuard.empty, "", ""⟩, ?_⟩
      intro other _ otherMove atOther otherKey
      exact absurd ⟨other, otherMove, atOther, otherKey⟩ used
  apply KeyedSearch.exists_expands
    (closed_registered specWellFormed tpWellFormed initial.clocks)
  · intro node _ cycle
    obtain ⟨_, ⟨_, move, _, _, unsettled⟩, _⟩ := Relation.TransGen.head'_iff.mp cycle
    exact unsettled (settled _)
  · exact LocationPair.mem_registered.mpr rootRegistered

/-- When the search ends and takes a move of the root, the product is returned. -/
theorem synchronousProduct_of_expands {initial : TIOSTS} {root : LocationPair}
    {final : List ProductMove}
    (specWellFormed : spec.WellFormed) (tpWellFormed : tp.WellFormed)
    (initialized : initializeSyncProduct spec tp = .ok initial)
    (specInitial : spec.initialLocation = some root.specLabel)
    (tpInitial : tp.initialLocation = some root.tpLabel)
    (expands : (productSearch spec tp initial.clocks).Expands (movesAt spec tp root) []
      final)
    (leaves : ∃ move ∈ final, root.label = move.source.label) :
    ∃ depth result, synchronousProduct depth spec tp = .ok result := by
  have declares := initializeSyncProduct_declares initialized
  have product := declares.isProductSetUp specWellFormed tpWellFormed
  obtain ⟨specLoc, specFound, _⟩ := specWellFormed.initial_registered specInitial
  obtain ⟨tpLoc, tpFound, _⟩ := tpWellFormed.initial_registered tpInitial
  have specLabel := specWellFormed.label_eq specFound
  have tpLabel := tpWellFormed.label_eq tpFound
  obtain ⟨depth, visited⟩ := KeyedSearch.visit_iff_expands.mpr expands
  have searched : syncProduct spec tp depth specLoc tpLoc initial =
      .ok (build initial final) := by
    have simulated := syncProduct_build product depth specFound tpFound []
    rw [show (⟨root.specLabel, root.tpLabel⟩ : LocationPair) = root from rfl, visited]
      at simulated
    exact simulated
  obtain ⟨move, inFinal, leavesRoot⟩ := leaves
  have outgoing : (build initial final).outOf (pairLabel specLoc.label tpLoc.label) ≠ [] := by
    rw [build_outOf product.setUp, specLabel, tpLabel]
    have member : move ∈ final.reverse.filter
        (fun move => root.label = move.source.label) := by
      simp [inFinal, leavesRoot]
    exact fun empty => List.ne_nil_of_mem member (List.map_eq_nil_iff.mp empty)
  obtain ⟨first, rest, out⟩ := List.exists_cons_of_ne_nil outgoing
  have finished := (finish_eq_ok product).mpr ⟨first, rest, out, rfl⟩
  have specStart : initialLocationOf spec = .ok specLoc :=
    (initialLocationOf_eq_ok specWellFormed).mpr (by rw [specLabel]; exact ⟨specInitial, specFound⟩)
  have tpStart : initialLocationOf tp = .ok tpLoc :=
    (initialLocationOf_eq_ok tpWellFormed).mpr (by rw [tpLabel]; exact ⟨tpInitial, tpFound⟩)
  have steps : synchronousProduct depth spec tp =
      finish specLoc tpLoc (build initial final) := by
    unfold synchronousProduct
    rw [initialized, ok_bind, specStart, ok_bind, tpStart, ok_bind, searched, ok_bind]
  exact ⟨depth, _, steps.trans finished⟩

/-- A pair whose test-purpose location is ordinary has a move for each transition
of its specification location. -/
theorem movesAt_ne_nil {pair : LocationPair} (ordinary : isSpecialLabel pair.tpLabel = false)
    (registered : tp.IsRegistered pair.tpLabel) (leaves : spec.outOf pair.specLabel ≠ []) :
    movesAt spec tp pair ≠ [] := by
  obtain ⟨first, rest, out⟩ := List.exists_cons_of_ne_nil leaves
  have inTp : pair.tpLabel ∈ tp.locations := registered
  unfold movesAt
  rw [out, if_neg (by simp [ordinary, inTp]), List.flatMap_cons]
  intro empty
  exact movesOf_ne_nil tp _ _ (List.append_eq_nil_iff.mp empty).1

/-- With unique transition keys, plain labels, specification guards numbered by the
clocks of the specification and an ordinary initial location in the test purpose, the
product is returned and is exact. -/
theorem synchronousProduct_exact {initial : TIOSTS} (root : LocationPair)
    (specWellFormed : spec.WellFormed) (tpWellFormed : tp.WellFormed)
    (accepted : initializeSyncProduct spec tp = .ok initial)
    (specInitial : spec.initialLocation = some root.specLabel)
    (tpInitial : tp.initialLocation = some root.tpLabel)
    (leaves : spec.outOf root.specLabel ≠ [])
    (specUnique : spec.UniqueTransitions) (tpUnique : tp.UniqueTransitions)
    (specLabels : spec.LabelsAvoid ['_', '#']) (tpLabels : tp.LabelsAvoid ['_', '#'])
    (numbered : spec.NumberedClocks) (ordinary : isSpecialLabel root.tpLabel = false) :
    HasExactProduct spec tp := by
  have hashes : tp.LabelsAvoid ['#'] := fun label registered c member =>
    tpLabels label registered c (by simp_all)
  have declares := initializeSyncProduct_declares accepted
  obtain ⟨specLoc, specFound, _⟩ := specWellFormed.initial_registered specInitial
  obtain ⟨tpLoc, tpFound, _⟩ := tpWellFormed.initial_registered tpInitial
  have rootRegistered : root.IsRegistered spec tp :=
    ⟨(TIOSTS.isRegistered_iff _ _).mpr ⟨specLoc, specFound⟩,
      (TIOSTS.isRegistered_iff _ _).mpr ⟨tpLoc, tpFound⟩⟩
  obtain ⟨final, expands⟩ := exists_expands_of_unique specWellFormed tpWellFormed declares
    rootRegistered specUnique tpUnique specLabels hashes numbered
  have joints : spec.LabelsAvoid ['_'] := fun label registered c member =>
    specLabels label registered c (by simp_all)
  have leavesRoot : ∃ move ∈ final, root.label = move.source.label := by
    obtain ⟨first, rest, moves⟩ := List.exists_cons_of_ne_nil
      (movesAt_ne_nil ordinary rootRegistered.2 leaves)
    have atRoot : first ∈ movesAt spec tp root := by simp [moves]
    have locates := stampsLocate specWellFormed tpWellFormed joints initial.clocks
    have source := source_of_mem_movesAt specWellFormed atRoot
    rcases expands.covers_reachable locates Relation.ReflTransGen.refl first atRoot with
      taken | ⟨taken, inFinal, _, stamped⟩
    · exact ⟨first, taken, by rw [source]⟩
    · have sameSource : taken.source.label = first.source.label :=
        congrArg ProductMark.source stamped
      exact ⟨taken, inFinal, by rw [sameSource, source]⟩
  obtain ⟨depth, result, returned⟩ := synchronousProduct_of_expands specWellFormed
    tpWellFormed accepted specInitial tpInitial expands leavesRoot
  obtain ⟨otherInitial, otherRoot, otherFinal, otherAccepted, run⟩ :=
    isProductRun_of_ok specWellFormed tpWellFormed returned
  have sameInitial : otherInitial = initial := by
    rw [accepted] at otherAccepted
    exact (Except.ok.inj otherAccepted).symm
  have sameRoot : otherRoot = root := by
    have specEq := run.specInitial
    have tpEq := run.tpInitial
    rw [specInitial] at specEq
    rw [tpInitial] at tpEq
    obtain ⟨otherSpec, otherTp⟩ := otherRoot
    obtain ⟨specLabel, tpLabel⟩ := root
    simp_all
  subst sameInitial sameRoot
  exact ⟨otherInitial, otherRoot, depth, result, accepted, specInitial, tpInitial, returned,
    run.isExact rootRegistered specUnique tpUnique specLabels hashes numbered⟩

end Correctness

/-- A specification and a test purpose as the product operation documents them: accepted,
with unique transition keys, no underscores in labels and an initial location that can
be left. -/
structure IsProductInput (spec tp : TIOSTS) : Prop where
  specWellFormed : spec.WellFormed
  tpWellFormed : tp.WellFormed
  accepted : ∃ initial, initializeSyncProduct spec tp = .ok initial
  specUnique : spec.UniqueTransitions
  tpUnique : tp.UniqueTransitions
  specLabels : spec.LabelsAvoid ['_']
  tpLabels : tp.LabelsAvoid ['_']
  leaves : ∃ label, spec.initialLocation = some label ∧ spec.outOf label ≠ []
  tpStarts : ∃ label, tp.initialLocation = some label

namespace ProductInstances

def enter : Action := ⟨"i", .input, []⟩
def again : Action := ⟨"j", .input, []⟩
def short : Action := ⟨"B", .output, []⟩
def long : Action := ⟨"B#C", .output, []⟩
def actions : List Action := [enter, again, short, long]

/-- The clock is read under the id the model gives it. -/
def clockBelow (clockId : Nat) : ClockGuard :=
  ⟨[⟨clockId, "y", .lt, "5", by decide, isNumeral_five⟩]⟩

def loop : List Transition :=
  [.bare "r" enter "n", { Transition.bare "n" short "n" with clockGuard := clockBelow 1 },
    .bare "n" long "D"]

/-- The loop at `n` comes before the action the test purpose waits for. -/
def loopSpec : TIOSTS := .assemble (.declare "S" actions [] [] ["y"]) ["r", "n", "D"] "r" loop

def visits : List Transition := [.bare "t" enter "v", .bare "v" long "Accept"]

/-- Accepts the action with the longer name. -/
def loopTp : TIOSTS :=
  .assemble (.declare "T" actions [] [] ["z"]) ["t", "v", "Accept"] "t" visits

/-- The transitions from `n` have one key. -/
def hashed : List Transition :=
  [.bare "r" enter "n", .bare "r" again "n", .bare "n" short "C#D", .bare "n" long "D"]

/-- Two labels and a name that give the same key. -/
def hashedSpec : TIOSTS :=
  .assemble (.declare "S" actions [] [] []) ["r", "n", "C#D", "D"] "r" hashed

/-- The guard names a clock of the test purpose. -/
def foreign : List Transition :=
  [.bare "r" enter "n", .bare "r" again "n",
    { Transition.bare "n" short "D" with clockGuard := clockBelow 0 }]

def foreignSpec : TIOSTS :=
  .assemble (.declare "S" actions [] [] []) ["r", "n", "D"] "r" foreign

def plainSpec : TIOSTS :=
  .assemble (.declare "S" actions [] [] []) ["r", "n"] "r" [.bare "r" enter "n"]

/-- A test purpose that stays at its initial location. -/
def idleTp (label : String) : TIOSTS :=
  .assemble (.declare "T" [] [] [] ["y"]) [label] label []

end ProductInstances

open ProductInstances in
theorem synchronousProduct_exact_loop : HasExactProduct loopSpec loopTp := by
  have specUses : TIOSTS.Uses (.declare "S" actions [] [] ["y"]) ["r", "n", "D"] "r" loop := by
    decide
  have tpUses : TIOSTS.Uses (.declare "T" actions [] [] ["z"]) ["t", "v", "Accept"] "t"
      visits := by decide
  have specBlank := TIOSTS.declare_isBlank "S" actions [] [] ["y"]
  have tpBlank := TIOSTS.declare_isBlank "T" actions [] [] ["z"]
  obtain ⟨initial, accepted⟩ : ∃ initial, initializeSyncProduct loopSpec loopTp = .ok initial :=
    exists_ok (by decide)
  have leaves : loopSpec.outOf "r" ≠ [] := by
    rw [loopSpec, TIOSTS.assemble_outOf specBlank specUses]
    decide
  exact synchronousProduct_exact ⟨"r", "t"⟩
    (TIOSTS.assemble_wellFormed specBlank specUses)
    (TIOSTS.assemble_wellFormed tpBlank tpUses) accepted
    TIOSTS.assemble_initialLocation TIOSTS.assemble_initialLocation leaves
    (TIOSTS.assemble_uniqueTransitions specBlank specUses (by decide))
    (TIOSTS.assemble_uniqueTransitions tpBlank tpUses (by decide))
    (TIOSTS.assemble_labelsAvoid specBlank (by decide))
    (TIOSTS.assemble_labelsAvoid tpBlank (by decide))
    (TIOSTS.assemble_numberedClocks specBlank specUses (by decide)) (by decide)

/-- A reachable pair whose location has the wrong number of outgoing transitions refutes
an exact product. -/
theorem not_hasExactProduct_of_length {spec tp : TIOSTS} (root pair : LocationPair)
    (depth count : Nat) (specWellFormed : spec.WellFormed) (tpWellFormed : tp.WellFormed)
    (specInitial : spec.initialLocation = some root.specLabel)
    (tpInitial : tp.initialLocation = some root.tpLabel)
    (step : ∃ move ∈ movesAt spec tp root, move.target = pair)
    (length : (synchronousProduct depth spec tp).toOption.map
      (fun result => (result.outOf pair.label).length) = some count)
    (different : (movesAt spec tp pair).length ≠ count) : ¬ HasExactProduct spec tp := by
  rintro ⟨initial, otherRoot, otherDepth, result, _, otherSpec, otherTp, returned, isExact⟩
  have sameRoot : otherRoot = root := by
    rw [specInitial] at otherSpec
    rw [tpInitial] at otherTp
    obtain ⟨specLabel, tpLabel⟩ := root
    obtain ⟨otherSpecLabel, otherTpLabel⟩ := otherRoot
    simp_all
  subst sameRoot
  have counted := (isExact.moves pair (Relation.ReflTransGen.single step)).length_eq
  rw [List.length_map] at counted
  cases computed : synchronousProduct depth spec tp with
  | error failure => simp [computed, Except.toOption] at length
  | ok other =>
      have same := synchronousProduct_unique specWellFormed tpWellFormed returned computed
      rw [computed] at length
      have otherLength : (other.outOf pair.label).length = count := Option.some.inj length
      rw [← same, counted] at otherLength
      exact different otherLength

/-- Assembled models are product inputs when their lists say so. -/
theorem isProductInput_of_assembled {specDeclared tpDeclared : TIOSTS}
    (specBlank : specDeclared.IsBlank) (tpBlank : tpDeclared.IsBlank)
    {specLabels tpLabels : List String} {specStart tpStart : String}
    {specList tpList : List Transition}
    (specUses : TIOSTS.Uses specDeclared specLabels specStart specList)
    (tpUses : TIOSTS.Uses tpDeclared tpLabels tpStart tpList)
    (specNodup : (specList.map (fun transition =>
      (transition.source, transition.action.name, transition.target))).Nodup)
    (tpNodup : (tpList.map (fun transition =>
      (transition.source, transition.action.name, transition.target))).Nodup)
    (specAvoid : ∀ label ∈ specLabels, ∀ c ∈ ['_'], c ∉ label.toList)
    (tpAvoid : ∀ label ∈ tpLabels, ∀ c ∈ ['_'], c ∉ label.toList)
    (accepted : (initializeSyncProduct (specDeclared.assemble specLabels specStart specList)
      (tpDeclared.assemble tpLabels tpStart tpList)).toOption.isSome = true)
    (leaves : specList.filter (fun transition => specStart = transition.source) ≠ []) :
    IsProductInput (specDeclared.assemble specLabels specStart specList)
      (tpDeclared.assemble tpLabels tpStart tpList) where
  specWellFormed := TIOSTS.assemble_wellFormed specBlank specUses
  tpWellFormed := TIOSTS.assemble_wellFormed tpBlank tpUses
  accepted := exists_ok accepted
  specUnique := TIOSTS.assemble_uniqueTransitions specBlank specUses specNodup
  tpUnique := TIOSTS.assemble_uniqueTransitions tpBlank tpUses tpNodup
  specLabels := TIOSTS.assemble_labelsAvoid specBlank specAvoid
  tpLabels := TIOSTS.assemble_labelsAvoid tpBlank tpAvoid
  leaves := by
    refine ⟨specStart, TIOSTS.assemble_initialLocation, ?_⟩
    rw [TIOSTS.assemble_outOf specBlank specUses]
    exact leaves
  tpStarts := ⟨tpStart, TIOSTS.assemble_initialLocation⟩

/-- A test purpose that starts in a special location leaves the product without an
initial location. -/
theorem synchronousProduct_special_start (depth : Nat) :
    (synchronousProduct depth ProductInstances.plainSpec
      (ProductInstances.idleTp "Accept")).toOption = none := by
  cases depth with
  | zero => decide
  | succ depth => rfl

open ProductInstances in
/-- Labels with `#`, a specification guard about a clock of the test purpose, and a test
purpose that starts in an accepting location are all accepted, and none of them gives the
exact product. -/
theorem synchronousProduct_not_exact :
    (IsProductInput hashedSpec (idleTp "t") ∧ ¬ HasExactProduct hashedSpec (idleTp "t")) ∧
    (IsProductInput foreignSpec (idleTp "t") ∧ ¬ HasExactProduct foreignSpec (idleTp "t")) ∧
    (IsProductInput plainSpec (idleTp "Accept") ∧
      ¬ HasExactProduct plainSpec (idleTp "Accept")) := by
  have specBlank := TIOSTS.declare_isBlank "S" actions [] [] []
  have tpBlank := TIOSTS.declare_isBlank "T" [] [] [] ["y"]
  have hashedInput : IsProductInput hashedSpec (idleTp "t") :=
    isProductInput_of_assembled specBlank tpBlank (by decide) (by decide) (by decide)
      (by decide) (by decide) (by decide) (by decide) (by decide)
  have foreignInput : IsProductInput foreignSpec (idleTp "t") :=
    isProductInput_of_assembled specBlank tpBlank (by decide) (by decide) (by decide)
      (by decide) (by decide) (by decide) (by decide) (by decide)
  have specialInput : IsProductInput plainSpec (idleTp "Accept") :=
    isProductInput_of_assembled specBlank tpBlank (by decide) (by decide) (by decide)
      (by decide) (by decide) (by decide) (by decide) (by decide)
  refine ⟨⟨hashedInput, ?_⟩, ⟨foreignInput, ?_⟩, ⟨specialInput, ?_⟩⟩
  · exact not_hasExactProduct_of_length ⟨"r", "t"⟩ ⟨"n", "t"⟩ 4 4 hashedInput.specWellFormed
      hashedInput.tpWellFormed TIOSTS.assemble_initialLocation
      TIOSTS.assemble_initialLocation (by decide) (by decide) (by decide)
  · exact not_hasExactProduct_of_length ⟨"r", "t"⟩ ⟨"n", "t"⟩ 4 2 foreignInput.specWellFormed
      foreignInput.tpWellFormed TIOSTS.assemble_initialLocation
      TIOSTS.assemble_initialLocation (by decide) (by decide) (by decide)
  · rintro ⟨_, _, depth, result, _, _, _, returned, _⟩
    have missing := synchronousProduct_special_start depth
    rw [returned] at missing
    cases missing

end Symbolrt
