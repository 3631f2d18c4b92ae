import Symbolrt.Algorithms.CompletedTransitions
import Symbolrt.Algorithms.ProductCorrectness
import Symbolrt.Algorithms.ProductTermination

/-!
# Guards that are determined by keys

When the transitions with one key have the same guards, no move of the product loses its
entry to a move of other guards, and the recursion of the product ends.  Completion adds
transitions with one key and different guards only where they lead to rejection, which no
move leaves.
-/

namespace Symbolrt

open SynchronousProduct

/-- The transitions of a location to one of these targets have the same guards if they have
the same action and the same target. -/
def TIOSTS.KeyedGuards (targets : String → Prop) (model : TIOSTS) : Prop :=
  ∀ label, ∀ transition ∈ model.outOf label, ∀ other ∈ model.outOf label,
    transition.action.name = other.action.name → transition.target = other.target →
    targets transition.target →
    transition.dataGuard = other.dataGuard ∧ transition.clockGuard = other.clockGuard

/-- No action leads both to rejection and back to its location. -/
def TIOSTS.RejectsApart (model : TIOSTS) : Prop :=
  ∀ label, ∀ transition ∈ model.outOf label, ∀ other ∈ model.outOf label,
    transition.target = Constants.locationLabelReject → other.target = label →
    transition.action.name ≠ other.action.name

theorem TIOSTS.UniqueTransitions.keyedGuards {model : TIOSTS} (unique : model.UniqueTransitions)
    (targets : String → Prop) : model.KeyedGuards targets := by
  intro label transition member other otherMember sameAction sameTarget _
  rw [nodup_inj (unique label) member otherMember (congrArg₂ Prod.mk sameAction sameTarget)]
  exact ⟨rfl, rfl⟩

namespace Completion

theorem negatedGuards_congr {transition other : Transition}
    (dataGuard : transition.dataGuard = other.dataGuard)
    (clockGuard : transition.clockGuard = other.clockGuard) :
    negatedGuards transition = negatedGuards other := by
  rw [negatedGuards, negatedGuards, dataGuard, clockGuard]

section Completed

variable {order : IterationOrder} {tp copy tpComplete : TIOSTS} {label : String}

theorem IsCopied.exists_original (isCopied : IsCopied order tp copy) (wellFormed : tp.WellFormed)
    {transition : Transition} (member : transition ∈ copy.outOf label) :
    ∃ original ∈ tp.outOf label, transition = tp.copied original := by
  rw [isCopied.outOf] at member
  obtain ⟨listed, source⟩ := List.mem_filter.mp member
  obtain ⟨original, inTransitions, rfl⟩ := List.mem_map.mp listed
  obtain ⟨key, stored⟩ := (TIOSTS.mem_getTransitions order tp).mp inTransitions
  have here : label = original.source := of_decide_eq_true source
  rw [here]
  exact ⟨original, (wellFormed.stored stored).2, rfl⟩

theorem IsCopied.keyedGuards (isCopied : IsCopied order tp copy) (wellFormed : tp.WellFormed)
    {targets : String → Prop} (keyed : tp.KeyedGuards targets) : copy.KeyedGuards targets := by
  intro label transition member other otherMember sameAction sameTarget inTargets
  obtain ⟨original, inTp, rfl⟩ := isCopied.exists_original wellFormed member
  obtain ⟨otherOriginal, otherInTp, rfl⟩ := isCopied.exists_original wellFormed otherMember
  rw [TIOSTS.copied_actionName, TIOSTS.copied_actionName] at sameAction
  obtain ⟨dataGuard, clockGuard⟩ := keyed label original inTp otherOriginal otherInTp sameAction
    sameTarget inTargets
  refine ⟨dataGuard, ?_⟩
  rw [TIOSTS.copied, TIOSTS.copied, clockGuard]

theorem IsCopied.rejectsApart (isCopied : IsCopied order tp copy) (wellFormed : tp.WellFormed)
    (apart : tp.RejectsApart) : copy.RejectsApart := by
  intro label transition member other otherMember rejects returns
  obtain ⟨original, inTp, rfl⟩ := isCopied.exists_original wellFormed member
  obtain ⟨otherOriginal, otherInTp, rfl⟩ := isCopied.exists_original wellFormed otherMember
  rw [TIOSTS.copied_actionName, TIOSTS.copied_actionName]
  exact apart label original inTp otherOriginal otherInTp rejects returns

theorem negationTarget_ordinary {transition : Transition}
    (ordinary : isSpecialLabel (negationTarget label transition) = false) :
    transition.target = Constants.locationLabelReject ∧
      negationTarget label transition = label := by
  rw [negationTarget] at ordinary ⊢
  split
  · rename_i rejects
    exact ⟨rejects, rfl⟩
  · rename_i passes
    rw [if_neg passes] at ordinary
    cases ordinary

/-- Beside rejection, completion keeps the guards determined. -/
theorem Adds.sameGuards (keyed : copy.KeyedGuards (fun _ => True)) (apart : copy.RejectsApart)
    {transition other : Transition} (added : Adds copy label transition)
    (otherAdded : Adds copy label other)
    (sameAction : transition.action.name = other.action.name)
    (sameTarget : transition.target = other.target)
    (ordinary : isSpecialLabel transition.target = false) :
    transition.dataGuard = other.dataGuard ∧ transition.clockGuard = other.clockGuard := by
  cases added with
  | own member =>
      cases otherAdded with
      | own otherMember => exact keyed label _ member _ otherMember sameAction sameTarget trivial
      | loop unused => exact absurd sameAction (unused _ member)
      | @negation negated _ _ otherMember _ =>
          have back : transition.target = negationTarget label negated := sameTarget
          rw [back] at ordinary
          obtain ⟨rejects, returns⟩ := negationTarget_ordinary ordinary
          exact absurd sameAction.symm
            (apart label _ otherMember _ member rejects (back.trans returns))
  | loop unused =>
      cases otherAdded with
      | own otherMember => exact absurd sameAction.symm (unused _ otherMember)
      | loop _ => exact ⟨rfl, rfl⟩
      | negation otherMember _ => exact (unused _ otherMember sameAction.symm).elim
  | @negation first _ _ member negated =>
      obtain ⟨rejects, returns⟩ := negationTarget_ordinary ordinary
      cases otherAdded with
      | own otherMember =>
          exact absurd sameAction
            (apart label _ member _ otherMember rejects (sameTarget.symm.trans returns))
      | loop unused => exact (unused _ member sameAction).elim
      | @negation second _ _ otherMember otherNegated =>
          have both : negationTarget label first = negationTarget label second := sameTarget
          have toOther := both ▸ ordinary
          obtain ⟨otherRejects, _⟩ := negationTarget_ordinary toOther
          obtain ⟨dataGuard, clockGuard⟩ := keyed label _ member _ otherMember sameAction
            (rejects.trans otherRejects.symm) trivial
          rw [negatedGuards_congr dataGuard clockGuard] at negated
          cases negated.symm.trans otherNegated
          exact ⟨rfl, rfl⟩

theorem complete_keyedGuards (wellFormed : tp.WellFormed)
    (keyed : tp.KeyedGuards (fun _ => True)) (apart : tp.RejectsApart)
    (completed : complete order tp = .ok tpComplete) :
    tpComplete.KeyedGuards (fun target => isSpecialLabel target = false) := by
  obtain ⟨copy, isCopied, grown⟩ := complete_grown wellFormed completed
  intro label transition member other otherMember sameAction sameTarget ordinary
  exact Adds.sameGuards (isCopied.keyedGuards wellFormed keyed)
    (isCopied.rejectsApart wellFormed apart) (grown.adds label transition member)
    (grown.adds label other otherMember) sameAction sameTarget ordinary

end Completed

end Completion

section Product

variable {spec tp initial : TIOSTS} {root pair : LocationPair} {move other : ProductMove}

/-- Moves with one key to an ordinary pair look for the same transition. -/
theorem mark_eq_of_key_eq (specWellFormed : spec.WellFormed) (tpWellFormed : tp.WellFormed)
    (specKeyed : spec.KeyedGuards (fun _ => True))
    (tpKeyed : tp.KeyedGuards (fun target => isSpecialLabel target = false))
    (specLabels : spec.LabelsAvoid ['_', '#']) (tpLabels : tp.LabelsAvoid ['#'])
    {otherPair : LocationPair} (member : move ∈ movesAt spec tp pair)
    (otherMember : other ∈ movesAt spec tp otherPair) (same : move.key = other.key)
    (ordinary : isSpecialLabel move.target.tpLabel = false) (clocks : List String) :
    (productSearch spec tp clocks).mark move = (productSearch spec tp clocks).mark other := by
  obtain ⟨rfl, actionEq, targetEq⟩ := eq_of_key_eq specWellFormed tpWellFormed specLabels
    tpLabels member otherMember same
  obtain ⟨_, inOut, tpLabel, choice⟩ := mem_movesAt spec tp member
  obtain ⟨_, otherOut, otherTpLabel, otherChoice⟩ := mem_movesAt spec tp otherMember
  have source := source_of_mem_movesAt specWellFormed member
  have otherSource := source_of_mem_movesAt specWellFormed otherMember
  have specTarget : move.specTransition.target = other.specTransition.target := by
    have labels := congrArg LocationPair.specLabel targetEq
    unfold ProductMove.target at labels
    split at labels <;> split at labels <;> exact labels
  obtain ⟨specData, specClock⟩ := specKeyed _ _ inOut _ otherOut actionEq specTarget trivial
  have guards : move.dataGuard = other.dataGuard ∧ move.clockGuard = other.clockGuard := by
    rcases choice with ⟨alone, absent⟩ | ⟨tpTransition, inTp, together, sameAction⟩
    · rcases otherChoice with ⟨otherAlone, _⟩ | ⟨otherTransition, otherInTp, _, otherAction⟩
      · simp only [ProductMove.dataGuard, ProductMove.clockGuard, alone, otherAlone]
        exact ⟨specData, specClock⟩
      · rw [actionEq] at absent
        exact absurd otherAction (absent _ otherInTp)
    · rcases otherChoice with
        ⟨_, otherAbsent⟩ | ⟨otherTransition, otherInTp, otherTogether, otherAction⟩
      · rw [← actionEq] at otherAbsent
        exact absurd sameAction (otherAbsent _ inTp)
      · have tpTarget : tpTransition.target = otherTransition.target := by
          have labels := congrArg LocationPair.tpLabel targetEq
          simpa [ProductMove.target, together, otherTogether] using labels
        have toOrdinary : isSpecialLabel tpTransition.target = false := by
          simpa [ProductMove.target, together] using ordinary
        obtain ⟨tpData, tpClock⟩ := tpKeyed _ _ inTp _ otherInTp
          (sameAction.trans (actionEq.trans otherAction.symm)) tpTarget toOrdinary
        simp only [ProductMove.dataGuard, ProductMove.clockGuard, together, otherTogether,
          specData, specClock, tpData, tpClock]
        exact ⟨trivial, trivial⟩
  simp only [productSearch, source, otherSource, actionEq, targetEq, guards.1, guards.2]

/-- No move to an ordinary pair loses its entry, and no move leaves a special one. -/
theorem not_hasEvictableCycle_of_keyedGuards (specWellFormed : spec.WellFormed)
    (tpWellFormed : tp.WellFormed) (declares : Declares spec tp initial)
    (specKeyed : spec.KeyedGuards (fun _ => True))
    (tpKeyed : tp.KeyedGuards (fun target => isSpecialLabel target = false))
    (specLabels : spec.LabelsAvoid ['_', '#']) (tpLabels : tp.LabelsAvoid ['#'])
    (numbered : spec.NumberedClocks) : ¬ HasEvictableCycle spec tp initial.clocks root := by
  rintro ⟨pair, _, cycle⟩
  obtain ⟨next, ⟨move, atPair, rfl, evictable⟩, back⟩ := Relation.TransGen.head'_iff.mp cycle
  have onCycle : Relation.TransGen (EvictableStep spec tp initial.clocks root) move.target
      move.target := Relation.TransGen.tail' back ⟨move, atPair, rfl, evictable⟩
  obtain ⟨_, ⟨leaving, atNext, _, _⟩, _⟩ := Relation.TransGen.head'_iff.mp onCycle
  have ordinary := (mem_movesAt spec tp atNext).1.1
  obtain ⟨otherPair, _, other, atOther, sameKey, different⟩ := evictable
  have sameMark := mark_eq_of_key_eq specWellFormed tpWellFormed specKeyed tpKeyed specLabels
    tpLabels atPair atOther sameKey.symm ordinary initial.clocks
  rcases different with mark | stamp
  · exact mark sameMark.symm
  · rw [mark_eq_stamp declares numbered atOther] at stamp
    exact stamp sameMark.symm

end Product

end Symbolrt
