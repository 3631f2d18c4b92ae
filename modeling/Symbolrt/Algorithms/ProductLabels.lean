import Mathlib.Data.Finset.Prod
import Symbolrt.Algorithms.ProductRuns

/-!
# Labels and keys of a product

Pairs are told apart by joined labels and transitions by joined keys.  Without
the joining characters inside the labels, a joined label determines its pair and
a key determines the pairs and the action it was made of.
-/

namespace Symbolrt

open SynchronousProduct

theorem pairLabel_toList (specLabel tpLabel : String) :
    (pairLabel specLabel tpLabel).toList = specLabel.toList ++ '_' :: tpLabel.toList := by
  simp [pairLabel]

theorem pairLabel_inj {specLabel otherSpec tpLabel otherTp : String}
    (separated : '_' ∉ specLabel.toList) (otherSeparated : '_' ∉ otherSpec.toList)
    (same : pairLabel specLabel tpLabel = pairLabel otherSpec otherTp) :
    specLabel = otherSpec ∧ tpLabel = otherTp := by
  have chars := congrArg String.toList same
  rw [pairLabel_toList, pairLabel_toList] at chars
  obtain ⟨specChars, tpChars⟩ := Text.append_cons_inj_left separated otherSeparated chars
  exact ⟨String.toList_injective specChars, String.toList_injective tpChars⟩

theorem key_toList (move : ProductMove) :
    move.key.toList = move.source.label.toList ++
      '#' :: (move.specTransition.action.name.toList ++ '#' :: move.target.label.toList) := by
  simp [ProductMove.key]

theorem key_inj {move other : ProductMove} (source : '#' ∉ move.source.label.toList)
    (target : '#' ∉ move.target.label.toList)
    (otherSource : '#' ∉ other.source.label.toList)
    (otherTarget : '#' ∉ other.target.label.toList) (same : move.key = other.key) :
    move.source.label = other.source.label ∧
      move.specTransition.action.name = other.specTransition.action.name ∧
      move.target.label = other.target.label := by
  have chars := congrArg String.toList same
  rw [key_toList, key_toList] at chars
  obtain ⟨sourceChars, rest⟩ := Text.append_cons_inj_left source otherSource chars
  obtain ⟨actionChars, targetChars⟩ := Text.append_cons_inj_right target otherTarget rest
  exact ⟨String.toList_injective sourceChars, String.toList_injective actionChars,
    String.toList_injective targetChars⟩

namespace LocationPair

/-- Both components are registered. -/
def IsRegistered (spec tp : TIOSTS) (pair : LocationPair) : Prop :=
  spec.IsRegistered pair.specLabel ∧ tp.IsRegistered pair.tpLabel

def registered (spec tp : TIOSTS) : Finset LocationPair :=
  (spec.locations.keys.toFinset ×ˢ tp.locations.keys.toFinset).image
    (fun labels => ⟨labels.1, labels.2⟩)

theorem mem_registered {spec tp : TIOSTS} {pair : LocationPair} :
    pair ∈ registered spec tp ↔ pair.IsRegistered spec tp := by
  obtain ⟨specLabel, tpLabel⟩ := pair
  simp [registered, IsRegistered, TIOSTS.IsRegistered, AList.mem_keys]

theorem label_inj {spec tp : TIOSTS} (specLabels : spec.LabelsAvoid ['_'])
    {pair other : LocationPair} (isRegistered : pair.IsRegistered spec tp)
    (otherRegistered : other.IsRegistered spec tp) (same : pair.label = other.label) :
    pair = other := by
  obtain ⟨specEq, tpEq⟩ := pairLabel_inj
    (specLabels _ isRegistered.1 '_' (by simp))
    (specLabels _ otherRegistered.1 '_' (by simp)) same
  obtain ⟨specLabel, tpLabel⟩ := pair
  obtain ⟨otherSpec, otherTp⟩ := other
  simp_all

theorem label_avoids {spec tp : TIOSTS} (specLabels : spec.LabelsAvoid ['#'])
    (tpLabels : tp.LabelsAvoid ['#']) {pair : LocationPair}
    (isRegistered : pair.IsRegistered spec tp) : '#' ∉ pair.label.toList := by
  rw [label, pairLabel_toList]
  intro member
  rcases List.mem_append.mp member with inSpec | inRest
  · exact specLabels _ isRegistered.1 '#' (by simp) inSpec
  · rcases List.mem_cons.mp inRest with joint | inTp
    · exact absurd joint (by decide)
    · exact tpLabels _ isRegistered.2 '#' (by simp) inTp

end LocationPair

section Moves

variable {spec tp : TIOSTS} {pair : LocationPair} {move : ProductMove}

theorem source_of_mem_movesAt (specWellFormed : spec.WellFormed)
    (member : move ∈ movesAt spec tp pair) : move.source = pair := by
  obtain ⟨_, inOut, tpLabel, _⟩ := mem_movesAt spec tp member
  obtain ⟨specLabel, pairTpLabel⟩ := pair
  simp only [ProductMove.source, LocationPair.mk.injEq]
  exact ⟨specWellFormed.source_eq inOut, tpLabel⟩

theorem isRegistered_of_mem_movesAt (member : move ∈ movesAt spec tp pair) :
    pair.IsRegistered spec tp := by
  obtain ⟨⟨_, tpRegistered⟩, inOut, _⟩ := mem_movesAt spec tp member
  exact ⟨TIOSTS.isRegistered_of_mem_outOf inOut, tpRegistered⟩

theorem target_isRegistered (specWellFormed : spec.WellFormed)
    (tpWellFormed : tp.WellFormed) (member : move ∈ movesAt spec tp pair) :
    move.target.IsRegistered spec tp := by
  obtain ⟨⟨_, tpRegistered⟩, inOut, tpLabel, choice⟩ := mem_movesAt spec tp member
  have specTarget := specWellFormed.target_registered inOut
  rcases choice with ⟨alone, _⟩ | ⟨tpTransition, inTpOut, together, _⟩
  · simp only [ProductMove.target, alone]
    exact ⟨specTarget, by rw [tpLabel]; exact tpRegistered⟩
  · simp only [ProductMove.target, together]
    exact ⟨specTarget, tpWellFormed.target_registered inTpOut⟩

theorem reaches_isRegistered (specWellFormed : spec.WellFormed)
    (tpWellFormed : tp.WellFormed) {clocks : List String} {root : LocationPair}
    (isRegistered : root.IsRegistered spec tp)
    (reaches : (productSearch spec tp clocks).Reaches root pair) :
    pair.IsRegistered spec tp := by
  induction reaches with
  | refl => exact isRegistered
  | tail _ step _ =>
      obtain ⟨move, member, rfl⟩ := step
      exact target_isRegistered specWellFormed tpWellFormed member

theorem closed_registered (specWellFormed : spec.WellFormed)
    (tpWellFormed : tp.WellFormed) (clocks : List String) :
    (productSearch spec tp clocks).Closed (LocationPair.registered spec tp) := by
  intro node _ move member
  exact LocationPair.mem_registered.mpr
    (target_isRegistered specWellFormed tpWellFormed member)

/-- Without the separator in the labels of the specification, a stamp determines
the pair its move leads to. -/
theorem stampsLocate (specWellFormed : spec.WellFormed) (tpWellFormed : tp.WellFormed)
    (specLabels : spec.LabelsAvoid ['_']) (clocks : List String) :
    (productSearch spec tp clocks).StampsLocate := by
  rintro move taken ⟨node, member⟩ ⟨takenNode, takenMember⟩ stamped
  have sameTarget : taken.target.label = move.target.label :=
    congrArg ProductMark.target stamped
  exact LocationPair.label_inj specLabels
    (target_isRegistered specWellFormed tpWellFormed takenMember)
    (target_isRegistered specWellFormed tpWellFormed member) sameTarget

/-- The moves with one key lead from one pair to one pair with one action. -/
theorem eq_of_key_eq (specWellFormed : spec.WellFormed) (tpWellFormed : tp.WellFormed)
    (specLabels : spec.LabelsAvoid ['_', '#']) (tpLabels : tp.LabelsAvoid ['#'])
    {other : ProductMove} {otherPair : LocationPair}
    (member : move ∈ movesAt spec tp pair)
    (otherMember : other ∈ movesAt spec tp otherPair) (same : move.key = other.key) :
    pair = otherPair ∧
      move.specTransition.action.name = other.specTransition.action.name ∧
      move.target = other.target := by
  have joints : spec.LabelsAvoid ['_'] := fun label registered c member =>
    specLabels label registered c (by simp_all)
  have hashes : spec.LabelsAvoid ['#'] := fun label registered c member =>
    specLabels label registered c (by simp_all)
  have registered := isRegistered_of_mem_movesAt member
  have otherRegistered := isRegistered_of_mem_movesAt otherMember
  have targetRegistered := target_isRegistered specWellFormed tpWellFormed member
  have otherTarget := target_isRegistered specWellFormed tpWellFormed otherMember
  have source := source_of_mem_movesAt specWellFormed member
  have otherSource := source_of_mem_movesAt specWellFormed otherMember
  obtain ⟨sourceEq, actionEq, targetEq⟩ := key_inj
    (by rw [source]; exact LocationPair.label_avoids hashes tpLabels registered)
    (LocationPair.label_avoids hashes tpLabels targetRegistered)
    (by rw [otherSource]; exact LocationPair.label_avoids hashes tpLabels otherRegistered)
    (LocationPair.label_avoids hashes tpLabels otherTarget) same
  rw [source, otherSource] at sourceEq
  exact ⟨LocationPair.label_inj joints registered otherRegistered sourceEq, actionEq,
    LocationPair.label_inj joints targetRegistered otherTarget targetEq⟩

end Moves

end Symbolrt
