import Symbolrt.Algorithms.CompletionCoverage
import Symbolrt.Compositions.InputEnabledness

/-!
# What the completions add is not enabled where the model is

Both completions negate the guards of one transition at a time.  A transition that is
added for a guarded one is conservative if no other transition with the action is enabled
where it is.
-/

namespace Symbolrt

/-- The transitions of the map that leave the location. -/
def TIOSTS.leaving (order : IterationOrder) (model : TIOSTS) (label : String) :
    List Transition :=
  (model.getTransitions order).filter (fun transition => label = transition.source)

/-- Where an added transition is enabled, no original one with its action is. -/
def Conservative (possible : Valuations) (originals added : List Transition) : Prop :=
  ∀ partner ∈ added, ∀ transition ∈ originals,
    partner.action.name = transition.action.name → ∀ atoms clocks, possible atoms clocks →
      partner.Enabled atoms clocks → ¬ transition.Enabled atoms clocks

/-- What a completed model holds beyond the copies of the transitions is conservative. -/
def IsConservative (possible : Valuations) (order : IterationOrder)
    (tiosts completed : TIOSTS) : Prop :=
  ∀ label, completed.IsRegistered label → ∃ added,
    completed.outOf label = (tiosts.leaving order label).map tiosts.copied ++ added ∧
      Conservative possible (tiosts.leaving order label) added

/-- Transitions on one action are enabled under the same of the valuations. -/
def EnabledTogether (possible : Valuations) (transitions : List Transition) : Prop :=
  ∀ transition ∈ transitions, ∀ other ∈ transitions,
    transition.action.name = other.action.name → ∀ atoms clocks, possible atoms clocks →
      other.Enabled atoms clocks → transition.Enabled atoms clocks

/-- Where a transition is enabled, one of the two guards of every input transition on its
action holds. -/
def InputsOverlap (possible : Valuations) (transitions : List Transition) : Prop :=
  ∀ transition ∈ transitions, transition.action.type = .input → ∀ other ∈ transitions,
    transition.action.name = other.action.name → ∀ atoms clocks, possible atoms clocks →
      other.Enabled atoms clocks → Formula.holds atoms transition.dataGuard.text ∨
        transition.clockGuard.holds clocks

variable {possible : Valuations}

section Added

variable {originals added more : List Transition}

theorem conservative_append :
    Conservative possible originals (added ++ more) ↔
      Conservative possible originals added ∧ Conservative possible originals more := by
  constructor
  · intro conservative
    constructor
    · exact fun partner member => conservative partner (List.mem_append_left _ member)
    · exact fun partner member => conservative partner (List.mem_append_right _ member)
  · rintro ⟨ofAdded, ofMore⟩ partner member
    rcases List.mem_append.mp member with inAdded | inMore
    · exact ofAdded partner inAdded
    · exact ofMore partner inMore

theorem conservative_nil : Conservative possible originals [] := by
  intro partner impossible
  cases impossible

theorem conservative_of_unnamed
    (unnamed : ∀ partner ∈ added, ∀ transition ∈ originals,
      transition.action.name ≠ partner.action.name) : Conservative possible originals added := by
  intro partner member transition original name
  exact absurd name.symm (unnamed partner member transition original)

theorem copied_enabled {tiosts : TIOSTS} {transition : Transition}
    {atoms : List String → Prop} {clocks : String → ℝ} :
    (tiosts.copied transition).Enabled atoms clocks ↔ transition.Enabled atoms clocks := by
  apply and_congr_right'
  exact ClockGuard.holds_renumber _ _ _

theorem conservative_map_copied {tiosts : TIOSTS} :
    Conservative possible (originals.map tiosts.copied) added ↔
      Conservative possible originals added := by
  unfold Conservative
  simp only [List.forall_mem_map, TIOSTS.copied_actionName, copied_enabled]

theorem copiedTransitions_leaving (order : IterationOrder) (tiosts : TIOSTS)
    (label : String) :
    (tiosts.copiedTransitions order).filter (fun transition => label = transition.source) =
      (tiosts.leaving order label).map tiosts.copied := by
  rw [TIOSTS.copiedTransitions, List.filter_map]
  rfl

/-- The copies that a completed location holds determine what has been added to it. -/
theorem conservative_of_out {order : IterationOrder} {tiosts completed : TIOSTS}
    {label : String} {added : List Transition}
    (out : completed.outOf label = (tiosts.leaving order label).map tiosts.copied ++ added) :
    (∃ other, completed.outOf label =
        (tiosts.leaving order label).map tiosts.copied ++ other ∧
          Conservative possible (tiosts.leaving order label) other) ↔
      Conservative possible (tiosts.leaving order label) added := by
  constructor
  · rintro ⟨other, sameOut, conservative⟩
    rw [out] at sameOut
    rw [List.append_cancel_left sameOut]
    exact conservative
  · exact fun conservative => ⟨added, out, conservative⟩

end Added

namespace Completion

theorem enabledTogether_map_copied {tiosts : TIOSTS} {transitions : List Transition} :
    EnabledTogether possible (transitions.map tiosts.copied) ↔
      EnabledTogether possible transitions := by
  unfold EnabledTogether
  simp only [List.forall_mem_map, TIOSTS.copied_actionName, copied_enabled]

theorem Completes.conservative_iff {actions : List Action}
    {before loops more : List Transition} (completes : Completes actions before loops more) :
    Conservative possible before (loops ++ more) ↔ EnabledTogether possible before := by
  rw [conservative_append]
  constructor
  · rintro ⟨_, conservative⟩ transition member other otherMember name atoms clocks inside enabled
    by_contra disabled
    rcases completes.partners transition (List.mem_append_left _ member) with
      unguarded | ⟨partner, inMore, opposes⟩
    · obtain ⟨dataTrue, noClocks⟩ := (getAllGuard_eq_true_iff transition).mp unguarded
      apply disabled
      constructor
      · rw [dataTrue]
        exact Formula.holds_true
      · rw [noClocks]
        exact empty_holds clocks
    · apply conservative partner inMore other otherMember _ atoms clocks inside _ enabled
      · rw [opposes.action, name]
      · exact (opposes.enabled atoms clocks).mpr disabled
  · intro together
    constructor
    · apply conservative_of_unnamed
      intro loop inLoops
      exact ((completes.missing loop.action).mp (List.mem_map_of_mem inLoops)).2
    · intro partner inMore other otherMember name atoms clocks inside enabled otherEnabled
      obtain ⟨transition, listed, guarded, opposes⟩ := completes.origins partner inMore
      rcases List.mem_append.mp listed with inBefore | inLoops
      · apply (opposes.enabled atoms clocks).mp enabled
        apply together transition inBefore other otherMember _ atoms clocks inside otherEnabled
        rw [← name, opposes.action]
      · exact guarded (completes.unguarded transition inLoops)

/-- A completed test purpose is conservative exactly if transitions on one action that
leave an ordinary location are enabled under the same valuations. -/
theorem IsCompletion.isConservative_iff {order : IterationOrder} {tiosts completed : TIOSTS}
    (isCompletion : IsCompletion order tiosts completed) :
    IsConservative possible order tiosts completed ↔ ∀ label, tiosts.IsRegistered label →
      label ≠ Constants.locationLabelAccept → label ≠ Constants.locationLabelReject →
        tiosts.isInitial label = false → EnabledTogether possible (tiosts.leaving order label) := by
  have special : ∀ label location, completed.getLocation label = some location →
      (location.isSpecialLocation = true ↔
        label = Constants.locationLabelAccept ∨ label = Constants.locationLabelReject) := by
    intro label location found
    rw [isSpecialLocation_eq (isCompletion.wellFormed.label_eq found), Bool.or_eq_true,
      beq_iff_eq, beq_iff_eq]
  have flagged : ∀ label location, completed.getLocation label = some location →
      location.isInitialLocation = tiosts.isInitial label := by
    intro label location found
    rw [← isInitial_eq found, isCompletion.isInitial]
  constructor
  · intro conservative label registered notAccept notReject notInitial
    have inCompleted := (isCompletion.isRegistered label).mpr (Or.inr registered)
    obtain ⟨location, found⟩ := (completed.isRegistered_iff label).mp inCompleted
    obtain ⟨loops, more, out, each⟩ := isCompletion.completedAt label inCompleted
    have notSpecial : location.isSpecialLocation = false := by
      rw [Bool.eq_false_iff, Ne, special label location found]
      exact not_or.mpr ⟨notAccept, notReject⟩
    have completes := (each location found).1 notSpecial
      ((flagged label location found).trans notInitial)
    rw [copiedTransitions_leaving] at out completes
    have holds := (conservative_of_out out).mp (conservative label inCompleted)
    rw [← enabledTogether_map_copied, ← completes.conservative_iff, conservative_map_copied]
    exact holds
  · intro together label inCompleted
    obtain ⟨location, found⟩ := (completed.isRegistered_iff label).mp inCompleted
    obtain ⟨loops, more, out, each⟩ := isCompletion.completedAt label inCompleted
    obtain ⟨completes, untouched⟩ := each location found
    rw [copiedTransitions_leaving] at out completes
    apply (conservative_of_out out).mpr
    by_cases special' : location.isSpecialLocation = true
    · rw [untouched (Or.inl special')]
      exact conservative_nil
    · by_cases initial : location.isInitialLocation = true
      · rw [untouched (Or.inr initial)]
        exact conservative_nil
      · obtain ⟨notAccept, notReject⟩ := not_or.mp
          ((not_congr (special label location found)).mp special')
        have registered := ((isCompletion.isRegistered label).mp inCompleted).resolve_left
          notReject
        have notInitial : tiosts.isInitial label = false := by
          rw [← flagged label location found]
          simpa using initial
        rw [← conservative_map_copied, (completes (by simpa using special')
          (by simpa using initial)).conservative_iff, enabledTogether_map_copied]
        exact together label registered notAccept notReject notInitial

end Completion

namespace InputCompletion

theorem inputsOverlap_map_copied {tiosts : TIOSTS} {transitions : List Transition} :
    InputsOverlap possible (transitions.map tiosts.copied) ↔
      InputsOverlap possible transitions := by
  have guards : ∀ transition (clocks : String → ℝ),
      (tiosts.copied transition).clockGuard.holds clocks ↔
        transition.clockGuard.holds clocks :=
    fun transition clocks => ClockGuard.holds_renumber _ _ _
  have data : ∀ transition, (tiosts.copied transition).dataGuard = transition.dataGuard :=
    fun _ => rfl
  unfold InputsOverlap
  simp only [List.forall_mem_map, TIOSTS.copied_actionName, TIOSTS.copied_actionType,
    copied_enabled, guards, data]

/-- Partners of all negated transitions among the originals and others without guards. -/
theorem conservative_partners_iff {originals before more : List Transition}
    (included : ∀ transition ∈ originals, transition ∈ before)
    (others : ∀ transition ∈ before, transition ∈ originals ∨
      transition.getAllGuard = Constants.guardTrue)
    (partners : ∀ transition ∈ before, IsNegated transition →
      ∃ partner ∈ more, Opposes partner transition)
    (origins : ∀ partner ∈ more, ∃ transition ∈ before, IsNegated transition ∧
      Opposes partner transition) :
    Conservative possible originals more ↔ InputsOverlap possible originals := by
  constructor
  · intro conservative transition member type other otherMember name atoms clocks inside enabled
    by_cases unguarded : transition.getAllGuard = Constants.guardTrue
    · exact Or.inl (enabled_of_unguarded unguarded atoms clocks).1
    · obtain ⟨partner, inMore, opposes⟩ :=
        partners transition (included transition member) ⟨unguarded, type⟩
      by_contra neither
      apply conservative partner inMore other otherMember _ atoms clocks inside _ enabled
      · rw [opposes.action, name]
      · exact (opposes.enabled atoms clocks).mpr (not_or.mp neither)
  · intro overlap partner inMore other otherMember name atoms clocks inside enabled otherEnabled
    obtain ⟨transition, inBefore, negated, opposes⟩ := origins partner inMore
    have original := (others transition inBefore).resolve_right negated.1
    apply not_or.mpr ((opposes.enabled atoms clocks).mp enabled)
    apply overlap transition original negated.2 other otherMember _ atoms clocks inside
      otherEnabled
    rw [← name, opposes.action]

theorem InputCompletes.conservative_iff {inputs : List Action}
    {before loops more : List Transition}
    (completes : InputCompletes inputs before loops more) :
    Conservative possible before (loops ++ more) ↔ InputsOverlap possible before := by
  have unnamed : Conservative possible before loops := by
    apply conservative_of_unnamed
    intro loop inLoops
    exact ((completes.absent loop.action).mp (List.mem_map_of_mem inLoops)).2
  rw [conservative_append, and_iff_right unnamed]
  apply conservative_partners_iff _ _ completes.partners completes.origins
  · exact fun transition member => List.mem_append_left _ member
  · intro transition member
    rcases List.mem_append.mp member with inBefore | inLoops
    · exact Or.inl inBefore
    · exact Or.inr (completes.unguarded transition inLoops)

/-- No transition with one of the actions is ever enabled. -/
def NeverEnabled (possible : Valuations) (actions : List Action)
    (transitions : List Transition) : Prop :=
  ∀ action ∈ actions, ∀ transition ∈ transitions, action.name = transition.action.name →
    ∀ atoms clocks, possible atoms clocks → ¬ transition.Enabled atoms clocks

theorem conservative_accepting_iff {actions : List Action}
    {originals loops : List Transition} (carried : loops.map Transition.action = actions)
    (unguarded : ∀ loop ∈ loops, loop.getAllGuard = Constants.guardTrue) :
    Conservative possible originals loops ↔ NeverEnabled possible actions originals := by
  subst carried
  constructor
  · intro conservative action member transition original name atoms clocks inside
    obtain ⟨loop, inLoops, rfl⟩ := List.mem_map.mp member
    apply conservative loop inLoops transition original name atoms clocks inside
    exact enabled_of_unguarded (unguarded loop inLoops) atoms clocks
  · intro never loop inLoops transition original name atoms clocks inside _
    exact never loop.action (List.mem_map_of_mem inLoops) transition original name atoms clocks
      inside

theorem neverEnabled_map_copied {tiosts : TIOSTS} {actions : List Action}
    {transitions : List Transition} :
    NeverEnabled possible actions (transitions.map tiosts.copied) ↔
      NeverEnabled possible actions transitions := by
  unfold NeverEnabled
  simp only [List.forall_mem_map, TIOSTS.copied_actionName, copied_enabled]

/-- The location where everything is accepted, completed once more. -/
theorem InputCompletes.conservative_accepting_iff {inputs actions : List Action}
    {originals accepting loops more : List Transition}
    (carried : accepting.map Transition.action = actions)
    (unguarded : ∀ loop ∈ accepting, loop.getAllGuard = Constants.guardTrue)
    (completes : InputCompletes inputs (originals ++ accepting) loops more) :
    Conservative possible originals (accepting ++ (loops ++ more)) ↔
      NeverEnabled possible actions originals ∧ InputsOverlap possible originals := by
  have unnamed : Conservative possible originals loops := by
    apply conservative_of_unnamed
    intro loop inLoops transition original
    exact ((completes.absent loop.action).mp (List.mem_map_of_mem inLoops)).2 transition
      (List.mem_append_left _ original)
  rw [conservative_append, conservative_append, and_iff_right unnamed,
    InputCompletion.conservative_accepting_iff carried unguarded]
  apply and_congr_right'
  apply conservative_partners_iff _ _ completes.partners completes.origins
  · exact fun transition member =>
      List.mem_append_left _ (List.mem_append_left _ member)
  · intro transition member
    rcases List.mem_append.mp member with earlier | inLoops
    · rcases List.mem_append.mp earlier with original | inAccepting
      · exact Or.inl original
      · exact Or.inr (unguarded transition inAccepting)
    · exact Or.inr (completes.unguarded transition inLoops)

theorem complete_isConservative_iff {order : IterationOrder} {tiosts completed : TIOSTS}
    (wellFormed : tiosts.WellFormed) (balanced : tiosts.BalancedGuards)
    (returned : complete order tiosts = .ok completed) :
    IsConservative possible order tiosts completed ↔
      (∀ label, tiosts.isInitial label = false →
        InputsOverlap possible (tiosts.leaving order label)) ∧
      NeverEnabled possible tiosts.getInputOutputActions
        (tiosts.leaving order Constants.locationLabelDontCare) := by
  obtain ⟨start, isStart, runs⟩ := exists_start order wellFormed
  rw [runs] at returned
  have upTo := completed_returned isStart balanced returned
  obtain ⟨accepting, acceptingOut, carried, unguarded⟩ := isStart.accepting
  rw [copiedTransitions_leaving] at acceptingOut
  have completedAt : ∀ label, start.IsRegistered label → ∃ loops more,
      completed.outOf label = start.outOf label ++ (loops ++ more) ∧
        (tiosts.isInitial label = false →
          InputCompletes start.inputActions (start.outOf label) loops more) ∧
        (tiosts.isInitial label = true → loops ++ more = []) := by
    intro label registered
    rw [← isStart.isInitial]
    apply upTo.complete
    exact (order.arrange_perm _).mem_iff.mpr (AList.mem_keys.mp registered)
  have ordinary : ∀ label, start.IsRegistered label →
      label ≠ Constants.locationLabelDontCare →
        ((∃ added, completed.outOf label =
          (tiosts.leaving order label).map tiosts.copied ++ added ∧
            Conservative possible (tiosts.leaving order label) added) ↔
          (tiosts.isInitial label = false →
            InputsOverlap possible (tiosts.leaving order label))) := by
    intro label registered different
    obtain ⟨loops, more, out, completes, untouched⟩ := completedAt label registered
    rw [isStart.outOf label different, copiedTransitions_leaving] at out completes
    rw [conservative_of_out out]
    by_cases initial : tiosts.isInitial label = true
    · rw [untouched initial]
      apply iff_of_true conservative_nil
      intro notInitial
      rw [initial] at notInitial
      cases notInitial
    · have notInitial : tiosts.isInitial label = false := by simpa using initial
      rw [← conservative_map_copied, (completes notInitial).conservative_iff,
        inputsOverlap_map_copied, imp_iff_right notInitial]
  have everything : (∃ added, completed.outOf Constants.locationLabelDontCare =
      (tiosts.leaving order Constants.locationLabelDontCare).map tiosts.copied ++ added ∧
        Conservative possible (tiosts.leaving order Constants.locationLabelDontCare) added) ↔
      (tiosts.isInitial Constants.locationLabelDontCare = false →
        InputsOverlap possible (tiosts.leaving order Constants.locationLabelDontCare)) ∧
      NeverEnabled possible tiosts.getInputOutputActions
        (tiosts.leaving order Constants.locationLabelDontCare) := by
    obtain ⟨loops, more, out, completes, untouched⟩ :=
      completedAt _ ((isStart.isRegistered _).mpr (Or.inl rfl))
    rw [acceptingOut] at out completes
    rw [List.append_assoc] at out
    rw [conservative_of_out out]
    by_cases initial : tiosts.isInitial Constants.locationLabelDontCare = true
    · rw [untouched initial, List.append_nil,
        InputCompletion.conservative_accepting_iff carried unguarded]
      simp [initial]
    · have notInitial : tiosts.isInitial Constants.locationLabelDontCare = false := by
        simpa using initial
      rw [← conservative_map_copied,
        (completes notInitial).conservative_accepting_iff carried unguarded,
        neverEnabled_map_copied, inputsOverlap_map_copied, imp_iff_right notInitial, and_comm]
  constructor
  · intro conservative
    have atEverything := everything.mp (conservative _ ((upTo.isRegistered _).mpr
      ((isStart.isRegistered _).mpr (Or.inl rfl))))
    refine ⟨?_, atEverything.2⟩
    intro label notInitial
    by_cases isEverything : label = Constants.locationLabelDontCare
    · subst isEverything
      exact atEverything.1 notInitial
    · by_cases registered : start.IsRegistered label
      · exact (ordinary label registered isEverything).mp
          (conservative label ((upTo.isRegistered label).mpr registered)) notInitial
      · intro transition member
        obtain ⟨listed, source⟩ := List.mem_filter.mp member
        obtain ⟨key, found⟩ := (TIOSTS.mem_getTransitions order tiosts).mp listed
        have inModel := TIOSTS.isRegistered_of_mem_outOf (wellFormed.stored found).2
        rw [← of_decide_eq_true source] at inModel
        exact absurd ((isStart.isRegistered label).mpr (Or.inr inModel)) registered
  · rintro ⟨overlap, never⟩ label inCompleted
    have registered := (upTo.isRegistered label).mp inCompleted
    by_cases isEverything : label = Constants.locationLabelDontCare
    · subst isEverything
      exact everything.mpr ⟨overlap _, never⟩
    · exact (ordinary label registered isEverything).mpr (overlap label)

end InputCompletion

namespace ConservationInstance

def order : IterationOrder := ⟨id, IterationOrder.id_perm⟩

def press : Action := ⟨"press", .input, []⟩

def early : ClockGuard := ⟨[⟨1, "x", .lt, "5", isName_x, isNumeral_five⟩]⟩

def late : ClockGuard := ⟨[⟨1, "x", .geq, "5", isName_x, isNumeral_five⟩]⟩

def declared : TIOSTS :=
  .declare "M" [⟨"i", .internal, []⟩, press] [⟨"k", .integer⟩] [] ["x"]

/-- A model whose input has the given transitions. -/
def model (pressed : List Transition) : TIOSTS :=
  .assemble declared ["s", "a", "b", "c"] "s" (.bare "s" ⟨"i", .internal, []⟩ "a" :: pressed)

/-- Early presses only. -/
def single : List Transition := [{ Transition.bare "a" press "b" with clockGuard := early }]

/-- Early presses lead elsewhere than late ones. -/
def split : List Transition :=
  single ++ [{ Transition.bare "a" press "c" with clockGuard := late }]

/-- One of two transitions has no guard. -/
def overlapping : List Transition :=
  [{ Transition.bare "a" press "b" with dataGuard := .written "k > 3", clockGuard := early },
    .bare "a" press "c"]

theorem model_wellFormed {pressed : List Transition}
    (uses : declared.Uses ["s", "a", "b", "c"] "s"
      (.bare "s" ⟨"i", .internal, []⟩ "a" :: pressed)) : (model pressed).WellFormed :=
  TIOSTS.assemble_wellFormed (TIOSTS.declare_isBlank _ _ _ _ _) uses

/-- The documented assumptions, checked on the given transitions. -/
def Checked (transition : Transition) : Prop :=
  (transition.dataGuard.text = Constants.guardTrue ∨
    transition.clockGuard = ClockGuard.empty) ∧
  transition.clockGuard.clockGuard.length ≤ 1 ∧
  (∀ simple ∈ transition.clockGuard.clockGuard, simple.relation.IsNegatable) ∧
  Formula.BalancedText transition.dataGuard.text

instance (transition : Transition) : Decidable (Checked transition) :=
  inferInstanceAs (Decidable (_ ∧ _ ∧ _ ∧ _))

theorem model_isCompletable {pressed : List Transition}
    (uses : declared.Uses ["s", "a", "b", "c"] "s"
      (.bare "s" ⟨"i", .internal, []⟩ "a" :: pressed))
    (each : ∀ transition ∈ (.bare "s" ⟨"i", .internal, []⟩ "a" :: pressed),
      Checked transition) : (model pressed).IsCompletable := by
  have blank : declared.IsBlank := TIOSTS.declare_isBlank _ _ _ _ _
  intro label transition member
  rw [model, TIOSTS.assemble_outOf blank uses] at member
  obtain ⟨oneTrue, oneConstraint, negatable, balanced⟩ :=
    each transition (List.mem_filter.mp member).1
  exact ⟨oneTrue, oneConstraint, negatable, balanced⟩

theorem model_balanced {pressed : List Transition}
    (uses : declared.Uses ["s", "a", "b", "c"] "s"
      (.bare "s" ⟨"i", .internal, []⟩ "a" :: pressed))
    (each : ∀ transition ∈ (.bare "s" ⟨"i", .internal, []⟩ "a" :: pressed),
      Formula.BalancedText transition.dataGuard.text) : (model pressed).BalancedGuards := by
  have blank : declared.IsBlank := TIOSTS.declare_isBlank _ _ _ _ _
  intro label transition member
  rw [model, TIOSTS.assemble_outOf blank uses] at member
  exact each transition (List.mem_filter.mp member).1

theorem single_leaving {label : String} {transition other : Transition}
    (member : transition ∈ (model single).leaving order label)
    (otherMember : other ∈ (model single).leaving order label) : transition = other := by
  have listed : ∀ one ∈ (model single).getTransitions order,
      ∀ two ∈ (model single).getTransitions order, one.source = two.source → one = two := by
    decide
  obtain ⟨inModel, source⟩ := List.mem_filter.mp member
  obtain ⟨otherInModel, otherSource⟩ := List.mem_filter.mp otherMember
  apply listed transition inModel other otherInModel
  exact (of_decide_eq_true source).symm.trans (of_decide_eq_true otherSource)

theorem late_not_early {clocks : String → ℝ} (isLate : late.holds clocks) :
    ¬ early.holds clocks := by
  intro isEarly
  have above := isLate _ (List.mem_singleton.mpr rfl)
  have below := isEarly _ (List.mem_singleton.mpr rfl)
  exact absurd (lt_of_lt_of_le below above) (lt_irrefl _)

end ConservationInstance

end Symbolrt
