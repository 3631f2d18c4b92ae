import Symbolrt.Base.Assembly
import Symbolrt.Base.Copies
import Symbolrt.Algorithms.Completion

/-!
# What a completed test purpose covers

At every ordinary location of a completed test purpose, whatever the valuation,
some transition is enabled for every action that leaves the location, and every
input and output action leaves it.
-/

namespace Symbolrt

/-- Data guards are read as formulas over the atomic formulas a valuation satisfies,
clock guards over the clocks by name. -/
def Transition.Enabled (atoms : List String → Prop) (clocks : String → ℝ)
    (transition : Transition) : Prop :=
  Formula.holds atoms transition.dataGuard.text ∧ transition.clockGuard.holds clocks

/-- The documented assumptions on a transition of a test purpose; its data guard is a
formula whose parentheses match. -/
structure Transition.IsCompletable (transition : Transition) : Prop where
  oneTrue : transition.dataGuard.text = Constants.guardTrue ∨
    transition.clockGuard = ClockGuard.empty
  oneConstraint : transition.clockGuard.clockGuard.length ≤ 1
  negatable : ∀ simple ∈ transition.clockGuard.clockGuard, simple.relation.IsNegatable
  balanced : Formula.BalancedText transition.dataGuard.text

/-- Every guard of the model has a negation. -/
def TIOSTS.IsCompletable (model : TIOSTS) : Prop :=
  ∀ label, ∀ transition ∈ model.outOf label, transition.IsCompletable

/-- Under every valuation some transition with the action name is enabled. -/
def CoversAction (transitions : List Transition) (name : String) : Prop :=
  ∀ atoms clocks, ∃ transition ∈ transitions, transition.action.name = name ∧
    transition.Enabled atoms clocks

namespace Completion

theorem negateClockGuard_ok {guard : ClockGuard} (nonempty : guard ≠ ClockGuard.empty)
    (oneConstraint : guard.clockGuard.length ≤ 1)
    (negatable : ∀ simple ∈ guard.clockGuard, simple.relation.IsNegatable) :
    ∃ negated, negateClockGuard guard = .ok negated ∧
      ∀ clocks, negated.holds clocks ↔ ¬ guard.holds clocks := by
  obtain ⟨guards⟩ := guard
  match guards, nonempty, oneConstraint with
  | [], nonempty, _ => exact absurd rfl nonempty
  | first :: second :: rest, _, oneConstraint =>
      simp only [List.length_cons] at oneConstraint
      omega
  | [simple], _, _ =>
      have isNegatable := negatable simple (by simp)
      cases relation : simple.relation with
      | equal => exact absurd (relation ▸ isNegatable) (by decide)
      | unsupported signs =>
          rw [relation] at isNegatable
          simp [Relation.IsNegatable] at isNegatable
      | lt =>
          refine ⟨⟨[{ simple with relation := .geq }]⟩, by simp [negateClockGuard, relation], ?_⟩
          intro clocks
          simp [ClockGuard.holds, SimpleClockGuard.holds, Relation.holds, relation]
      | leq =>
          refine ⟨⟨[{ simple with relation := .gt }]⟩, by simp [negateClockGuard, relation], ?_⟩
          intro clocks
          simp [ClockGuard.holds, SimpleClockGuard.holds, Relation.holds, relation]
      | geq =>
          refine ⟨⟨[{ simple with relation := .lt }]⟩, by simp [negateClockGuard, relation], ?_⟩
          intro clocks
          simp [ClockGuard.holds, SimpleClockGuard.holds, Relation.holds, relation]
      | gt =>
          refine ⟨⟨[{ simple with relation := .leq }]⟩, by simp [negateClockGuard, relation], ?_⟩
          intro clocks
          simp [ClockGuard.holds, SimpleClockGuard.holds, Relation.holds, relation]

theorem empty_holds (clocks : String → ℝ) : ClockGuard.empty.holds clocks := by
  intro simple member
  cases member

theorem getAllGuard_eq_true_iff (transition : Transition) :
    transition.getAllGuard = Constants.guardTrue ↔
      transition.dataGuard.text = Constants.guardTrue ∧
        transition.clockGuard = ClockGuard.empty := by
  unfold Transition.getAllGuard
  by_cases clockTrue : transition.clockGuard.toString = Constants.guardTrue
  · rw [if_pos clockTrue]
    simp [(ClockGuard.toString_eq_true_iff _).mp clockTrue]
  · have nonempty : transition.clockGuard ≠ ClockGuard.empty := fun same =>
      clockTrue ((ClockGuard.toString_eq_true_iff _).mpr same)
    rw [if_neg clockTrue]
    by_cases dataTrue : transition.dataGuard.text = Constants.guardTrue
    · rw [if_pos dataTrue]
      simp [clockTrue, nonempty]
    · rw [if_neg dataTrue]
      simp only [dataTrue, false_and, iff_false]
      intro same
      have space : ' ' ∈ (transition.dataGuard.text ++ " " ++ Constants.guardConjunction ++
          " " ++ transition.clockGuard.toString).toList := by simp
      rw [same] at space
      exact absurd space (by decide)

/-- The negated guards hold exactly where the guards do not. -/
theorem negatedGuards_ok {transition : Transition}
    (completable : transition.IsCompletable) :
    ∃ dataGuard clockGuard, negatedGuards transition = .ok (dataGuard, clockGuard) ∧
      ∀ atoms clocks, (Formula.holds atoms dataGuard.text ∧ clockGuard.holds clocks) ↔
        ¬ transition.Enabled atoms clocks := by
  by_cases noClocks : transition.clockGuard = ClockGuard.empty
  · refine ⟨.written (Constants.guardNegation ++ " (" ++ transition.dataGuard.text ++ ")"),
      ClockGuard.empty, ?_, ?_⟩
    · unfold negatedGuards
      rw [if_pos ((ClockGuard.toString_eq_true_iff _).mpr noClocks)]
    · intro atoms clocks
      have negated : Formula.holds atoms
          (Constants.guardNegation ++ " (" ++ transition.dataGuard.text ++ ")") ↔
          ¬ Formula.holds atoms transition.dataGuard.text :=
        Formula.holds_negation completable.balanced
      simp only [DataGuard.text_written, negated, Transition.Enabled, noClocks, empty_holds,
        and_true]
  · obtain ⟨clockGuard, negated, meaning⟩ := negateClockGuard_ok noClocks
      completable.oneConstraint completable.negatable
    have dataTrue : transition.dataGuard.text = Constants.guardTrue :=
      completable.oneTrue.resolve_right noClocks
    refine ⟨.constantTrue, clockGuard, ?_, ?_⟩
    · unfold negatedGuards
      rw [if_neg (fun same => noClocks ((ClockGuard.toString_eq_true_iff _).mp same)),
        negated, ok_bind]
      rfl
    · intro atoms clocks
      have trueHolds : Formula.holds atoms Constants.guardTrue := Formula.holds_true
      simp only [Transition.Enabled, dataTrue, DataGuard.text_constantTrue, trueHolds, meaning,
        true_and]

/-- The model after transitions have been added to one location. -/
structure GrownAt (label : String) (base : TIOSTS) (added : List Transition)
    (model : TIOSTS) : Prop where
  wellFormed : model.WellFormed
  alphabet : model.toAlphabet = base.toAlphabet
  isRegistered : ∀ other, model.IsRegistered other ↔ base.IsRegistered other
  isInitialLocation : ∀ other location, model.getLocation other = some location →
    ∃ before, base.getLocation other = some before ∧
      location.isInitialLocation = before.isInitialLocation
  outOf : ∀ other, model.outOf other =
    if other = label then base.outOf label ++ added else base.outOf other

theorem GrownAt.refl {base : TIOSTS} (wellFormed : base.WellFormed) (label : String) :
    GrownAt label base [] base where
  wellFormed := wellFormed
  alphabet := rfl
  isRegistered := fun _ => Iff.rfl
  isInitialLocation := fun _ location found => ⟨location, found, rfl⟩
  outOf := by
    intro other
    by_cases same : other = label <;> simp [same]

theorem GrownAt.add {label : String} {base model next : TIOSTS} {added : List Transition}
    (grown : GrownAt label base added model) {transition : Transition}
    (nextWellFormed : next.WellFormed) (grows : model.Extends transition next)
    (source : transition.source = label) :
    GrownAt label base (added ++ [transition]) next where
  wellFormed := nextWellFormed
  alphabet := grows.alphabet.trans grown.alphabet
  isRegistered := fun other => (grows.isRegistered other).trans (grown.isRegistered other)
  isInitialLocation := by
    intro other location found
    rw [grows.getLocation] at found
    obtain ⟨before, beforeFound, rfl⟩ := Option.map_eq_some_iff.mp found
    rw [TIOSTS.link_isInitialLocation]
    exact grown.isInitialLocation other before beforeFound
  outOf := by
    intro other
    rw [grows.outOf, grown.outOf, source]
    by_cases same : other = label <;> simp [same]

section Location

variable {base : TIOSTS} {label : String}

theorem addSelfLoop_ok {model : TIOSTS} {added : List Transition}
    (grown : GrownAt label base added model) (registered : base.IsRegistered label)
    {action : Action} (member : action ∈ base.actionsOf action.type) :
    ∃ loop next, addSelfLoop label model action = .ok next ∧
      GrownAt label base (added ++ [loop]) next ∧ loop.action = action ∧
      loop.getAllGuard = Constants.guardTrue := by
  have here := (grown.isRegistered label).mpr registered
  have declared : ∃ other, model.getAction action.type action.name = some other := by
    apply TIOSTS.exists_getAction
    rw [TIOSTS.actionsOf_eq_of_alphabet grown.alphabet]
    exact member
  obtain ⟨next, created, nextWellFormed, grows⟩ := grown.wellFormed.createTransitionFromText
    ⟨label, .constantTrue, ClockGuard.empty, action, none, none,
      Transition.defaultDeadline action, label⟩ here here declared
  exact ⟨_, next, created, grown.add nextWellFormed grows rfl, rfl, rfl⟩

/-- Self-loops are added for exactly the given actions. -/
theorem foldlM_addSelfLoop (wellFormed : base.WellFormed)
    (registered : base.IsRegistered label) {actions : List Action}
    (members : ∀ action ∈ actions, action ∈ base.actionsOf action.type) :
    ∃ loops next, actions.foldlM (addSelfLoop label) base = .ok next ∧
      GrownAt label base loops next ∧ loops.map Transition.action = actions ∧
      ∀ loop ∈ loops, loop.getAllGuard = Constants.guardTrue := by
  let invariant := fun (done : List Action) (model : TIOSTS) => ∃ loops,
    GrownAt label base loops model ∧ loops.map Transition.action = done ∧
      ∀ loop ∈ loops, loop.getAllGuard = Constants.guardTrue
  have start : invariant [] base := ⟨[], GrownAt.refl wellFormed label, rfl, by simp⟩
  have body : ∀ done action rest model, actions = done ++ action :: rest →
      invariant done model → ∃ next, addSelfLoop label model action = .ok next ∧
        invariant (done ++ [action]) next := by
    rintro done action rest model whole ⟨loops, grown, carried, unguarded⟩
    obtain ⟨loop, next, added, nextGrown, own, loopTrue⟩ :=
      addSelfLoop_ok grown registered (members action (by simp [whole]))
    refine ⟨next, added, loops ++ [loop], nextGrown, ?_, ?_⟩
    · rw [List.map_append, carried, List.map_singleton, own]
    · intro other member
      rcases List.mem_append.mp member with old | new
      · exact unguarded other old
      · rw [List.mem_singleton.mp new]
        exact loopTrue
  obtain ⟨next, returned, loops, grown, carried, unguarded⟩ :=
    Loops.foldlM_returns invariant start body
  exact ⟨loops, next, returned, grown, carried, unguarded⟩

/-- The partner has the action and is enabled exactly where the transition is not. -/
structure Opposes (partner transition : Transition) : Prop where
  action : partner.action = transition.action
  enabled : ∀ atoms clocks, partner.Enabled atoms clocks ↔ ¬ transition.Enabled atoms clocks

theorem opposes_of_negated {transition : Transition} {dataGuard : DataGuard}
    {clockGuard : ClockGuard}
    (meaning : ∀ atoms clocks, (Formula.holds atoms dataGuard.text ∧ clockGuard.holds clocks) ↔
      ¬ transition.Enabled atoms clocks) (source target : String) (allClocks : List String) :
    Opposes ⟨source, dataGuard, clockGuard.renumber allClocks, transition.action, none, none,
      transition.deadline, target⟩ transition := by
  constructor
  · rfl
  · intro atoms clocks
    rw [← meaning]
    exact and_congr_right' (by rw [ClockGuard.holds_renumber])

/-- Guarded transitions get a partner that opposes them. -/
def HasPartner (added : List Transition) (transition : Transition) : Prop :=
  transition.getAllGuard = Constants.guardTrue ∨ ∃ partner ∈ added, Opposes partner transition

/-- Only guarded transitions get a partner. -/
def IsPartner (transitions : List Transition) (partner : Transition) : Prop :=
  ∃ transition ∈ transitions, transition.getAllGuard ≠ Constants.guardTrue ∧
    Opposes partner transition

theorem addNegation_ok {model : TIOSTS} {added : List Transition}
    (grown : GrownAt label base added model) (registered : base.IsRegistered label)
    (rejectRegistered : base.IsRegistered Constants.locationLabelReject)
    {transition : Transition} (completable : transition.IsCompletable)
    (declared : ∃ action, base.getAction transition.action.type transition.action.name =
      some action) :
    ∃ more next, addNegation label model transition = .ok next ∧
      GrownAt label base (added ++ more) next ∧ HasPartner more transition ∧
      ∀ partner ∈ more, IsPartner [transition] partner := by
  by_cases unguarded : transition.getAllGuard = Constants.guardTrue
  · refine ⟨[], model, ?_, by simpa using grown, Or.inl unguarded, by simp⟩
    rw [addNegation, if_pos unguarded]
  · obtain ⟨dataGuard, clockGuard, negated, meaning⟩ := negatedGuards_ok completable
    have here := (grown.isRegistered label).mpr registered
    have targetRegistered : model.IsRegistered
        (if transition.target = Constants.locationLabelReject then label
          else Constants.locationLabelReject) := by
      split
      · exact here
      · exact (grown.isRegistered _).mpr rejectRegistered
    have declaredHere : ∃ other,
        model.getAction transition.action.type transition.action.name = some other := by
      unfold TIOSTS.getAction at declared ⊢
      rw [TIOSTS.actionsOf_eq_of_alphabet grown.alphabet]
      exact declared
    obtain ⟨next, created, nextWellFormed, grows⟩ :=
      grown.wellFormed.createTransitionFromText
        ⟨label, dataGuard, clockGuard, transition.action, none, none, transition.deadline,
          if transition.target = Constants.locationLabelReject then label
          else Constants.locationLabelReject⟩ here targetRegistered declaredHere
    have opposes := opposes_of_negated meaning label
      (if transition.target = Constants.locationLabelReject then label
        else Constants.locationLabelReject) model.clocks
    refine ⟨[_], next, ?_, grown.add nextWellFormed grows rfl, Or.inr ⟨_,
      List.mem_singleton.mpr rfl, opposes⟩, ?_⟩
    · rw [addNegation, if_neg unguarded, negated, ok_bind]
      exact created
    · intro partner member
      rw [List.mem_singleton.mp member]
      exact ⟨transition, List.mem_singleton.mpr rfl, unguarded, opposes⟩

theorem HasPartner.mono {added more : List Transition} {transition : Transition}
    (has : HasPartner added transition) (subset : ∀ partner ∈ added, partner ∈ more) :
    HasPartner more transition := by
  rcases has with unguarded | ⟨partner, member, opposes⟩
  · exact Or.inl unguarded
  · exact Or.inr ⟨partner, subset partner member, opposes⟩

/-- Every guarded transition of the list gets its partner, and no others are added. -/
theorem foldlM_addNegation {model : TIOSTS} {added transitions : List Transition}
    (grown : GrownAt label base added model) (registered : base.IsRegistered label)
    (rejectRegistered : base.IsRegistered Constants.locationLabelReject)
    (completable : ∀ transition ∈ transitions, transition.IsCompletable)
    (declared : ∀ transition ∈ transitions, ∃ action,
      base.getAction transition.action.type transition.action.name = some action) :
    ∃ more next, transitions.foldlM (addNegation label) model = .ok next ∧
      GrownAt label base (added ++ more) next ∧
      (∀ transition ∈ transitions, HasPartner more transition) ∧
      ∀ partner ∈ more, IsPartner transitions partner := by
  let invariant := fun (done : List Transition) (model : TIOSTS) => ∃ more,
    GrownAt label base (added ++ more) model ∧
      (∀ transition ∈ done, HasPartner more transition) ∧
      ∀ partner ∈ more, IsPartner transitions partner
  have start : invariant [] model := ⟨[], by simpa using grown, by simp, by simp⟩
  have body : ∀ done transition rest model, transitions = done ++ transition :: rest →
      invariant done model → ∃ next, addNegation label model transition = .ok next ∧
        invariant (done ++ [transition]) next := by
    rintro done transition rest model whole ⟨more, grown, partners, origins⟩
    have member : transition ∈ transitions := by simp [whole]
    obtain ⟨new, next, returned, nextGrown, hasPartner, newOrigins⟩ := addNegation_ok grown
      registered rejectRegistered (completable transition member)
      (declared transition member)
    refine ⟨next, returned, more ++ new, by simpa using nextGrown, ?_, ?_⟩
    · intro other otherMember
      rcases List.mem_append.mp otherMember with old | isNew
      · exact (partners other old).mono fun partner inMore => List.mem_append_left _ inMore
      · rw [List.mem_singleton.mp isNew]
        exact hasPartner.mono fun partner inNew => List.mem_append_right _ inNew
    · intro partner partnerMember
      rcases List.mem_append.mp partnerMember with old | isNew
      · exact origins partner old
      · obtain ⟨source, isSource, opposed⟩ := newOrigins partner isNew
        obtain rfl := List.mem_singleton.mp isSource
        exact ⟨source, member, opposed⟩
  obtain ⟨next, returned, more, nextGrown, partners, origins⟩ :=
    Loops.foldlM_returns invariant start body
  exact ⟨more, next, returned, nextGrown, partners, origins⟩

end Location

/-- What a location satisfies once it has been completed. -/
structure IsComplete (actions : List Action) (transitions : List Transition) : Prop where
  leaves : ∀ action ∈ actions, ∃ transition ∈ transitions,
    transition.action.name = action.name
  covers : ∀ transition ∈ transitions, CoversAction transitions transition.action.name

/-- What is added to a location: self-loops for the missing actions, and partners for the
guarded transitions. -/
structure Completes (actions : List Action) (before loops more : List Transition) : Prop where
  missing : ∀ action, action ∈ loops.map Transition.action ↔
    action ∈ actions ∧ ∀ transition ∈ before, transition.action.name ≠ action.name
  unguarded : ∀ loop ∈ loops, loop.getAllGuard = Constants.guardTrue
  partners : ∀ transition ∈ before ++ loops, HasPartner more transition
  origins : ∀ partner ∈ more, IsPartner (before ++ loops) partner

/-- Transitions together with partners for all of them leave no gap. -/
theorem Completes.isComplete {actions : List Action} {before loops more : List Transition}
    (completes : Completes actions before loops more) :
    IsComplete actions (before ++ (loops ++ more)) := by
  rw [← List.append_assoc]
  have original : ∀ transition ∈ before ++ loops,
      CoversAction (before ++ loops ++ more) transition.action.name := by
    intro transition member atoms clocks
    rcases completes.partners transition member with unguarded | ⟨partner, inMore, opposes⟩
    · obtain ⟨dataTrue, noClocks⟩ := (getAllGuard_eq_true_iff transition).mp unguarded
      refine ⟨transition, List.mem_append_left _ member, rfl, ?_, ?_⟩
      · rw [dataTrue]
        exact Formula.holds_true
      · rw [noClocks]
        exact empty_holds clocks
    · by_cases enabled : transition.Enabled atoms clocks
      · exact ⟨transition, List.mem_append_left _ member, rfl, enabled⟩
      · refine ⟨partner, List.mem_append_right _ inMore, ?_,
          (opposes.enabled atoms clocks).mpr enabled⟩
        rw [opposes.action]
  constructor
  · intro action member
    by_cases used : ∃ transition ∈ before, transition.action.name = action.name
    · obtain ⟨transition, inBefore, name⟩ := used
      exact ⟨transition, List.mem_append_left _ (List.mem_append_left _ inBefore), name⟩
    · have absent : action ∈ loops.map Transition.action := by
        apply (completes.missing action).mpr
        exact ⟨member, fun transition inBefore name => used ⟨transition, inBefore, name⟩⟩
      obtain ⟨loop, inLoops, rfl⟩ := List.mem_map.mp absent
      exact ⟨loop, List.mem_append_left _ (List.mem_append_right _ inLoops), rfl⟩
  · intro transition member
    rcases List.mem_append.mp member with inList | inMore
    · exact original transition inList
    · obtain ⟨source, inList, _, opposes⟩ := completes.origins transition inMore
      rw [opposes.action]
      exact original source inList

theorem mem_getRemainingActions {location : Location} {actions : List Action}
    {action : Action} : action ∈ getRemainingActions location actions ↔
      action ∈ actions ∧
        ∀ transition ∈ location.outTransitions, transition.action.name ≠ action.name := by
  unfold getRemainingActions
  rw [List.mem_filter]
  apply and_congr_right'
  simp only [Location.getOutActions, List.any_map, Action.equals, Function.comp_def,
    Bool.not_eq_true', List.any_eq_false, beq_iff_eq]
  constructor
  · exact fun unused transition member same => unused transition member same.symm
  · exact fun unused transition member same => unused transition member same.symm

theorem completeLocation_ok {base : TIOSTS} {label : String} (wellFormed : base.WellFormed)
    {location : Location} (found : base.getLocation label = some location)
    (rejectRegistered : base.IsRegistered Constants.locationLabelReject)
    (completable : ∀ transition ∈ base.outOf label, transition.IsCompletable) :
    ∃ loops more next, completeLocation base label = .ok next ∧
      GrownAt label base (loops ++ more) next ∧
      (location.isSpecialLocation = false → location.isInitialLocation = false →
        Completes base.getInputOutputActions (base.outOf label) loops more) ∧
      ((location.isSpecialLocation = true ∨ location.isInitialLocation = true) →
        loops ++ more = []) := by
  by_cases ordinary : !location.isSpecialLocation && !location.isInitialLocation
  · have registered : base.IsRegistered label :=
      (base.isRegistered_iff label).mpr ⟨location, found⟩
    have members : ∀ action ∈ getRemainingActions location base.getInputOutputActions,
        action ∈ base.actionsOf action.type := by
      intro action member
      rcases List.mem_append.mp (List.mem_filter.mp member).1 with input | output
      · rw [base.inputActions_type action input]
        exact input
      · rw [base.outputActions_type action output]
        exact output
    obtain ⟨loops, looped, loopsReturned, loopsGrown, carried, loopsTrue⟩ :=
      foldlM_addSelfLoop wellFormed registered members
    have snapshot : looped.outOf label = base.outOf label ++ loops := by
      rw [loopsGrown.outOf, if_pos rfl]
    obtain ⟨live, liveFound⟩ := (looped.isRegistered_iff label).mp
      ((loopsGrown.isRegistered label).mpr registered)
    have liveOut : live.outTransitions = base.outOf label ++ loops := by
      rw [← snapshot, TIOSTS.outOf_eq _ _ liveFound]
    have liveCompletable : ∀ transition ∈ live.outTransitions,
        transition.IsCompletable := by
      intro transition member
      rw [liveOut] at member
      rcases List.mem_append.mp member with old | loop
      · exact completable transition old
      · obtain ⟨dataTrue, noClocks⟩ :=
          (getAllGuard_eq_true_iff transition).mp (loopsTrue transition loop)
        constructor
        · exact Or.inl dataTrue
        · simp [noClocks, ClockGuard.empty]
        · simp [noClocks, ClockGuard.empty]
        · rw [dataTrue]
          decide
    have declared : ∀ transition ∈ live.outTransitions, ∃ action,
        base.getAction transition.action.type transition.action.name = some action := by
      intro transition member
      have inLooped : transition ∈ looped.outOf label := by
        rw [snapshot, ← liveOut]
        exact member
      have declaredLooped := loopsGrown.wellFormed.action_declared inLooped
      unfold TIOSTS.getAction at declaredLooped ⊢
      rw [← TIOSTS.actionsOf_eq_of_alphabet loopsGrown.alphabet]
      exact declaredLooped
    obtain ⟨more, next, returned, grown, partners, origins⟩ := foldlM_addNegation loopsGrown
      registered rejectRegistered liveCompletable declared
    rw [liveOut] at partners origins
    refine ⟨loops, more, next, ?_, grown, fun _ _ => ⟨?_, loopsTrue, partners, origins⟩, ?_⟩
    · rw [completeLocation, found, deref_some, ok_bind, if_pos ordinary, loopsReturned,
        ok_bind, liveFound, deref_some, ok_bind]
      exact returned
    · intro action
      rw [carried, TIOSTS.outOf_eq _ _ found]
      exact mem_getRemainingActions
    · rintro (special | initial)
      · simp [special] at ordinary
      · simp [initial] at ordinary
  · refine ⟨[], [], base, ?_, GrownAt.refl wellFormed label, ?_, fun _ => rfl⟩
    · rw [completeLocation, found, deref_some, ok_bind, if_neg ordinary]
      rfl
    · intro notSpecial notInitial
      simp [notSpecial, notInitial] at ordinary

/-- The location of the label had the transitions and has been dealt with. -/
def CompletedAt (actions : List Action) (model : TIOSTS) (label : String)
    (before : List Transition) : Prop :=
  ∃ loops more, model.outOf label = before ++ (loops ++ more) ∧
    ∀ location, model.getLocation label = some location →
      (location.isSpecialLocation = false → location.isInitialLocation = false →
        Completes actions before loops more) ∧
      ((location.isSpecialLocation = true ∨ location.isInitialLocation = true) →
        loops ++ more = [])

/-- The model after some of its locations have been completed. -/
structure CompletedUpTo (copy : TIOSTS) (done : List String) (model : TIOSTS) : Prop where
  wellFormed : model.WellFormed
  alphabet : model.toAlphabet = copy.toAlphabet
  isRegistered : ∀ label, model.IsRegistered label ↔ copy.IsRegistered label
  isInitialLocation : ∀ label location, model.getLocation label = some location →
    ∃ before, copy.getLocation label = some before ∧
      location.isInitialLocation = before.isInitialLocation
  pending : ∀ label, label ∉ done → model.outOf label = copy.outOf label
  complete : ∀ label ∈ done, CompletedAt copy.getInputOutputActions model label
    (copy.outOf label)

theorem isSpecialLocation_eq {location : Location} {label : String}
    (labelEq : location.label = label) :
    location.isSpecialLocation = (label == Constants.locationLabelAccept ||
      label == Constants.locationLabelReject) := by
  rw [← labelEq]
  rfl

theorem CompletedUpTo.step {copy model : TIOSTS} {done : List String} {label : String}
    (upTo : CompletedUpTo copy done model) (fresh : label ∉ done)
    (registered : copy.IsRegistered label)
    (rejectRegistered : copy.IsRegistered Constants.locationLabelReject)
    (completable : copy.IsCompletable) :
    ∃ next, completeLocation model label = .ok next ∧
      CompletedUpTo copy (done ++ [label]) next := by
  obtain ⟨location, found⟩ := (model.isRegistered_iff label).mp
    ((upTo.isRegistered label).mpr registered)
  have same : model.outOf label = copy.outOf label := upTo.pending label fresh
  obtain ⟨loops, more, next, returned, grown, completes, untouched⟩ :=
    completeLocation_ok upTo.wellFormed found
      ((upTo.isRegistered _).mpr rejectRegistered) (by rw [same]; exact completable label)
  have actions : model.getInputOutputActions = copy.getInputOutputActions := by
    rw [TIOSTS.getInputOutputActions, upTo.alphabet]
    rfl
  refine ⟨next, returned, ?_⟩
  constructor
  · exact grown.wellFormed
  · exact grown.alphabet.trans upTo.alphabet
  · exact fun other => (grown.isRegistered other).trans (upTo.isRegistered other)
  · intro other otherLocation otherFound
    obtain ⟨before, beforeFound, flag⟩ := grown.isInitialLocation other _ otherFound
    obtain ⟨original, originalFound, originalFlag⟩ :=
      upTo.isInitialLocation other before beforeFound
    exact ⟨original, originalFound, flag.trans originalFlag⟩
  · intro other notDone
    have different : other ≠ label := fun equal => notDone (by simp [equal])
    rw [grown.outOf, if_neg different]
    exact upTo.pending other (fun inDone => notDone (List.mem_append_left _ inDone))
  · intro other inDone
    by_cases isLabel : other = label
    · subst isLabel
      refine ⟨loops, more, ?_, ?_⟩
      · rw [grown.outOf, if_pos rfl, same]
      · intro otherLocation otherFound
        obtain ⟨before, beforeFound, flag⟩ := grown.isInitialLocation other _ otherFound
        rw [found] at beforeFound
        have special : otherLocation.isSpecialLocation = location.isSpecialLocation := by
          rw [isSpecialLocation_eq (grown.wellFormed.label_eq otherFound),
            isSpecialLocation_eq (upTo.wellFormed.label_eq found)]
        rw [special, flag, ← Option.some.inj beforeFound, ← same, ← actions]
        exact ⟨completes, untouched⟩
    · obtain ⟨loops, more, out, each⟩ := upTo.complete other (by simpa [isLabel] using inDone)
      refine ⟨loops, more, ?_, ?_⟩
      · rw [grown.outOf, if_neg isLabel]
        exact out
      · intro otherLocation otherFound
        obtain ⟨before, beforeFound, flag⟩ := grown.isInitialLocation other _ otherFound
        have special : otherLocation.isSpecialLocation = before.isSpecialLocation := by
          rw [isSpecialLocation_eq (grown.wellFormed.label_eq otherFound),
            isSpecialLocation_eq (upTo.wellFormed.label_eq beforeFound)]
        rw [special, flag]
        exact each before beforeFound

theorem copied_isCompletable {tiosts : TIOSTS} {transition : Transition}
    (completable : transition.IsCompletable) : (tiosts.copied transition).IsCompletable where
  oneTrue := by
    rcases completable.oneTrue with dataTrue | noClocks
    · exact Or.inl dataTrue
    · right
      rw [TIOSTS.copied, noClocks]
      rfl
  oneConstraint := by
    simpa [TIOSTS.copied, ClockGuard.renumber] using completable.oneConstraint
  negatable := by
    intro simple member
    obtain ⟨before, inGuard, rfl⟩ := List.mem_map.mp member
    exact completable.negatable before inGuard
  balanced := completable.balanced

/-- What is known about a completed test purpose: it has the locations of the original
and a rejecting one, and the ordinary ones among them are completed. -/
structure IsCompletion (order : IterationOrder) (tiosts completed : TIOSTS) : Prop where
  wellFormed : completed.WellFormed
  isRegistered : ∀ label, completed.IsRegistered label ↔
    label = Constants.locationLabelReject ∨ tiosts.IsRegistered label
  isInitialLocation : ∀ label original, tiosts.getLocation label = some original →
    ∃ location, completed.getLocation label = some location ∧
      location.isInitialLocation = original.isInitialLocation
  isInitial : ∀ label, completed.isInitial label = tiosts.isInitial label
  completedAt : ∀ label, completed.IsRegistered label →
    CompletedAt tiosts.getInputOutputActions completed label
      ((tiosts.copiedTransitions order).filter (fun transition => label = transition.source))

theorem IsCompletion.isComplete {order : IterationOrder} {tiosts completed : TIOSTS}
    (isCompletion : IsCompletion order tiosts completed) {label : String}
    {location : Location} (found : completed.getLocation label = some location)
    (notSpecial : location.isSpecialLocation = false)
    (notInitial : location.isInitialLocation = false) :
    IsComplete tiosts.getInputOutputActions (completed.outOf label) := by
  obtain ⟨loops, more, out, each⟩ := isCompletion.completedAt label
    ((completed.isRegistered_iff label).mpr ⟨location, found⟩)
  rw [out]
  exact ((each location found).1 notSpecial notInitial).isComplete

theorem isInitial_eq {model : TIOSTS} {label : String} {location : Location}
    (found : model.getLocation label = some location) :
    model.isInitial label = location.isInitialLocation := by
  rw [TIOSTS.isInitial, found]
  rfl

/-- A copy of the model with one more location, which is where both kinds of completion
start from. -/
structure ExtendsCopy (order : IterationOrder) (tiosts : TIOSTS) (added : String)
    (start : TIOSTS) : Prop where
  wellFormed : start.WellFormed
  isRegistered : ∀ label, start.IsRegistered label ↔
    label = added ∨ tiosts.IsRegistered label
  isInitial : ∀ label, start.isInitial label = tiosts.isInitial label
  outOf : ∀ label, start.outOf label = (tiosts.copiedTransitions order).filter
    (fun transition => label = transition.source)
  actionsOf : ∀ type, start.actionsOf type = tiosts.actionsOf type

theorem extendsCopy_of_exact {order : IterationOrder} {tiosts copy : TIOSTS}
    (isCopy : TIOSTS.IsExactCopy order tiosts copy) (name added : String) :
    ExtendsCopy order tiosts added
      ((copy.setName name).addLocation (Location.new added false)) where
  wellFormed := by
    have named : (copy.setName name).WellFormed :=
      ⟨isCopy.wellFormed.label_eq, isCopy.wellFormed.source_eq,
        isCopy.wellFormed.target_registered, isCopy.wellFormed.action_declared,
        isCopy.wellFormed.initial_registered, isCopy.wellFormed.stored⟩
    exact named.addLocation _ _
  isRegistered := by
    intro label
    rw [TIOSTS.isRegistered_addLocation, ← isCopy.isRegistered]
    rfl
  isInitial := by
    intro label
    have same : (copy.setName name).getLocation label = copy.getLocation label := rfl
    rw [← isCopy.isInitial, TIOSTS.isInitial, TIOSTS.getLocation_addLocation, same,
      TIOSTS.isInitial]
    split
    · cases copy.getLocation label <;> rfl
    · rfl
  outOf := by
    intro label
    rw [← isCopy.outOf, TIOSTS.outOf_addLocation]
    rfl
  actionsOf := by
    intro type
    rw [TIOSTS.addLocation_alphabet]
    exact isCopy.actionsOf type

theorem ExtendsCopy.getInputOutputActions {order : IterationOrder} {tiosts start : TIOSTS}
    {added : String} (extendsCopy : ExtendsCopy order tiosts added start) :
    start.getInputOutputActions = tiosts.getInputOutputActions :=
  congrArg₂ (· ++ ·) (extendsCopy.actionsOf .input) (extendsCopy.actionsOf .output)

theorem ExtendsCopy.exists_original {order : IterationOrder} {tiosts start : TIOSTS}
    {added label : String} (extendsCopy : ExtendsCopy order tiosts added start)
    (wellFormed : tiosts.WellFormed) {transition : Transition}
    (member : transition ∈ start.outOf label) :
    ∃ original ∈ tiosts.outOf transition.source, tiosts.copied original = transition := by
  rw [extendsCopy.outOf] at member
  obtain ⟨original, listed, rfl⟩ := List.mem_map.mp (List.mem_filter.mp member).1
  exact ⟨original, TIOSTS.mem_outOf_of_mem_getTransitions wellFormed listed, rfl⟩

theorem ExtendsCopy.isCompletable {order : IterationOrder} {tiosts start : TIOSTS}
    {added : String} (extendsCopy : ExtendsCopy order tiosts added start)
    (wellFormed : tiosts.WellFormed) (completable : tiosts.IsCompletable) :
    start.IsCompletable := by
  intro label transition member
  obtain ⟨original, stored, rfl⟩ := extendsCopy.exists_original wellFormed member
  exact copied_isCompletable (completable _ original stored)

theorem CompletedUpTo.isInitial {start completed : TIOSTS} {done : List String}
    (upTo : CompletedUpTo start done completed) (label : String) :
    completed.isInitial label = start.isInitial label := by
  cases found : completed.getLocation label with
  | none =>
      have missing : start.getLocation label = none := by
        apply Option.eq_none_iff_forall_ne_some.mpr
        intro location startFound
        obtain ⟨_, contradiction⟩ := (completed.isRegistered_iff label).mp
          ((upTo.isRegistered label).mpr ((start.isRegistered_iff label).mpr
            ⟨location, startFound⟩))
        rw [found] at contradiction
        cases contradiction
      rw [TIOSTS.isInitial, TIOSTS.isInitial, found, missing]
  | some location =>
      obtain ⟨before, beforeFound, flag⟩ := upTo.isInitialLocation label location found
      rw [isInitial_eq found, isInitial_eq beforeFound, flag]

/-- The loop over the locations returns, in whatever order they are handed out. -/
theorem foldlM_completeLocation (order : IterationOrder) {start : TIOSTS}
    (wellFormed : start.WellFormed)
    (rejectRegistered : start.IsRegistered Constants.locationLabelReject)
    (completable : start.IsCompletable) :
    ∃ completed, (order.arrange start.locations.keys).foldlM completeLocation start =
        .ok completed ∧
      CompletedUpTo start (order.arrange start.locations.keys) completed := by
  have permutation := order.arrange_perm start.locations.keys
  have nodup : (order.arrange start.locations.keys).Nodup :=
    permutation.nodup_iff.mpr start.locations.keys_nodup
  have initially : CompletedUpTo start [] start := by
    constructor
    · exact wellFormed
    · rfl
    · exact fun _ => Iff.rfl
    · exact fun _ location found => ⟨location, found, rfl⟩
    · exact fun _ _ => rfl
    · intro label member
      cases member
  apply Loops.foldlM_returns (CompletedUpTo start) initially
  intro done label rest model whole upTo
  rw [whole] at nodup
  have fresh : label ∉ done := fun inDone =>
    (List.nodup_append.mp nodup).2.2 label inDone label (by simp) rfl
  have registered : start.IsRegistered label :=
    AList.mem_keys.mpr (permutation.mem_iff.mp (by simp [whole]))
  exact upTo.step fresh registered rejectRegistered completable

theorem CompletedUpTo.isCompletion {order : IterationOrder} {tiosts start completed : TIOSTS}
    (extendsCopy : ExtendsCopy order tiosts Constants.locationLabelReject start)
    (upTo : CompletedUpTo start (order.arrange start.locations.keys) completed) :
    IsCompletion order tiosts completed where
  wellFormed := upTo.wellFormed
  isRegistered := fun label => (upTo.isRegistered label).trans (extendsCopy.isRegistered label)
  isInitialLocation := by
    intro label original found
    have inStart := (extendsCopy.isRegistered label).mpr
      (Or.inr ((tiosts.isRegistered_iff label).mpr ⟨original, found⟩))
    obtain ⟨location, locationFound⟩ := (completed.isRegistered_iff label).mp
      ((upTo.isRegistered label).mpr inStart)
    refine ⟨location, locationFound, ?_⟩
    rw [← isInitial_eq locationFound, upTo.isInitial, extendsCopy.isInitial, isInitial_eq found]
  isInitial := fun label => (upTo.isInitial label).trans (extendsCopy.isInitial label)
  completedAt := by
    intro label registered
    rw [← extendsCopy.getInputOutputActions, ← extendsCopy.outOf]
    apply upTo.complete
    exact (order.arrange_perm _).mem_iff.mpr
      (AList.mem_keys.mp ((upTo.isRegistered label).mp registered))

/-- Completing a well-formed test purpose that meets the documented assumptions returns
a model whose ordinary locations are complete. -/
theorem exists_complete (order : IterationOrder) {tiosts : TIOSTS}
    (wellFormed : tiosts.WellFormed) (completable : tiosts.IsCompletable) :
    ∃ completed, complete order tiosts = .ok completed ∧
      IsCompletion order tiosts completed := by
  obtain ⟨copy, copied, isCopy⟩ := TIOSTS.clone_isExactCopy order wellFormed
  have extendsCopy := extendsCopy_of_exact isCopy (tiosts.name ++ "_complete")
    Constants.locationLabelReject
  obtain ⟨completed, returned, upTo⟩ := foldlM_completeLocation order extendsCopy.wellFormed
    ((extendsCopy.isRegistered _).mpr (Or.inl rfl))
    (extendsCopy.isCompletable wellFormed completable)
  refine ⟨completed, ?_, upTo.isCompletion extendsCopy⟩
  unfold complete
  rw [copied, ok_bind]
  exact returned

/-- Completion returns.  At every location of the result that is neither initial nor
special, whatever the valuation, every input and output action is enabled. -/
theorem complete_covers (order : IterationOrder) {tiosts : TIOSTS}
    (wellFormed : tiosts.WellFormed) (completable : tiosts.IsCompletable) :
    ∃ completed, complete order tiosts = .ok completed ∧ completed.WellFormed ∧
      (∀ label original, tiosts.getLocation label = some original →
        ∃ location, completed.getLocation label = some location ∧
          location.isInitialLocation = original.isInitialLocation) ∧
      ∀ label location, completed.getLocation label = some location →
        location.isSpecialLocation = false → location.isInitialLocation = false →
        ∀ action ∈ tiosts.getInputOutputActions, ∀ atoms clocks,
          ∃ transition ∈ location.outTransitions, transition.action.name = action.name ∧
            transition.Enabled atoms clocks := by
  obtain ⟨completed, returned, isCompletion⟩ := exists_complete order wellFormed completable
  refine ⟨completed, returned, isCompletion.wellFormed, isCompletion.isInitialLocation, ?_⟩
  intro label location found notSpecial notInitial action member atoms clocks
  have complete := isCompletion.isComplete found notSpecial notInitial
  rw [TIOSTS.outOf_eq _ _ found] at complete
  obtain ⟨transition, inOut, name⟩ := complete.leaves action member
  rw [← name]
  exact complete.covers transition inOut atoms clocks

namespace GuardedInstance

def enter : Action := ⟨"i", .input, []⟩
def act : Action := ⟨"a", .output, []⟩

def above : ClockGuard := ⟨[⟨1, "x", .gt, "5", isName_x, isNumeral_five⟩]⟩

def guarded : List Transition :=
  [.bare "t" enter "v", { Transition.bare "v" act "Accept" with clockGuard := above },
    { Transition.bare "v" enter "v" with dataGuard := .written "k > 3" }]

def declared : TIOSTS := .declare "T" [enter, act] [⟨"k", .integer⟩] [] ["x"]

def tp : TIOSTS := .assemble declared ["t", "v", "Accept"] "t" guarded

theorem tp_wellFormed : tp.WellFormed := by
  have blank : declared.IsBlank := TIOSTS.declare_isBlank _ _ _ _ _
  have uses : declared.Uses ["t", "v", "Accept"] "t" guarded := by decide
  exact TIOSTS.assemble_wellFormed blank uses

theorem tp_isCompletable : tp.IsCompletable := by
  have blank : declared.IsBlank := TIOSTS.declare_isBlank _ _ _ _ _
  have uses : declared.Uses ["t", "v", "Accept"] "t" guarded := by decide
  have each : ∀ transition ∈ guarded,
      (transition.dataGuard.text = Constants.guardTrue ∨
        transition.clockGuard = ClockGuard.empty) ∧
      transition.clockGuard.clockGuard.length ≤ 1 ∧
      (∀ simple ∈ transition.clockGuard.clockGuard, simple.relation.IsNegatable) ∧
      Formula.BalancedText transition.dataGuard.text := by decide
  intro label transition member
  rw [tp, TIOSTS.assemble_outOf blank uses] at member
  obtain ⟨oneTrue, oneConstraint, negatable, balanced⟩ :=
    each transition (List.mem_filter.mp member).1
  exact ⟨oneTrue, oneConstraint, negatable, balanced⟩

end GuardedInstance

open GuardedInstance in
/-- At `v` the action `a` is enabled for whatever the clock `x` says. -/
theorem complete_covers_guarded :
    ∃ completed, complete ⟨id, IterationOrder.id_perm⟩ tp = .ok completed ∧
      ∀ location, completed.getLocation "v" = some location →
        ∀ atoms clocks, ∃ transition ∈ location.outTransitions,
          transition.action.name = "a" ∧ transition.Enabled atoms clocks := by
  obtain ⟨completed, returned, completedWellFormed, flags, covers⟩ :=
    complete_covers ⟨id, IterationOrder.id_perm⟩ tp_wellFormed tp_isCompletable
  refine ⟨completed, returned, ?_⟩
  intro location found atoms clocks
  have notInitial : (tp.getLocation "v").map Location.isInitialLocation = some false := by
    decide
  obtain ⟨original, originalFound, ordinary⟩ := Option.map_eq_some_iff.mp notInitial
  obtain ⟨same, sameFound, flag⟩ := flags "v" original originalFound
  rw [found] at sameFound
  cases sameFound
  have label := completedWellFormed.label_eq found
  have notSpecial : location.isSpecialLocation = false := by
    rw [isSpecialLocation_eq label]
    decide
  exact covers "v" location found notSpecial (flag.trans ordinary) act (by decide) atoms clocks

end Completion

end Symbolrt
