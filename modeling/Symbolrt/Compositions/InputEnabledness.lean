import Symbolrt.Algorithms.CompletionCoverage
import Symbolrt.Base.Copies
import Symbolrt.Compositions.InputCompletion

/-!
# When an input completion is input-enabled

The transition added for a guarded one is enabled where both of its guards fail.  Where
exactly one of them fails, neither of the two is.
-/

namespace Symbolrt

/-- A set of valuations: which atomic formulas are true, and the values of the clocks. -/
def Valuations : Type := (List String → Prop) → (String → ℝ) → Prop

/-- Every truth assignment, those that no store has included. -/
def Valuations.all : Valuations := fun _ _ => True

/-- Under each of the valuations every input is enabled at every location but the initial
one. -/
def TIOSTS.InputEnabled (possible : Valuations) (model : TIOSTS) : Prop :=
  ∀ label, model.IsRegistered label → model.isInitial label = false →
    ∀ action ∈ model.inputActions, ∀ atoms clocks, possible atoms clocks →
      ∃ transition ∈ model.outOf label, transition.action.type = .input ∧
        transition.action.name = action.name ∧ transition.Enabled atoms clocks

/-- The parentheses of the data guards match. -/
def TIOSTS.BalancedGuards (model : TIOSTS) : Prop :=
  ∀ label, ∀ transition ∈ model.outOf label, Formula.BalancedText transition.dataGuard.text

/-- Both guards of the transition hold, or neither does. -/
def Transition.GuardsAgree (atoms : List String → Prop) (clocks : String → ℝ)
    (transition : Transition) : Prop :=
  Formula.holds atoms transition.dataGuard.text ↔ transition.clockGuard.holds clocks

/-- No transition carries the action, or under each of the valuations the guards of some
transition with the input agree. -/
def LeavesNoGap (possible : Valuations) (transitions : List Transition) (name : String) : Prop :=
  (∀ transition ∈ transitions, transition.action.name ≠ name) ∨
    ∀ atoms clocks, possible atoms clocks → ∃ transition ∈ transitions,
      transition.action.type = .input ∧
      transition.action.name = name ∧ transition.GuardsAgree atoms clocks

namespace InputCompletion

open Completion (GrownAt)

theorem negateClockGuard_returned {guard negated : ClockGuard}
    (returned : negateClockGuard guard = .ok negated) (clocks : String → ℝ) :
    negated.holds clocks ↔ ¬ guard.holds clocks := by
  have nonempty : guard ≠ ClockGuard.empty := by
    rintro rfl
    cases returned
  obtain ⟨simple, single⟩ : ∃ simple, guard.clockGuard = [simple] := by
    match listed : guard.clockGuard with
    | [] => simp [negateClockGuard, Completion.negateClockGuard, listed] at returned
    | [simple] => exact ⟨simple, rfl⟩
    | _ :: _ :: _ => simp [negateClockGuard, Completion.negateClockGuard, listed] at returned
  have negatable : ∀ other ∈ guard.clockGuard, other.relation.IsNegatable := by
    intro other member
    rw [single] at member
    rw [List.mem_singleton.mp member]
    rw [negateClockGuard, Completion.negateClockGuard, single] at returned
    cases relation : simple.relation with
    | equal => simp [relation] at returned
    | unsupported signs => simp [relation] at returned
    | _ => decide
  obtain ⟨same, sameReturned, meaning⟩ :=
    Completion.negateClockGuard_ok nonempty (by simp [single]) negatable
  rw [negateClockGuard, sameReturned] at returned
  rw [← Except.ok.inj returned]
  exact meaning clocks

/-- A transition with the action of another that is enabled where both guards of the other
fail. -/
structure Opposes (partner transition : Transition) : Prop where
  action : partner.action = transition.action
  enabled : ∀ atoms clocks, partner.Enabled atoms clocks ↔
    ¬ Formula.holds atoms transition.dataGuard.text ∧ ¬ transition.clockGuard.holds clocks

theorem negatedGuards_returned {transition : Transition} {dataGuard : DataGuard}
    {clockGuard : ClockGuard} (balanced : Formula.BalancedText transition.dataGuard.text)
    (returned : negatedGuards transition = .ok (dataGuard, clockGuard))
    (atoms : List String → Prop) (clocks : String → ℝ) :
    (Formula.holds atoms dataGuard.text ∧ clockGuard.holds clocks) ↔
      ¬ Formula.holds atoms transition.dataGuard.text ∧
        ¬ transition.clockGuard.holds clocks := by
  rw [negatedGuards, if_neg (ClockGuard.toString_ne_false _)] at returned
  obtain ⟨negated, negatedReturned, pair⟩ := bind_eq_ok.mp returned
  obtain ⟨rfl, rfl⟩ := Prod.mk.inj (Except.ok.inj pair)
  rw [negateClockGuard_returned negatedReturned]
  apply and_congr_left'
  exact Formula.holds_negation balanced

section Location

variable {base : TIOSTS} {label : String}

theorem addUnguarded_ok {model : TIOSTS} {added : List Transition}
    (grown : GrownAt label base added model) (registered : base.IsRegistered label)
    (everything : base.IsRegistered Constants.locationLabelDontCare)
    {action : Action} (member : action ∈ base.actionsOf action.type) :
    ∃ loop next, addUnguarded label model action = .ok next ∧
      GrownAt label base (added ++ [loop]) next ∧ loop.action = action ∧
      loop.getAllGuard = Constants.guardTrue := by
  have declared : ∃ other, model.getAction action.type action.name = some other := by
    apply TIOSTS.exists_getAction
    rw [TIOSTS.actionsOf_eq_of_alphabet grown.alphabet]
    exact member
  obtain ⟨next, created, nextWellFormed, grows⟩ := grown.wellFormed.createTransitionFromText
    ⟨label, .constantTrue, ClockGuard.empty, action, none, none, .lazy,
      Constants.locationLabelDontCare⟩ ((grown.isRegistered label).mpr registered)
    ((grown.isRegistered _).mpr everything) declared
  exact ⟨_, next, created, grown.add nextWellFormed grows rfl, rfl, rfl⟩

/-- One transition without guards is added for each of the actions. -/
theorem foldlM_addUnguarded (wellFormed : base.WellFormed)
    (registered : base.IsRegistered label)
    (everything : base.IsRegistered Constants.locationLabelDontCare) {actions : List Action}
    (members : ∀ action ∈ actions, action ∈ base.actionsOf action.type) :
    ∃ loops next, actions.foldlM (addUnguarded label) base = .ok next ∧
      GrownAt label base loops next ∧ loops.map Transition.action = actions ∧
      ∀ loop ∈ loops, loop.getAllGuard = Constants.guardTrue := by
  let invariant := fun (done : List Action) (model : TIOSTS) => ∃ loops,
    GrownAt label base loops model ∧ loops.map Transition.action = done ∧
      ∀ loop ∈ loops, loop.getAllGuard = Constants.guardTrue
  have start : invariant [] base := ⟨[], GrownAt.refl wellFormed label, rfl, by simp⟩
  have body : ∀ done action rest model, actions = done ++ action :: rest →
      invariant done model → ∃ next, addUnguarded label model action = .ok next ∧
        invariant (done ++ [action]) next := by
    rintro done action rest model whole ⟨loops, grown, carried, unguarded⟩
    obtain ⟨loop, next, added, nextGrown, own, loopTrue⟩ :=
      addUnguarded_ok grown registered everything (members action (by simp [whole]))
    refine ⟨next, added, loops ++ [loop], nextGrown, ?_, ?_⟩
    · rw [List.map_append, carried, List.map_singleton, own]
    · intro other member
      rcases List.mem_append.mp member with old | new
      · exact unguarded other old
      · rw [List.mem_singleton.mp new]
        exact loopTrue
  obtain ⟨next, returned, loops, grown, carried, unguarded⟩ :=
    Loops.foldlM_returns invariant start body
  exact ⟨loops, next, returned, grown, carried, unguarded⟩

/-- The transitions for which a partner is added. -/
def IsNegated (transition : Transition) : Prop :=
  transition.getAllGuard ≠ Constants.guardTrue ∧ transition.action.type = .input

theorem addNegation_returned {model next : TIOSTS} {added : List Transition}
    (grown : GrownAt label base added model) (registered : base.IsRegistered label)
    (everything : base.IsRegistered Constants.locationLabelDontCare)
    {transition : Transition} (balanced : Formula.BalancedText transition.dataGuard.text)
    (declared : ∃ action, base.getAction transition.action.type transition.action.name =
      some action)
    (returned : addNegation label model transition = .ok next) :
    ∃ more, GrownAt label base (added ++ more) next ∧
      (IsNegated transition → ∃ partner ∈ more, Opposes partner transition) ∧
      ∀ partner ∈ more, IsNegated transition ∧ Opposes partner transition := by
  by_cases negated : IsNegated transition
  · rw [addNegation, if_pos (show _ ∧ _ from negated)] at returned
    obtain ⟨⟨dataGuard, clockGuard⟩, guards, created⟩ := bind_eq_ok.mp returned
    have declaredHere : ∃ other,
        model.getAction transition.action.type transition.action.name = some other := by
      unfold TIOSTS.getAction at declared ⊢
      rw [TIOSTS.actionsOf_eq_of_alphabet grown.alphabet]
      exact declared
    obtain ⟨same, sameCreated, nextWellFormed, grows⟩ :=
      grown.wellFormed.createTransitionFromText
        ⟨label, dataGuard, clockGuard, transition.action, none, none, .lazy,
          Constants.locationLabelDontCare⟩ ((grown.isRegistered label).mpr registered)
        ((grown.isRegistered _).mpr everything) declaredHere
    obtain rfl : next = same := Except.ok.inj (created.symm.trans sameCreated)
    have opposes : Opposes ⟨label, dataGuard, clockGuard.renumber model.clocks,
        transition.action, none, none, .lazy, Constants.locationLabelDontCare⟩
        transition := by
      constructor
      · rfl
      · intro atoms clocks
        rw [← negatedGuards_returned balanced guards]
        exact and_congr_right' (by rw [ClockGuard.holds_renumber])
    refine ⟨[_], grown.add nextWellFormed grows rfl, ?_, ?_⟩
    · exact fun _ => ⟨_, List.mem_singleton.mpr rfl, opposes⟩
    · intro partner member
      rw [List.mem_singleton.mp member]
      exact ⟨negated, opposes⟩
  · rw [addNegation, if_neg (show ¬ (_ ∧ _) from negated)] at returned
    obtain rfl := Except.ok.inj returned
    refine ⟨[], ?_, fun holds => absurd holds negated, by simp⟩
    rw [List.append_nil]
    exact grown

/-- The loop over the transitions of a location adds a partner for each of those that are
negated and nothing else. -/
theorem foldlM_addNegation_returned {model final : TIOSTS}
    {added transitions : List Transition}
    (grown : GrownAt label base added model) (registered : base.IsRegistered label)
    (everything : base.IsRegistered Constants.locationLabelDontCare)
    (balanced : ∀ transition ∈ transitions, Formula.BalancedText transition.dataGuard.text)
    (declared : ∀ transition ∈ transitions, ∃ action,
      base.getAction transition.action.type transition.action.name = some action)
    (returned : transitions.foldlM (addNegation label) model = .ok final) :
    ∃ more, GrownAt label base (added ++ more) final ∧
      (∀ transition ∈ transitions, IsNegated transition →
        ∃ partner ∈ more, Opposes partner transition) ∧
      ∀ partner ∈ more, ∃ transition ∈ transitions, IsNegated transition ∧
        Opposes partner transition := by
  apply Loops.foldlM_returned (fun done model => ∃ more,
    GrownAt label base (added ++ more) model ∧
      (∀ transition ∈ done, IsNegated transition →
        ∃ partner ∈ more, Opposes partner transition) ∧
      ∀ partner ∈ more, ∃ transition ∈ transitions, IsNegated transition ∧
        Opposes partner transition) returned
  · refine ⟨[], ?_, by simp, by simp⟩
    rw [List.append_nil]
    exact grown
  · rintro done transition rest model next whole ⟨more, grown, partners, origins⟩ stepped
    have member : transition ∈ transitions := by simp [whole]
    obtain ⟨new, nextGrown, newPartner, newOrigin⟩ := addNegation_returned grown registered
      everything (balanced transition member) (declared transition member) stepped
    refine ⟨more ++ new, ?_, ?_, ?_⟩
    · rw [← List.append_assoc]
      exact nextGrown
    · intro other otherMember negated
      rcases List.mem_append.mp otherMember with old | isNew
      · obtain ⟨partner, inMore, opposes⟩ := partners other old negated
        exact ⟨partner, List.mem_append_left _ inMore, opposes⟩
      · obtain rfl := List.mem_singleton.mp isNew
        obtain ⟨partner, inNew, opposes⟩ := newPartner negated
        exact ⟨partner, List.mem_append_right _ inNew, opposes⟩
    · intro partner partnerMember
      rcases List.mem_append.mp partnerMember with old | isNew
      · exact origins partner old
      · exact ⟨transition, member, newOrigin partner isNew⟩

end Location

/-- Some of the transitions with the input is enabled. -/
def Accepts (transitions : List Transition) (name : String) (atoms : List String → Prop)
    (clocks : String → ℝ) : Prop :=
  ∃ transition ∈ transitions, transition.action.type = .input ∧
    transition.action.name = name ∧ transition.Enabled atoms clocks

/-- What completion makes of the transitions of a location. -/
def IsInputComplete (possible : Valuations) (inputs : List Action)
    (before after : List Transition) : Prop :=
  ∀ action ∈ inputs,
    (∀ atoms clocks, possible atoms clocks → Accepts after action.name atoms clocks) ↔
      LeavesNoGap possible before action.name

theorem enabled_of_unguarded {transition : Transition}
    (unguarded : transition.getAllGuard = Constants.guardTrue)
    (atoms : List String → Prop) (clocks : String → ℝ) : transition.Enabled atoms clocks := by
  obtain ⟨dataTrue, noClocks⟩ := (Completion.getAllGuard_eq_true_iff transition).mp unguarded
  constructor
  · rw [dataTrue]
    exact Formula.holds_true
  · rw [noClocks]
    exact Completion.empty_holds clocks

theorem GuardsAgree.of_enabled {transition : Transition} {atoms : List String → Prop}
    {clocks : String → ℝ} (enabled : transition.Enabled atoms clocks) :
    transition.GuardsAgree atoms clocks :=
  iff_of_true enabled.1 enabled.2

/-- What is added to a location: transitions without guards for the absent inputs, and
partners for the negated transitions. -/
structure InputCompletes (inputs : List Action) (before loops more : List Transition) :
    Prop where
  absent : ∀ action, action ∈ loops.map Transition.action ↔
    action ∈ inputs ∧ ∀ transition ∈ before, transition.action.name ≠ action.name
  unguarded : ∀ loop ∈ loops, loop.getAllGuard = Constants.guardTrue
  partners : ∀ transition ∈ before ++ loops, IsNegated transition →
    ∃ partner ∈ more, Opposes partner transition
  origins : ∀ partner ∈ more, ∃ transition ∈ before ++ loops, IsNegated transition ∧
    Opposes partner transition

/-- With what is added an input is accepted wherever the guards of a transition with it
agree. -/
theorem InputCompletes.isInputComplete {inputs : List Action}
    {before loops more : List Transition} (completes : InputCompletes inputs before loops more)
    (isInput : ∀ action ∈ inputs, action.type = .input) (possible : Valuations) :
    IsInputComplete possible inputs before (before ++ (loops ++ more)) := by
  obtain ⟨absent, unguarded, partners, origins⟩ := completes
  intro action member
  by_cases unused : ∀ transition ∈ before, transition.action.name ≠ action.name
  · obtain ⟨loop, inLoops, own⟩ :=
      List.mem_map.mp ((absent action).mpr ⟨member, unused⟩)
    have accepted : ∀ atoms clocks, possible atoms clocks →
        Accepts (before ++ (loops ++ more)) action.name atoms clocks := by
      intro atoms clocks _
      refine ⟨loop, by simp [inLoops], ?_, ?_, ?_⟩
      · rw [own]
        exact isInput action member
      · rw [own]
      · exact enabled_of_unguarded (unguarded loop inLoops) atoms clocks
    exact iff_of_true accepted (Or.inl unused)
  · have notLoop : ∀ loop ∈ loops, loop.action.name ≠ action.name := by
      intro loop inLoops name
      obtain ⟨_, noneNamed⟩ := (absent loop.action).mp (List.mem_map_of_mem inLoops)
      apply unused
      intro transition inBefore
      rw [← name]
      exact noneNamed transition inBefore
    constructor
    · intro accepted
      right
      intro atoms clocks inside
      obtain ⟨transition, inAfter, type, name, enabled⟩ := accepted atoms clocks inside
      rcases List.mem_append.mp inAfter with inBefore | added
      · exact ⟨transition, inBefore, type, name, GuardsAgree.of_enabled enabled⟩
      · rcases List.mem_append.mp added with inLoops | inMore
        · exact absurd name (notLoop transition inLoops)
        · obtain ⟨origin, listed, _, opposes⟩ := origins transition inMore
          have fails := (opposes.enabled atoms clocks).mp enabled
          rw [opposes.action] at type name
          rcases List.mem_append.mp listed with inBefore | inLoops
          · exact ⟨origin, inBefore, type, name, iff_of_false fails.1 fails.2⟩
          · exact absurd name (notLoop origin inLoops)
    · rintro (noneNamed | agree)
      · exact absurd noneNamed unused
      · intro atoms clocks inside
        obtain ⟨transition, inBefore, type, name, agrees⟩ := agree atoms clocks inside
        by_cases enabled : transition.Enabled atoms clocks
        · exact ⟨transition, List.mem_append_left _ inBefore, type, name, enabled⟩
        · have negated : IsNegated transition :=
            ⟨fun same => enabled (enabled_of_unguarded same atoms clocks), type⟩
          obtain ⟨partner, inMore, opposes⟩ :=
            partners transition (List.mem_append_left _ inBefore) negated
          refine ⟨partner, by simp [inMore], ?_, ?_, ?_⟩
          · rw [opposes.action]
            exact type
          · rw [opposes.action]
            exact name
          · apply (opposes.enabled atoms clocks).mpr
            constructor
            · exact fun holds => enabled ⟨holds, agrees.mp holds⟩
            · exact fun holds => enabled ⟨agrees.mpr holds, holds⟩

theorem isInitial_grown {label : String} {base model : TIOSTS} {added : List Transition}
    (grown : GrownAt label base added model) (other : String) :
    model.isInitial other = base.isInitial other := by
  cases found : model.getLocation other with
  | none =>
      have missing : base.getLocation other = none := by
        cases baseFound : base.getLocation other with
        | none => rfl
        | some location =>
            have registered := (grown.isRegistered other).mpr
              ((base.isRegistered_iff other).mpr ⟨location, baseFound⟩)
            obtain ⟨_, contradiction⟩ := (model.isRegistered_iff other).mp registered
            rw [found] at contradiction
            cases contradiction
      rw [TIOSTS.isInitial, TIOSTS.isInitial, found, missing]
  | some location =>
      obtain ⟨before, baseFound, flag⟩ := grown.isInitialLocation other location found
      rw [TIOSTS.isInitial, TIOSTS.isInitial, found, baseFound]
      exact flag

theorem completeLocation_initial {base : TIOSTS} {label : String}
    (registered : base.IsRegistered label) (initial : base.isInitial label = true) :
    completeLocation base label = .ok base := by
  obtain ⟨location, found⟩ := (base.isRegistered_iff label).mp registered
  have flag : location.isInitialLocation = true := by
    rw [← initial, TIOSTS.isInitial, found]
    rfl
  rw [completeLocation, found, deref_some, ok_bind, if_neg (by simp [flag])]
  rfl

/-- At an ordinary location the absent inputs are added first, then the partners of the
transitions that are there by then. -/
theorem completeLocation_eq {base : TIOSTS} {label : String} (wellFormed : base.WellFormed)
    (registered : base.IsRegistered label)
    (everything : base.IsRegistered Constants.locationLabelDontCare)
    (notInitial : base.isInitial label = false) :
    ∃ loops looped, completeLocation base label =
        (base.outOf label ++ loops).foldlM (addNegation label) looped ∧
      GrownAt label base loops looped ∧
      (∀ action, action ∈ loops.map Transition.action ↔ action ∈ base.inputActions ∧
        ∀ transition ∈ base.outOf label, transition.action.name ≠ action.name) ∧
      ∀ loop ∈ loops, loop.getAllGuard = Constants.guardTrue := by
  obtain ⟨location, found⟩ := (base.isRegistered_iff label).mp registered
  have flag : location.isInitialLocation = false := by
    rw [← notInitial, TIOSTS.isInitial, found]
    rfl
  have out : base.outOf label = location.outTransitions := TIOSTS.outOf_eq _ _ found
  have members : ∀ action ∈ getAbsentInputActions location base.inputActions,
      action ∈ base.actionsOf action.type := by
    intro action member
    have isInput := (List.mem_filter.mp member).1
    rw [base.inputActions_type action isInput]
    exact isInput
  obtain ⟨loops, looped, returned, grown, carried, unguarded⟩ :=
    foldlM_addUnguarded wellFormed registered everything members
  obtain ⟨live, liveFound⟩ := (looped.isRegistered_iff label).mp
    ((grown.isRegistered label).mpr registered)
  have liveOut : live.outTransitions = base.outOf label ++ loops := by
    rw [← TIOSTS.outOf_eq _ _ liveFound, grown.outOf, if_pos rfl]
  refine ⟨loops, looped, ?_, grown, ?_, unguarded⟩
  · rw [completeLocation, found, deref_some, ok_bind, if_pos (by simp [flag]), returned,
      ok_bind, liveFound, deref_some, ok_bind, liveOut]
  · intro action
    rw [carried, out]
    exact Completion.mem_getRemainingActions

/-- The transitions of a location and the added ones are on actions of the model. -/
theorem declared_grown {base model : TIOSTS} {label : String} {added : List Transition}
    (grown : GrownAt label base added model) :
    ∀ transition ∈ base.outOf label ++ added, ∃ action,
      base.getAction transition.action.type transition.action.name = some action := by
  intro transition member
  have inModel : transition ∈ model.outOf label := by
    rw [grown.outOf, if_pos rfl]
    exact member
  have declared := grown.wellFormed.action_declared inModel
  unfold TIOSTS.getAction at declared ⊢
  rw [← TIOSTS.actionsOf_eq_of_alphabet grown.alphabet]
  exact declared

theorem completeLocation_returned {base next : TIOSTS} {label : String}
    (wellFormed : base.WellFormed) (registered : base.IsRegistered label)
    (everything : base.IsRegistered Constants.locationLabelDontCare)
    (balanced : ∀ transition ∈ base.outOf label,
      Formula.BalancedText transition.dataGuard.text)
    (returned : completeLocation base label = .ok next) :
    ∃ loops more, GrownAt label base (loops ++ more) next ∧
      (base.isInitial label = false →
        InputCompletes base.inputActions (base.outOf label) loops more) ∧
      (base.isInitial label = true → loops ++ more = []) := by
  by_cases initial : base.isInitial label = true
  · rw [completeLocation_initial registered initial] at returned
    obtain rfl := Except.ok.inj returned
    refine ⟨[], [], GrownAt.refl wellFormed label, ?_, fun _ => rfl⟩
    intro notInitial
    rw [initial] at notInitial
    cases notInitial
  · obtain ⟨loops, looped, runs, loopsGrown, absent, unguarded⟩ := completeLocation_eq
      wellFormed registered everything (Bool.eq_false_iff.mpr initial)
    rw [runs] at returned
    have liveBalanced : ∀ transition ∈ base.outOf label ++ loops,
        Formula.BalancedText transition.dataGuard.text := by
      intro transition member
      rcases List.mem_append.mp member with old | loop
      · exact balanced transition old
      · rw [((Completion.getAllGuard_eq_true_iff transition).mp
          (unguarded transition loop)).1]
        decide
    obtain ⟨more, grown, partners, origins⟩ := foldlM_addNegation_returned loopsGrown
      registered everything liveBalanced (declared_grown loopsGrown) returned
    refine ⟨loops, more, grown, fun _ => ⟨absent, unguarded, partners, origins⟩, ?_⟩
    exact fun isInitial => absurd isInitial initial

/-- The model after some of its locations have been completed. -/
structure CompletedUpTo (start : TIOSTS) (done : List String) (model : TIOSTS) : Prop where
  wellFormed : model.WellFormed
  alphabet : model.toAlphabet = start.toAlphabet
  isRegistered : ∀ label, model.IsRegistered label ↔ start.IsRegistered label
  isInitial : ∀ label, model.isInitial label = start.isInitial label
  pending : ∀ label, label ∉ done → model.outOf label = start.outOf label
  complete : ∀ label ∈ done, ∃ loops more,
    model.outOf label = start.outOf label ++ (loops ++ more) ∧
      (start.isInitial label = false →
        InputCompletes start.inputActions (start.outOf label) loops more) ∧
      (start.isInitial label = true → loops ++ more = [])

theorem CompletedUpTo.step {start model next : TIOSTS} {done : List String} {label : String}
    (upTo : CompletedUpTo start done model) (fresh : label ∉ done)
    (registered : start.IsRegistered label)
    (everything : start.IsRegistered Constants.locationLabelDontCare)
    (balanced : start.BalancedGuards) (returned : completeLocation model label = .ok next) :
    CompletedUpTo start (done ++ [label]) next := by
  have same : model.outOf label = start.outOf label := upTo.pending label fresh
  obtain ⟨loops, more, grown, completes, untouched⟩ := completeLocation_returned upTo.wellFormed
    ((upTo.isRegistered label).mpr registered) ((upTo.isRegistered _).mpr everything)
    (by rw [same]; exact balanced label) returned
  constructor
  · exact grown.wellFormed
  · exact grown.alphabet.trans upTo.alphabet
  · exact fun other => (grown.isRegistered other).trans (upTo.isRegistered other)
  · exact fun other => (isInitial_grown grown other).trans (upTo.isInitial other)
  · intro other notDone
    have different : other ≠ label := fun equal => notDone (by simp [equal])
    rw [grown.outOf, if_neg different]
    exact upTo.pending other fun inDone => notDone (List.mem_append_left _ inDone)
  · intro other inDone
    by_cases isLabel : other = label
    · subst isLabel
      refine ⟨loops, more, ?_, ?_, ?_⟩
      · rw [grown.outOf, if_pos rfl, same]
      · intro notInitial
        have here := completes ((upTo.isInitial other).trans notInitial)
        rw [upTo.alphabet, same] at here
        exact here
      · exact fun isInitial => untouched ((upTo.isInitial other).trans isInitial)
    · have old : other ∈ done := by simpa [isLabel] using inDone
      rw [grown.outOf, if_neg isLabel]
      exact upTo.complete other old

/-- The model from which the locations are completed: a copy with a location that accepts
every input and output. -/
structure IsStart (order : IterationOrder) (tiosts start : TIOSTS) : Prop where
  wellFormed : start.WellFormed
  isRegistered : ∀ label, start.IsRegistered label ↔
    label = Constants.locationLabelDontCare ∨ tiosts.IsRegistered label
  isInitial : ∀ label, start.isInitial label = tiosts.isInitial label
  inputActions : start.inputActions = tiosts.inputActions
  outOf : ∀ label, label ≠ Constants.locationLabelDontCare → start.outOf label =
    (tiosts.copiedTransitions order).filter (fun transition => label = transition.source)
  balanced : tiosts.BalancedGuards → start.BalancedGuards
  accepting : ∃ loops, start.outOf Constants.locationLabelDontCare =
      (tiosts.copiedTransitions order).filter
        (fun transition => Constants.locationLabelDontCare = transition.source) ++ loops ∧
    loops.map Transition.action = tiosts.getInputOutputActions ∧
      ∀ loop ∈ loops, loop.getAllGuard = Constants.guardTrue

theorem withDontCareLocation_eq (model : TIOSTS) :
    withDontCareLocation model =
      model.addLocation (Location.new Constants.locationLabelDontCare false) := by
  unfold withDontCareLocation
  cases found : model.getLocation Constants.locationLabelDontCare with
  | none => rfl
  | some location =>
      rw [TIOSTS.addLocation_eq_self]
      exact (model.isRegistered_iff _).mpr ⟨location, found⟩

/-- With balanced guards in the model, the loops of the new location keep them balanced. -/
theorem balanced_of_loops {order : IterationOrder} {tiosts base start : TIOSTS}
    (wellFormed : tiosts.WellFormed)
    (extendsCopy : Completion.ExtendsCopy order tiosts Constants.locationLabelDontCare base)
    {loops : List Transition}
    (outOf : ∀ label, start.outOf label =
      if label = Constants.locationLabelDontCare then
        base.outOf Constants.locationLabelDontCare ++ loops
      else base.outOf label)
    (unguarded : ∀ loop ∈ loops, loop.getAllGuard = Constants.guardTrue)
    (balanced : ∀ label, ∀ transition ∈ tiosts.outOf label,
      Formula.BalancedText transition.dataGuard.text)
    {label : String} {transition : Transition} (member : transition ∈ start.outOf label) :
    Formula.BalancedText transition.dataGuard.text := by
  have balancedBase : ∀ other, ∀ copied ∈ base.outOf other,
      Formula.BalancedText copied.dataGuard.text := by
    intro other copied inBase
    obtain ⟨original, stored, rfl⟩ := extendsCopy.exists_original wellFormed inBase
    exact balanced _ original stored
  rw [outOf] at member
  split at member
  · rcases List.mem_append.mp member with inBase | inLoops
    · exact balancedBase _ transition inBase
    · rw [((Completion.getAllGuard_eq_true_iff transition).mp
        (unguarded transition inLoops)).1]
      decide
  · exact balancedBase _ transition member

theorem exists_start (order : IterationOrder) {tiosts : TIOSTS}
    (wellFormed : tiosts.WellFormed) :
    ∃ start, IsStart order tiosts start ∧ complete order tiosts =
      (order.arrange start.locations.keys).foldlM completeLocation start := by
  obtain ⟨copy, copied, isCopy⟩ := TIOSTS.clone_isExactCopy order wellFormed
  have extendsCopy := Completion.extendsCopy_of_exact isCopy (tiosts.name ++ "_inputComplete")
    Constants.locationLabelDontCare
  have added := withDontCareLocation_eq
    (copy.setName (tiosts.name ++ "_inputComplete"))
  generalize (copy.setName (tiosts.name ++ "_inputComplete")).addLocation
    (Location.new Constants.locationLabelDontCare false) = base at extendsCopy added
  have dontCare : base.IsRegistered Constants.locationLabelDontCare :=
    (extendsCopy.isRegistered _).mpr (Or.inl rfl)
  have members : ∀ action ∈ base.getInputOutputActions,
      action ∈ base.actionsOf action.type := by
    intro action member
    rcases List.mem_append.mp member with input | output
    · rw [base.inputActions_type action input]
      exact input
    · rw [base.outputActions_type action output]
      exact output
  obtain ⟨loops, start, looped, grown, carried, unguarded⟩ :=
    foldlM_addUnguarded extendsCopy.wellFormed dontCare dontCare members
  refine ⟨start, ?_, ?_⟩
  · constructor
    · exact grown.wellFormed
    · exact fun label => (grown.isRegistered label).trans (extendsCopy.isRegistered label)
    · exact fun label => (isInitial_grown grown label).trans (extendsCopy.isInitial label)
    · exact (TIOSTS.actionsOf_eq_of_alphabet grown.alphabet .input).trans
        (extendsCopy.actionsOf .input)
    · intro label different
      rw [grown.outOf, if_neg different]
      exact extendsCopy.outOf label
    · intro balanced label transition member
      exact balanced_of_loops wellFormed extendsCopy grown.outOf unguarded balanced member
    · refine ⟨loops, ?_, ?_, unguarded⟩
      · rw [grown.outOf, if_pos rfl, extendsCopy.outOf]
      · rw [carried]
        exact extendsCopy.getInputOutputActions
  · rw [complete, copied, ok_bind]
    simp only [added]
    rw [looped, ok_bind]

/-- The gaps of a location do not depend on the numbers its copies give to clocks. -/
theorem leavesNoGap_copied {order : IterationOrder} {tiosts : TIOSTS} {label name : String}
    {possible : Valuations} :
    LeavesNoGap possible ((tiosts.copiedTransitions order).filter
        (fun transition => label = transition.source)) name ↔
      LeavesNoGap possible ((tiosts.getTransitions order).filter
        (fun transition => label = transition.source)) name := by
  have member : ∀ transition ∈ (tiosts.getTransitions order).filter
      (fun transition => label = transition.source), tiosts.copied transition ∈
        (tiosts.copiedTransitions order).filter
          (fun transition => label = transition.source) := by
    intro transition listed
    obtain ⟨inModel, source⟩ := List.mem_filter.mp listed
    exact List.mem_filter.mpr ⟨List.mem_map_of_mem inModel, source⟩
  have origin : ∀ copied ∈ (tiosts.copiedTransitions order).filter
      (fun transition => label = transition.source), ∃ transition ∈
        (tiosts.getTransitions order).filter (fun transition => label = transition.source),
          tiosts.copied transition = copied := by
    intro copied listed
    obtain ⟨inCopy, source⟩ := List.mem_filter.mp listed
    obtain ⟨transition, inModel, rfl⟩ := List.mem_map.mp inCopy
    exact ⟨transition, List.mem_filter.mpr ⟨inModel, source⟩, rfl⟩
  have agree : ∀ transition atoms clocks,
      (tiosts.copied transition).GuardsAgree atoms clocks ↔
        transition.GuardsAgree atoms clocks := by
    intro transition atoms clocks
    apply iff_congr Iff.rfl
    exact ClockGuard.holds_renumber _ _ _
  apply or_congr
  · constructor
    · intro unused transition listed
      rw [← tiosts.copied_actionName]
      exact unused _ (member transition listed)
    · intro unused copied listed
      obtain ⟨transition, inModel, rfl⟩ := origin copied listed
      rw [tiosts.copied_actionName]
      exact unused transition inModel
  · constructor
    · intro agrees atoms clocks inside
      obtain ⟨copied, listed, type, own, guards⟩ := agrees atoms clocks inside
      obtain ⟨transition, inModel, rfl⟩ := origin copied listed
      rw [tiosts.copied_actionType] at type
      rw [tiosts.copied_actionName] at own
      exact ⟨transition, inModel, type, own, (agree transition atoms clocks).mp guards⟩
    · intro agrees atoms clocks inside
      obtain ⟨transition, inModel, type, own, guards⟩ := agrees atoms clocks inside
      refine ⟨tiosts.copied transition, member transition inModel, ?_, ?_, ?_⟩
      · rw [tiosts.copied_actionType]
        exact type
      · rw [tiosts.copied_actionName]
        exact own
      · exact (agree transition atoms clocks).mpr guards

/-- What completion returns: from each location it has completed the inputs of the model. -/
theorem completed_returned {order : IterationOrder} {tiosts start completed : TIOSTS}
    (isStart : IsStart order tiosts start) (balanced : tiosts.BalancedGuards)
    (returned : (order.arrange start.locations.keys).foldlM completeLocation start =
      .ok completed) :
    CompletedUpTo start (order.arrange start.locations.keys) completed := by
  have permutation := order.arrange_perm start.locations.keys
  have nodup : (order.arrange start.locations.keys).Nodup :=
    permutation.nodup_iff.mpr start.locations.keys_nodup
  apply Loops.foldlM_returned (CompletedUpTo start) returned
  · constructor
    · exact isStart.wellFormed
    · rfl
    · exact fun _ => Iff.rfl
    · exact fun _ => rfl
    · exact fun _ _ => rfl
    · intro label member
      cases member
  · intro done label rest model next whole upTo stepped
    rw [whole] at nodup
    have fresh : label ∉ done := fun inDone =>
      (List.nodup_append.mp nodup).2.2 label inDone label (by simp) rfl
    apply upTo.step fresh ?_ ?_ (isStart.balanced balanced) stepped
    · exact AList.mem_keys.mpr (permutation.mem_iff.mp (by simp [whole]))
    · exact (isStart.isRegistered _).mpr (Or.inl rfl)

namespace GapInstance

def order : IterationOrder := ⟨id, IterationOrder.id_perm⟩

def press : Action := ⟨"press", .input, []⟩

def early : ClockGuard := ⟨[⟨1, "x", .lt, "5", isName_x, isNumeral_five⟩]⟩

def late : ClockGuard := ⟨[⟨1, "x", .geq, "5", isName_x, isNumeral_five⟩]⟩

def declared : TIOSTS := .declare "M" [⟨"i", .internal, []⟩, press] [] [] ["x"]

/-- The input leaves the location early and, in the second model, late too. -/
def early_only : List Transition :=
  [.bare "s" ⟨"i", .internal, []⟩ "a", { Transition.bare "a" press "b" with clockGuard := early }]

def early_late : List Transition :=
  early_only ++ [{ Transition.bare "a" press "c" with clockGuard := late }]

def model (transitions : List Transition) : TIOSTS :=
  .assemble declared ["s", "a", "b", "c"] "s" transitions

theorem model_wellFormed {transitions : List Transition}
    (uses : declared.Uses ["s", "a", "b", "c"] "s" transitions) :
    (model transitions).WellFormed :=
  TIOSTS.assemble_wellFormed (TIOSTS.declare_isBlank _ _ _ _ _) uses

theorem model_balanced {transitions : List Transition}
    (uses : declared.Uses ["s", "a", "b", "c"] "s" transitions)
    (each : ∀ transition ∈ transitions, Formula.BalancedText transition.dataGuard.text) :
    (model transitions).BalancedGuards := by
  intro label transition member
  have blank : declared.IsBlank := TIOSTS.declare_isBlank _ _ _ _ _
  rw [model, TIOSTS.assemble_outOf blank uses] at member
  exact each transition (List.mem_filter.mp member).1

theorem returned_of_run {transitions : List Transition} {checked : TIOSTS → Bool}
    (ran : (complete order (model transitions)).toOption.map checked = some true) :
    ∃ completed, complete order (model transitions) = .ok completed ∧
      checked completed = true := by
  cases outcome : complete order (model transitions) with
  | error failure =>
      rw [outcome] at ran
      cases ran
  | ok completed =>
      rw [outcome] at ran
      exact ⟨completed, rfl, Option.some.inj ran⟩

theorem late_holds (clocks : String → ℝ) : late.holds clocks ↔ ¬ early.holds clocks := by
  simp [late, early, ClockGuard.holds, SimpleClockGuard.holds, Relation.holds]

end GapInstance

end InputCompletion

end Symbolrt
