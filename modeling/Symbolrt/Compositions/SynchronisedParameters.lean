import Symbolrt.Base.Assembly
import Symbolrt.SymbolicExecution.ParameterBinding
import Symbolrt.Compositions.SequentialResult
import Symbolrt.Compositions.InterruptionResult
import Symbolrt.Compositions.ParallelInterleaving

/-!
# Parameters of synchronised transitions

A composed transition has the parameters of one of its two actions, and the guard and the
assignments of both.  Its action is shared by all transitions of that name, so in a
parallel composition the last synchronisation decides for all of them.
-/

namespace Symbolrt

open SymbolicExecution (RefersTo refersTo_own ReadsExchanged)

/-- Both transitions refer to the values exchanged by the composed one. -/
def Carries (composed first second : Transition) : Prop :=
  RefersTo first composed.action.parameters ∧ RefersTo second composed.action.parameters

namespace SequentialComposition

theorem carries_iff {order : IterationOrder} {model1 model2 result : TIOSTS}
    {junction : Junction} (isJunction : IsJunction order model1 model2 junction)
    (returned : sequentialComposition order model1 model2 = .ok result) :
    junction.merged ∈ result.outOf junction.source ∧
      (Carries junction.merged junction.tc1 junction.t02 ↔
        RefersTo junction.tc1 junction.t02.action.parameters) := by
  constructor
  · rw [returned_outOf isJunction returned]
    apply List.mem_filter.mpr
    exact ⟨List.mem_cons_self, decide_eq_true rfl⟩
  · constructor
    · exact And.left
    · exact fun refers => ⟨refers, refersTo_own junction.t02⟩

end SequentialComposition

namespace InterruptionComposition

/-- The transition whose parameters are not taken over refers to those that are. -/
def Point.Agrees (point : Point) : Prop :=
  if point.t1Sync.action.type = .output then
    RefersTo point.t2Sync point.t1Sync.action.parameters
  else RefersTo point.t1Sync point.t2Sync.action.parameters

instance (point : Point) : Decidable point.Agrees := by
  unfold Point.Agrees
  infer_instance

theorem carries_iff {order : IterationOrder} {model1 model2 result : TIOSTS} {parts : Parts}
    (isParts : IsParts order model1 model2 parts)
    (returned : interruptionComposition order model1 model2 = .ok result) {point : Point}
    (inPoints : point ∈ parts.points) :
    parts.merged point ∈ result.outOf point.source ∧
      (Carries (parts.merged point) point.t1Sync point.t2Sync ↔ point.Agrees) := by
  constructor
  · exact (isParts.returned_origins returned).2.2 point inPoints
  · have parameters : (parts.merged point).action.parameters = point.side.parameters := rfl
    rw [Carries, parameters, Point.side, Point.Agrees]
    split
    · constructor
      · exact And.right
      · exact fun refers => ⟨refersTo_own point.t1Sync, refers⟩
    · constructor
      · exact And.left
      · exact fun refers => ⟨refers, refersTo_own point.t2Sync⟩

end InterruptionComposition

section Stamps

/-- The output action of the name has the parameters, wherever the model holds it. -/
structure Stamped (model : TIOSTS) (name : String) (parameters : List String) : Prop where
  outOf : ∀ label, ∀ transition ∈ model.outOf label, transition.action.type = .output →
    transition.action.name = name → transition.action.parameters = parameters
  recovered : ∀ action found, action.type = .output → action.name = name →
    model.recoverAction action = .ok found → found.parameters = parameters

theorem recoverAction_eq_find {model : TIOSTS} {action found : Action} :
    model.recoverAction action = .ok found ↔
      (model.actionsOf action.type).find? (fun other => action.equals other) = some found := by
  unfold TIOSTS.recoverAction
  cases (model.actionsOf action.type).find? (fun other => action.equals other) with
  | none => simp
  | some other => simp

theorem find?_changeFirst_self {name : String} {parameters : List String}
    {actions : List Action} {action found : Action} (named : action.name = name)
    (search : (changeFirst name parameters actions).find? (fun other => action.equals other) =
      some found) : found.parameters = parameters := by
  induction actions with
  | nil => cases search
  | cons first rest induction =>
      rw [changeFirst] at search
      by_cases same : first.name = name
      · rw [if_pos same, List.find?_cons_of_pos (by simp [Action.equals, named, same])] at search
        rw [← Option.some.inj search]
      · rw [if_neg same, List.find?_cons_of_neg (by
          simp [Action.equals, named, Ne.symm same])] at search
        exact induction search

theorem find?_changeFirst_other {name : String} {parameters : List String}
    {actions : List Action} {action : Action} (named : action.name ≠ name) :
    (changeFirst name parameters actions).find? (fun other => action.equals other) =
      actions.find? (fun other => action.equals other) := by
  induction actions with
  | nil => rfl
  | cons first rest induction =>
      rw [changeFirst]
      by_cases same : first.name = name
      · rw [if_pos same]
        have differs : ¬ action.name = first.name := by
          rw [same]
          exact named
        rw [List.find?_cons_of_neg (by simpa [Action.equals] using differs),
          List.find?_cons_of_neg (by simpa [Action.equals] using differs)]
      · rw [if_neg same, List.find?_cons, List.find?_cons, induction]

variable {model next : TIOSTS} {name : String} {parameters : List String}

theorem Stamped.of_same (stamped : Stamped model name parameters)
    (outOf : ∀ label, next.outOf label = model.outOf label)
    (actionsOf : ∀ type, next.actionsOf type = model.actionsOf type) :
    Stamped next name parameters := by
  constructor
  · intro label transition member
    rw [outOf] at member
    exact stamped.outOf label transition member
  · intro action found type named recovered
    apply stamped.recovered action found type named
    rw [recoverAction_eq_find] at recovered ⊢
    rw [← actionsOf]
    exact recovered

theorem Stamped.create (stamped : Stamped model name parameters) {transition : Transition}
    (labelled : model.Labelled) (created : model.create transition = .ok next)
    (own : transition.action.type = .output → transition.action.name = name →
      transition.action.parameters = parameters) : Stamped next name parameters := by
  have single : [transition].foldlM TIOSTS.create model = .ok next := by
    rw [List.foldlM_cons, created]
    rfl
  obtain ⟨_, grows⟩ := TIOSTS.createAll_returned labelled single
  constructor
  · intro label other member type named
    rw [grows.outOf] at member
    rcases List.mem_append.mp member with old | new
    · exact stamped.outOf label other old type named
    · obtain rfl := List.mem_singleton.mp (List.mem_filter.mp new).1
      exact own type named
  · intro action found type named recovered
    apply stamped.recovered action found type named
    rw [recoverAction_eq_find] at recovered ⊢
    rw [grows.stores] at recovered
    exact recovered

/-- Changing the parameters of an output action stamps it. -/
theorem stamped_changeParameters {changed : Action} (output : changed.type = .output) :
    Stamped (model.changeParameters changed parameters) changed.name parameters := by
  constructor
  · intro label transition member type named
    rw [outOf_changeParameters] at member
    obtain ⟨before, _, rfl⟩ := List.mem_map.mp member
    have beforeType : before.action.type = changed.type := by
      rw [output, ← type]
      exact (Action.changeParameters_type _ _ _).symm
    have beforeName : before.action.name = changed.name := by
      rw [← named]
      exact (Action.changeParameters_name _ _ _).symm
    have stampedAction : (before.changeParameters changed parameters).action =
        { before.action with parameters := parameters } := if_pos ⟨beforeType, beforeName⟩
    rw [stampedAction]
  · intro action found type named recovered
    rw [recoverAction_eq_find, type] at recovered
    have lists : (model.changeParameters changed parameters).actionsOf .output =
        changeFirst changed.name parameters (model.actionsOf .output) := by
      unfold TIOSTS.changeParameters Alphabet.changeParameters
      rw [output]
      rfl
    rw [lists] at recovered
    exact find?_changeFirst_self named recovered

/-- Other actions keep their parameters. -/
theorem Stamped.changeParameters (stamped : Stamped model name parameters)
    {changed : Action} (other : changed.name ≠ name) (given : List String) :
    Stamped (model.changeParameters changed given) name parameters := by
  constructor
  · intro label transition member type named
    rw [outOf_changeParameters] at member
    obtain ⟨before, listed, rfl⟩ := List.mem_map.mp member
    have beforeType : before.action.type = .output := by
      rw [← type]
      exact (Action.changeParameters_type _ _ _).symm
    have beforeName : before.action.name = name := by
      rw [← named]
      exact (Action.changeParameters_name _ _ _).symm
    have kept : (before.changeParameters changed given).action = before.action := by
      apply if_neg
      rintro ⟨_, same⟩
      exact other (same.symm.trans beforeName)
    rw [kept]
    exact stamped.outOf label before listed beforeType beforeName
  · intro action found type named recovered
    apply stamped.recovered action found type named
    rw [recoverAction_eq_find] at recovered ⊢
    have different : action.name ≠ changed.name := by
      rw [named]
      exact Ne.symm other
    rw [← recovered, type]
    obtain ⟨changedName, changedType, old⟩ := changed
    cases changedType with
    | input => rfl
    | output => exact (find?_changeFirst_other different).symm
    | internal => rfl

end Stamps

namespace ParallelComposition

/-- The search can reach the pair of locations, and the two transitions synchronise
there. -/
def MeetsAt (model1 model2 : TIOSTS) (parts : Parts) (loc1 loc2 : String)
    (t1 t2 : Transition) : Prop :=
  (parts.search model1 model2).Reaches parts.root (loc1, loc2) ∧
    Move.both loc1 loc2 t1 t2 ∈ (parts.search model1 model2).moves (loc1, loc2)

/-- The two transitions synchronise at some pair of locations the composition visits. -/
def Meets (model1 model2 : TIOSTS) (parts : Parts) (t1 t2 : Transition) : Prop :=
  ∃ loc1 loc2, MeetsAt model1 model2 parts loc1 loc2 t1 t2

/-- Every transition that a synchronisation creates carries the values of both. -/
def CarriesAll (model1 model2 : TIOSTS) (parts : Parts) (result : TIOSTS) : Prop :=
  ∀ loc1 loc2 t1 t2, MeetsAt model1 model2 parts loc1 loc2 t1 t2 →
    ∀ label, ∀ transition ∈ result.outOf label,
      transition.plain = (Move.both loc1 loc2 t1 t2).transition.plain →
        Carries transition t1 t2

/-- Two transitions that synchronise refer to the parameters that any synchronisation on
the same action takes from the second component. -/
def ParametersAgree (model1 model2 : TIOSTS) (parts : Parts) : Prop :=
  ∀ t1 t2, Meets model1 model2 parts t1 t2 →
    ∀ other1 other2, Meets model1 model2 parts other1 other2 →
      other2.action.name = t2.action.name →
        RefersTo t1 other2.action.parameters ∧ RefersTo t2 other2.action.parameters

theorem addEnds_stamped {pc : TIOSTS} {name : String} {parameters : List String}
    (labelled : pc.Labelled) (stamped : Stamped pc name parameters) (source target : String) :
    Stamped (addEnds pc source target) name parameters :=
  stamped.of_same (addEnds_adds labelled source target).outOf
    (fun type => actionsOf_addEnds labelled source target type)

theorem alone_stamped {pc next : TIOSTS} {name : String} {parameters : List String}
    (labelled : pc.Labelled) (stamped : Stamped pc name parameters) {source target : String}
    {alone : Transition} {newAction : Action}
    (recovered : (addEnds pc source target).recoverAction alone.action = .ok newAction)
    (created : (addEnds pc source target).create
      { alone with source := source, action := newAction, target := target } = .ok next) :
    Stamped next name parameters := by
  have ended := addEnds_stamped labelled stamped source target
  apply ended.create (addEnds_adds labelled source target).labelled created
  intro type named
  obtain ⟨_, sameName, sameType⟩ := TIOSTS.recoverAction_eq_ok recovered
  exact ended.recovered alone.action newAction (sameType.symm.trans type)
    (sameName.symm.trans named) recovered

/-- A synchronisation stamps its action and keeps the other stamps. -/
theorem both_stamped {pc next : TIOSTS} (labelled : pc.Labelled) {loc1 loc2 : String}
    {t1 t2 : Transition} (output : (outputAction t1.action t2.action).type = .output)
    (created : (Move.both loc1 loc2 t1 t2).create pc = .ok next) :
    Stamped next (outputAction t1.action t2.action).name t2.action.parameters ∧
      ∀ name parameters, name ≠ (outputAction t1.action t2.action).name →
        Stamped pc name parameters → Stamped next name parameters := by
  obtain ⟨newAction, recovered, attached⟩ := bind_eq_ok.mp created
  obtain ⟨_, sameName, sameType⟩ := TIOSTS.recoverAction_eq_ok recovered
  have ends := addEnds_adds labelled (composedLabel loc1 loc2)
    (composedLabel t1.target t2.target)
  have changedLabelled := @labelled_changeParameters _ newAction t2.action.parameters
    ends.labelled
  constructor
  · rw [← sameName]
    apply (stamped_changeParameters (sameType.trans output)).create changedLabelled attached
    exact fun _ _ => rfl
  · intro name parameters other stamped
    rw [← sameName] at other
    apply ((addEnds_stamped labelled stamped _ _).changeParameters (Ne.symm other)
      t2.action.parameters).create changedLabelled attached
    intro _ named
    exact absurd named.symm other

/-- What is known of the parameters after some moves: where an action has been synchronised
on, it has the parameters of one of these synchronisations. -/
def LastStamped (done : List Move) (pc : TIOSTS) : Prop :=
  ∀ loc1 loc2 t1 t2, Move.both loc1 loc2 t1 t2 ∈ done →
    ∃ lastLoc1 lastLoc2 last1 last2, Move.both lastLoc1 lastLoc2 last1 last2 ∈ done ∧
      (outputAction last1.action last2.action).name = (outputAction t1.action t2.action).name ∧
        Stamped pc (outputAction t1.action t2.action).name last2.action.parameters

theorem Move.create_lastStamped {done : List Move} {pc next : TIOSTS} {move : Move}
    (labelled : pc.Labelled) (before : LastStamped done pc)
    (output : ∀ loc1 loc2 t1 t2, move = .both loc1 loc2 t1 t2 →
      (outputAction t1.action t2.action).type = .output)
    (created : move.create pc = .ok next) : LastStamped (done ++ [move]) next := by
  -- a move of one component keeps all stamps
  have alone : (∀ loc1 loc2 t1 t2, move ≠ .both loc1 loc2 t1 t2) →
      (∀ name parameters, Stamped pc name parameters → Stamped next name parameters) →
        LastStamped (done ++ [move]) next := by
    intro notBoth keeps loc1 loc2 t1 t2 member
    rcases List.mem_append.mp member with earlier | now
    · obtain ⟨lastLoc1, lastLoc2, last1, last2, inDone, same, stamped⟩ :=
        before loc1 loc2 t1 t2 earlier
      exact ⟨lastLoc1, lastLoc2, last1, last2, List.mem_append_left _ inDone, same,
        keeps _ _ stamped⟩
    · exact absurd (List.mem_singleton.mp now).symm (notBoth loc1 loc2 t1 t2)
  cases move with
  | first loc1 loc2 t1 =>
      obtain ⟨newAction, recovered, attached⟩ := bind_eq_ok.mp created
      apply alone
      · intro _ _ _ _ impossible
        cases impossible
      · exact fun _ _ stamped => alone_stamped labelled stamped recovered attached
  | second loc1 loc2 t2 =>
      obtain ⟨newAction, recovered, attached⟩ := bind_eq_ok.mp created
      apply alone
      · intro _ _ _ _ impossible
        cases impossible
      · exact fun _ _ stamped => alone_stamped labelled stamped recovered attached
  | both now1 now2 this1 this2 =>
      obtain ⟨own, others⟩ := both_stamped labelled (output _ _ _ _ rfl) created
      have inDone : Move.both now1 now2 this1 this2 ∈ done ++ [.both now1 now2 this1 this2] :=
        List.mem_append_right _ List.mem_cons_self
      intro loc1 loc2 t1 t2 member
      by_cases same : (outputAction this1.action this2.action).name =
          (outputAction t1.action t2.action).name
      · rw [same] at own
        exact ⟨now1, now2, this1, this2, inDone, same, own⟩
      · rcases List.mem_append.mp member with earlier | now
        · obtain ⟨lastLoc1, lastLoc2, last1, last2, lastDone, lastSame, stamped⟩ :=
            before loc1 loc2 t1 t2 earlier
          exact ⟨lastLoc1, lastLoc2, last1, last2, List.mem_append_left _ lastDone, lastSame,
            others _ _ (Ne.symm same) stamped⟩
        · cases List.mem_singleton.mp now
          exact absurd rfl same

section Input

variable {order : IterationOrder} {model1 model2 result : TIOSTS} {parts : Parts}

variable (input : IsParallelInput order model1 model2 parts)

include input

theorem IsParallelInput.meets_actions {loc1 loc2 : String} {t1 t2 : Transition}
    (legal : parts.IsLegal model1 model2 (.both loc1 loc2 t1 t2)) :
    (outputAction t1.action t2.action).type = .output ∧
      (outputAction t1.action t2.action).name = t2.action.name ∧
        t1.action.name = t2.action.name ∧ t2.action.name ∈ model2.getActionNames := by
  obtain ⟨_, in2, together⟩ := legal
  obtain ⟨types, names⟩ := canSynchronize_iff.mp together
  refine ⟨?_, ?_, names, named_of_copy input.exactCopy2 in2⟩
  · unfold outputAction
    rcases types with ⟨_, output⟩ | ⟨inputType, output⟩
    · rw [if_pos output]
      exact output
    · rw [if_neg (by rw [inputType]; decide)]
      exact output
  · unfold outputAction
    split
    · rfl
    · exact names

/-- A transition that looks like one created by a synchronisation has the parameters of a
followed synchronisation on the same action. -/
theorem IsParallelInput.stamped_of_followed {followed : List Move}
    (follows : Follows parts.base followed result)
    (created : followed.foldlM Move.create parts.base = .ok result)
    (sound : ∀ move ∈ followed, (parts.search model1 model2).Reaches parts.root move.source ∧
      move ∈ (parts.search model1 model2).moves move.source)
    {loc1 loc2 : String} {t1 t2 : Transition} (meets : MeetsAt model1 model2 parts loc1 loc2 t1 t2)
    {label : String} {transition : Transition} (member : transition ∈ result.outOf label)
    (looks : transition.plain = (Move.both loc1 loc2 t1 t2).transition.plain) :
    ∃ last1 last2, Meets model1 model2 parts last1 last2 ∧
      last2.action.name = t2.action.name ∧
        transition.action.parameters = last2.action.parameters := by
  have legalOf : ∀ move ∈ followed, parts.IsLegal model1 model2 move :=
    fun move isFollowed => (input.mem_moves.mp (sound move isFollowed).2).2.1
  have stamps : LastStamped followed result := by
    have both : Follows parts.base followed result ∧ LastStamped followed result := by
      apply Loops.foldlM_returned (fun done state =>
        Follows parts.base done state ∧ LastStamped done state) created
      · refine ⟨Follows.refl parts.base_labelled, ?_⟩
        intro _ _ _ _ impossible
        cases impossible
      · rintro done move rest state next whole ⟨before, stamped⟩ stepped
        refine ⟨before.step stepped, ?_⟩
        apply Move.create_lastStamped before.labelled stamped _ stepped
        rintro now1 now2 this1 this2 rfl
        exact (input.meets_actions (legalOf (.both now1 now2 this1 this2) (by simp [whole]))).1
    exact both.2
  obtain ⟨output, name, _, known⟩ :=
    input.meets_actions (input.mem_moves.mp meets.2).2.1
  have type : transition.action.type = .output := by
    rw [← Transition.plain_actionType, looks]
    exact output
  have named : transition.action.name = t2.action.name := by
    rw [← Transition.plain_actionName, looks]
    exact name
  -- the transition has been created by a synchronisation
  have origin : ∃ now1 now2 this1 this2, Move.both now1 now2 this1 this2 ∈ followed ∧
      (outputAction this1.action this2.action).name = t2.action.name := by
    have inPlain : transition.plain ∈ (result.outOf label).map Transition.plain :=
      List.mem_map_of_mem member
    rw [follows.outOf, parts.base_outOf] at inPlain
    rcases List.mem_append.mp inPlain with atBase | atFollowed
    · obtain ⟨initial, isInitial, same⟩ := List.mem_map.mp atBase
      obtain rfl := List.mem_singleton.mp (List.mem_filter.mp isInitial).1
      have internal : transition.plain.action.type = .internal := by
        rw [← same]
        rfl
      rw [Transition.plain_actionType, type] at internal
      cases internal
    · obtain ⟨move, isFollowed, same⟩ := List.mem_map.mp (List.mem_filter.mp atFollowed).1
      have moveName : move.action.name = t2.action.name := by
        rw [← move.transition_action, ← named, ← Transition.plain_actionName,
          ← Transition.plain_actionName transition, same]
      have legal := legalOf move isFollowed
      cases move with
      | first now1 now2 this1 => exact absurd (moveName ▸ known) legal.2
      | second now1 now2 this2 =>
          have alone := legal.2
          have partner := named_of_copy input.exactCopy1 (input.mem_moves.mp meets.2).2.1.1
          have partnerName := (input.meets_actions (input.mem_moves.mp meets.2).2.1).2.2.1
          rw [show this2.action.name = t2.action.name from moveName, ← partnerName] at alone
          exact absurd partner alone
      | both now1 now2 this1 this2 => exact ⟨now1, now2, this1, this2, isFollowed, moveName⟩
  obtain ⟨now1, now2, this1, this2, isFollowed, thisName⟩ := origin
  obtain ⟨lastLoc1, lastLoc2, last1, last2, inFollowed, lastName, stamped⟩ :=
    stamps now1 now2 this1 this2 isFollowed
  obtain ⟨_, lastSame, _, _⟩ := input.meets_actions (legalOf _ inFollowed)
  refine ⟨last1, last2, ⟨lastLoc1, lastLoc2, sound _ inFollowed⟩, ?_, ?_⟩
  · rw [← lastSame, lastName, thisName]
  · exact stamped.outOf label transition member type (named.trans thisName.symm)

theorem IsParallelInput.carriesAll_iff {depth : Nat} {visited after : List String}
    (returned : (parallelComposition order depth model1 model2).outcome visited =
      (.ok result, after)) :
    (ParametersAgree model1 model2 parts → CarriesAll model1 model2 parts result) ∧
    (visited = [] → model1.LabelsAvoid [','] →
      (∀ t1 t2, Meets model1 model2 parts t1 t2 →
        ∀ other1 other2, Meets model1 model2 parts other1 other2 →
          other2.action.name = t2.action.name →
            other2.action.parameters = t2.action.parameters) →
      (CarriesAll model1 model2 parts result ↔ ParametersAgree model1 model2 parts)) := by
  have enough : ParametersAgree model1 model2 parts →
      CarriesAll model1 model2 parts result := by
    intro agree loc1 loc2 t1 t2 meets label transition member looks
    obtain ⟨followed, follows, created, sound⟩ := input.returned_followed returned
    obtain ⟨last1, last2, lastMeets, name, parameters⟩ :=
      input.stamped_of_followed follows created sound meets member looks
    rw [Carries, parameters]
    exact agree t1 t2 ⟨loc1, loc2, meets⟩ last1 last2 lastMeets name
  refine ⟨enough, ?_⟩
  rintro rfl avoid1 shared
  refine ⟨?_, enough⟩
  rintro carries t1 t2 ⟨loc1, loc2, meets⟩ other1 other2 otherMeets name
  obtain ⟨followed, follows, created, isFollowed⟩ := input.fresh_followed avoid1 returned
  have sound := fun move => (isFollowed move).mp
  have inFollowed : Move.both loc1 loc2 t1 t2 ∈ followed := (isFollowed _).mpr meets
  have inResult : (Move.both loc1 loc2 t1 t2).transition.plain ∈
      (result.outOf (pairLabel (loc1, loc2))).map Transition.plain := by
    rw [follows.outOf]
    apply List.mem_append_right
    apply List.mem_filter.mpr
    exact ⟨List.mem_map_of_mem inFollowed, decide_eq_true rfl⟩
  obtain ⟨transition, member, looks⟩ := List.mem_map.mp inResult
  have holds := carries loc1 loc2 t1 t2 meets _ transition member looks
  obtain ⟨last1, last2, lastMeets, lastName, parameters⟩ :=
    input.stamped_of_followed follows created sound meets member looks
  rw [Carries, parameters, shared t1 t2 ⟨loc1, loc2, meets⟩ last1 last2 lastMeets lastName,
    ← shared t1 t2 ⟨loc1, loc2, meets⟩ other1 other2 otherMeets name] at holds
  exact holds

end Input

end ParallelComposition

/-- The transitions that the synchronisations create carry the values of both components
exactly if the component whose parameters are given up refers to those taken over.  In the
parallel composition every synchronisation on an action decides for all others; there the
condition is necessary on a fresh instance when no label of the first model contains a
comma and the synchronisations on one action do not differ.  What is carried is read: in
every step on the composed transition the mentioned parameters have the values exchanged. -/
theorem synchronisations_carry_iff {order : IterationOrder} {model1 model2 : TIOSTS}
    (wellFormed1 : model1.WellFormed) (wellFormed2 : model2.WellFormed) :
    (∀ parts depth visited after result,
      ParallelComposition.IsParts order model1 model2 parts →
      (ParallelComposition.parallelComposition order depth model1 model2).outcome visited =
        (.ok result, after) →
      (ParallelComposition.ParametersAgree model1 model2 parts →
        ParallelComposition.CarriesAll model1 model2 parts result) ∧
      (visited = [] → model1.LabelsAvoid [','] →
        (∀ t1 t2, ParallelComposition.Meets model1 model2 parts t1 t2 →
          ∀ other1 other2, ParallelComposition.Meets model1 model2 parts other1 other2 →
            other2.action.name = t2.action.name →
              other2.action.parameters = t2.action.parameters) →
        (ParallelComposition.CarriesAll model1 model2 parts result ↔
          ParallelComposition.ParametersAgree model1 model2 parts))) ∧
    (∀ junction result, SequentialComposition.IsJunction order model1 model2 junction →
      SequentialComposition.sequentialComposition order model1 model2 = .ok result →
      junction.merged ∈ result.outOf junction.source ∧
        (Carries junction.merged junction.tc1 junction.t02 ↔
          RefersTo junction.tc1 junction.t02.action.parameters)) ∧
    (∀ parts result, InterruptionComposition.IsParts order model1 model2 parts →
      InterruptionComposition.interruptionComposition order model1 model2 = .ok result →
      ∀ point ∈ parts.points, parts.merged point ∈ result.outOf point.source ∧
        (Carries (parts.merged point) point.t1Sync point.t2Sync ↔ point.Agrees)) ∧
    ∀ composed first second, Carries composed first second →
      ReadsExchanged first composed.action.parameters ∧
        ReadsExchanged second composed.action.parameters := by
  refine ⟨?_, ?_, ?_, ?_⟩
  · intro parts depth visited after result isParts returned
    have input : ParallelComposition.IsParallelInput order model1 model2 parts :=
      ⟨wellFormed1, wellFormed2, isParts⟩
    exact input.carriesAll_iff returned
  · intro junction result isJunction returned
    exact SequentialComposition.carries_iff isJunction returned
  · intro parts result isParts returned point inPoints
    exact InterruptionComposition.carries_iff isParts returned inPoints
  · intro composed first second carries
    exact ⟨carries.1.readsExchanged, carries.2.readsExchanged⟩

namespace CallInstance

def order : IterationOrder := ⟨id, IterationOrder.id_perm⟩

/-- The call of a model, which compares its only parameter with 0. -/
def call (source : String) (type : ActionType) (parameter target : String) : Transition :=
  { Transition.bare source ⟨"call", type, [parameter]⟩ target with
    dataGuard := .written (parameter ++ " > 0") }

def model1 : TIOSTS :=
  .assemble (.declare "M" [⟨"i", .internal, []⟩, ⟨"call", .output, ["p"]⟩] []
      [⟨"p", .integer⟩] [])
    ["s", "a", "b"] "s" [.bare "s" ⟨"i", .internal, []⟩ "a", call "a" .output "p" "b"]

def declarations2 (parameter : String) : TIOSTS :=
  .declare "N" [⟨"j", .internal, []⟩, ⟨"call", .input, [parameter]⟩] []
    [⟨parameter, .integer⟩] []

def transitions2 (parameter : String) : List Transition :=
  [.bare "t" ⟨"j", .internal, []⟩ "c", call "c" .input parameter "d"]

/-- A model that is called with a parameter of its own name. -/
def model2 (parameter : String) : TIOSTS :=
  .assemble (declarations2 parameter) ["t", "c", "d"] "t" (transitions2 parameter)

theorem wellFormed1 : model1.WellFormed :=
  TIOSTS.assemble_wellFormed (TIOSTS.declare_isBlank _ _ _ _ _) (by decide)

section Parallel

open ParallelComposition

variable {parts : ParallelComposition.Parts} {parameter : String}

/-- What is checked of the copies: the two calls are all that can synchronise. -/
def Calls (parts : ParallelComposition.Parts) (parameter : String) : Prop :=
  parts.root = ("a", "c") ∧ call "a" .output "p" "b" ∈ parts.tiosts1.outOf "a" ∧
    call "c" .input parameter "d" ∈ parts.tiosts2.outOf "c" ∧
      ∀ t1 ∈ parts.tiosts1.getTransitions order,
        ∀ t2 ∈ parts.tiosts2.getTransitions order,
          canSynchronize t1.action t2.action = true →
            t1 = call "a" .output "p" "b" ∧ t2 = call "c" .input parameter "d"

instance : Decidable (Calls parts parameter) :=
  inferInstanceAs (Decidable (_ ∧ _ ∧ _ ∧ _))

theorem Calls.meets_iff (calls : Calls parts parameter)
    (input : IsParallelInput order model1 (model2 parameter) parts) {t1 t2 : Transition} :
    Meets model1 (model2 parameter) parts t1 t2 ↔
      t1 = call "a" .output "p" "b" ∧ t2 = call "c" .input parameter "d" := by
  obtain ⟨root, in1, in2, only⟩ := calls
  constructor
  · rintro ⟨loc1, loc2, _, listed⟩
    obtain ⟨_, ⟨member1, member2, together⟩, _⟩ := input.mem_moves.mp listed
    apply only t1 _ t2 _ together
    · exact (mem_getTransitions_of_outOf input.exactCopy1 member1).1
    · exact (mem_getTransitions_of_outOf input.exactCopy2 member2).1
  · rintro ⟨rfl, rfl⟩
    refine ⟨"a", "c", ?_, ?_⟩
    · rw [root]
      exact .refl
    · apply input.mem_moves.mpr
      exact ⟨rfl, ⟨in1, in2, by simp [canSynchronize, call, Transition.bare]⟩, trivial⟩

end Parallel

end CallInstance

open CallInstance in
/-- Calls that name their parameter alike are carried everywhere. -/
theorem synchronisations_carry_alike :
    (∃ parts after result, ParallelComposition.IsParts order model1 (model2 "p") parts ∧
      (ParallelComposition.parallelComposition order 5 model1 (model2 "p")).outcome [] =
        (.ok result, after) ∧
          ParallelComposition.CarriesAll model1 (model2 "p") parts result) ∧
    (∃ junction result,
      SequentialComposition.IsJunction order model1 (model2 "p") junction ∧
      SequentialComposition.sequentialComposition order model1 (model2 "p") = .ok result ∧
        junction.merged ∈ result.outOf junction.source ∧
          Carries junction.merged junction.tc1 junction.t02) ∧
    ∃ parts result, InterruptionComposition.IsParts order model1 (model2 "p") parts ∧
      InterruptionComposition.interruptionComposition order model1 (model2 "p") =
        .ok result ∧ ∃ point ∈ parts.points, parts.merged point ∈ result.outOf point.source ∧
          Carries (parts.merged point) point.t1Sync point.t2Sync := by
  have wellFormed2 : (model2 "p").WellFormed :=
    TIOSTS.assemble_wellFormed (TIOSTS.declare_isBlank _ _ _ _ _) (by decide)
  obtain ⟨parallel, sequential, interruption, _⟩ :=
    @synchronisations_carry_iff order _ _ wellFormed1 wellFormed2
  refine ⟨?_, ?_, ?_⟩
  · have found : (ParallelComposition.findParts order model1 (model2 "p")).toOption.map
        (fun parts => decide (Calls parts "p")) = some true := by decide +kernel
    have ran : ((ParallelComposition.parallelComposition order 5 model1
        (model2 "p")).outcome []).1.toOption.isSome = true := by decide +kernel
    obtain ⟨parts, isFound, checked⟩ := exists_checked found
    have isParts := ParallelComposition.isParts_of_findParts isFound
    have input : ParallelComposition.IsParallelInput order model1 (model2 "p") parts :=
      ⟨wellFormed1, wellFormed2, isParts⟩
    have calls := of_decide_eq_true checked
    obtain ⟨result, returned⟩ := exists_ok ran
    obtain ⟨after, outcome⟩ := ParallelComposition.Visits.exists_returned _ _ returned
    refine ⟨parts, after, result, isParts, outcome, ?_⟩
    apply (parallel parts 5 [] after result isParts outcome).1
    intro t1 t2 meets other1 other2 otherMeets _
    obtain ⟨rfl, rfl⟩ := (calls.meets_iff input).mp meets
    obtain ⟨_, rfl⟩ := (calls.meets_iff input).mp otherMeets
    exact ⟨by decide, by decide⟩
  · have found : (SequentialComposition.findJunction order model1
        (model2 "p")).toOption.map (fun junction => decide (
          RefersTo junction.tc1 junction.t02.action.parameters)) = some true := by decide
    have ran : (SequentialComposition.sequentialComposition order model1
        (model2 "p")).toOption.isSome = true := by decide
    obtain ⟨junction, isFound, refers⟩ := exists_checked found
    have isJunction := SequentialComposition.isJunction_of_findJunction isFound
    obtain ⟨result, returned⟩ := exists_ok ran
    obtain ⟨member, carries⟩ := sequential junction result isJunction returned
    exact ⟨junction, result, isJunction, returned, member,
      carries.mpr (of_decide_eq_true refers)⟩
  · have found : (InterruptionComposition.findParts order model1
        (model2 "p")).toOption.map (fun parts => decide (
          ∃ point ∈ parts.points, point.Agrees)) = some true := by decide
    have ran : (InterruptionComposition.interruptionComposition order model1
        (model2 "p")).toOption.isSome = true := by decide
    obtain ⟨parts, isFound, checked⟩ := exists_checked found
    have isParts := InterruptionComposition.isParts_of_findParts isFound
    obtain ⟨result, returned⟩ := exists_ok ran
    obtain ⟨point, inPoints, agrees⟩ := of_decide_eq_true checked
    obtain ⟨member, carries⟩ := interruption parts result isParts returned point inPoints
    exact ⟨parts, result, isParts, returned, point, inPoints, member, carries.mpr agrees⟩

open CallInstance in
/-- A call whose parameter has another name loses the value in all three compositions. -/
theorem synchronisations_lose_renamed :
    (∃ parts after result, ParallelComposition.IsParts order model1 (model2 "q") parts ∧
      (ParallelComposition.parallelComposition order 5 model1 (model2 "q")).outcome [] =
        (.ok result, after) ∧
          ¬ ParallelComposition.CarriesAll model1 (model2 "q") parts result) ∧
    (∃ junction result,
      SequentialComposition.IsJunction order model1 (model2 "q") junction ∧
      SequentialComposition.sequentialComposition order model1 (model2 "q") = .ok result ∧
        junction.merged ∈ result.outOf junction.source ∧
          ¬ Carries junction.merged junction.tc1 junction.t02) ∧
    ∃ parts result, InterruptionComposition.IsParts order model1 (model2 "q") parts ∧
      InterruptionComposition.interruptionComposition order model1 (model2 "q") =
        .ok result ∧ ∃ point ∈ parts.points, parts.merged point ∈ result.outOf point.source ∧
          ¬ Carries (parts.merged point) point.t1Sync point.t2Sync := by
  have wellFormed2 : (model2 "q").WellFormed :=
    TIOSTS.assemble_wellFormed (TIOSTS.declare_isBlank _ _ _ _ _) (by decide)
  refine ⟨?_, ?_, ?_⟩
  · have found : (ParallelComposition.findParts order model1 (model2 "q")).toOption.map
        (fun parts => decide (Calls parts "q")) = some true := by decide +kernel
    have ran : ((ParallelComposition.parallelComposition order 5 model1
        (model2 "q")).outcome []).1.toOption.isSome = true := by decide +kernel
    obtain ⟨parts, isFound, checked⟩ := exists_checked found
    have isParts := ParallelComposition.isParts_of_findParts isFound
    have input : ParallelComposition.IsParallelInput order model1 (model2 "q") parts :=
      ⟨wellFormed1, wellFormed2, isParts⟩
    have calls := of_decide_eq_true checked
    have avoid : model1.LabelsAvoid [','] :=
      TIOSTS.assemble_labelsAvoid (TIOSTS.declare_isBlank _ _ _ _ _) (by decide)
    obtain ⟨result, returned⟩ := exists_ok ran
    obtain ⟨after, outcome⟩ := ParallelComposition.Visits.exists_returned _ _ returned
    refine ⟨parts, after, result, isParts, outcome, ?_⟩
    intro carries
    have agree := ((input.carriesAll_iff outcome).2 rfl avoid ?_).mp carries
    · have meets := (calls.meets_iff input).mpr ⟨rfl, rfl⟩
      have refers := (agree _ _ meets _ _ meets rfl).1
      revert refers
      decide
    · intro t1 t2 meets other1 other2 otherMeets _
      obtain ⟨_, rfl⟩ := (calls.meets_iff input).mp meets
      obtain ⟨_, rfl⟩ := (calls.meets_iff input).mp otherMeets
      rfl
  · have found : (SequentialComposition.findJunction order model1
        (model2 "q")).toOption.map (fun junction => decide (
          ¬ RefersTo junction.tc1 junction.t02.action.parameters)) = some true := by decide
    have ran : (SequentialComposition.sequentialComposition order model1
        (model2 "q")).toOption.isSome = true := by decide
    obtain ⟨junction, isFound, refers⟩ := exists_checked found
    have isJunction := SequentialComposition.isJunction_of_findJunction isFound
    obtain ⟨result, returned⟩ := exists_ok ran
    obtain ⟨member, carries⟩ := SequentialComposition.carries_iff isJunction returned
    exact ⟨junction, result, isJunction, returned, member,
      fun carried => of_decide_eq_true refers (carries.mp carried)⟩
  · have found : (InterruptionComposition.findParts order model1
        (model2 "q")).toOption.map (fun parts => decide (
          ∃ point ∈ parts.points, ¬ point.Agrees)) = some true := by decide
    have ran : (InterruptionComposition.interruptionComposition order model1
        (model2 "q")).toOption.isSome = true := by decide
    obtain ⟨parts, isFound, checked⟩ := exists_checked found
    have isParts := InterruptionComposition.isParts_of_findParts isFound
    obtain ⟨result, returned⟩ := exists_ok ran
    obtain ⟨point, inPoints, agrees⟩ := of_decide_eq_true checked
    obtain ⟨member, carries⟩ :=
      InterruptionComposition.carries_iff isParts returned inPoints
    exact ⟨parts, result, isParts, returned, point, inPoints, member,
      fun carried => agrees (carries.mp carried)⟩

end Symbolrt
