import Symbolrt.SymbolicExecution.ReachedMappings

/-!
# Conjunctions of guards

Guards are put together with AND but without parentheses.  The text is the conjunction of
two guards exactly if what their other alternatives and equivalences say does not matter.
-/

namespace Symbolrt

open Expression (Interpretation Holds)

/-- A text that can be read as a condition. -/
def IsCondition (text : String) : Prop := (Expression.read text).isSome = true

instance (text : String) : Decidable (IsCondition text) := inferInstanceAs (Decidable (_ = true))

/-- The right end of a guard. One that cannot be read never holds. -/
def rightEndOf (interpretation : Interpretation) (guard : String) : Expression.RightEnd :=
  match Expression.read guard with
  | none => ⟨true, false, false⟩
  | some tree => Expression.rightEnd interpretation tree

/-- The left end of a guard. One that cannot be read never holds. -/
def leftEndOf (interpretation : Interpretation) (guard : String) : Expression.LeftEnd :=
  match Expression.read guard with
  | none => ⟨false, false, true⟩
  | some tree => Expression.leftEnd interpretation tree

/-- What the guards say outside of their ends that meet does not matter. -/
def GuardsSeparated (interpretation : Interpretation) (guard other : String) : Prop :=
  Expression.Separated (rightEndOf interpretation guard) (leftEndOf interpretation other)

/-- The text says what both guards say. -/
def DenotesConjunction (interpretation : Interpretation) (text guard other : String) : Prop :=
  Holds interpretation text ↔ Holds interpretation guard ∧ Holds interpretation other

theorem holds_iff {interpretation : Interpretation} {text : String} {tree : Expression.Tree}
    (isRead : Expression.read text = some tree) :
    Holds interpretation text ↔ Expression.truth interpretation tree = true := by
  simp [Holds, Expression.value, isRead, Expression.truth]

theorem read_true : Expression.read Constants.guardTrue = some (.word "TRUE") := by decide

theorem isCondition_true : IsCondition Constants.guardTrue := by decide

theorem holds_true (interpretation : Interpretation) :
    Holds interpretation Constants.guardTrue :=
  (holds_iff read_true).mpr rfl

theorem guardsSeparated_true_left {interpretation : Interpretation} (guard : String) :
    GuardsSeparated interpretation Constants.guardTrue guard := by
  have every : ∀ first others behind, Expression.Separated ⟨true, false, true⟩
      ⟨first, others, behind⟩ := by decide
  have here : rightEndOf interpretation Constants.guardTrue = ⟨true, false, true⟩ := by
    rw [rightEndOf, read_true]
    rfl
  rw [GuardsSeparated, here]
  exact every _ _ _

theorem guardsSeparated_true_right {interpretation : Interpretation} (guard : String) :
    GuardsSeparated interpretation guard Constants.guardTrue := by
  have every : ∀ before others last, Expression.Separated ⟨before, others, last⟩
      ⟨true, false, true⟩ := by decide
  have here : leftEndOf interpretation Constants.guardTrue = ⟨true, false, true⟩ := by
    rw [leftEndOf, read_true]
    rfl
  rw [GuardsSeparated, here]
  exact every _ _ _

/-- Two guards with AND between them are their conjunction exactly if they are separated. -/
theorem conjunction_iff {guard other : String} (isCondition : IsCondition guard)
    (otherCondition : IsCondition other) (interpretation : Interpretation) :
    DenotesConjunction interpretation
        (guard ++ " " ++ Constants.guardConjunction ++ " " ++ other) guard other ↔
      GuardsSeparated interpretation guard other := by
  obtain ⟨tree, isRead⟩ := Option.isSome_iff_exists.mp isCondition
  obtain ⟨otherTree, otherRead⟩ := Option.isSome_iff_exists.mp otherCondition
  have grouped := (Expression.print_of_read isRead).2
  have otherGrouped := (Expression.print_of_read otherRead).2
  have together := Expression.read_conjunction isRead otherRead
  have text : guard ++ " " ++ Constants.guardConjunction ++ " " ++ other =
      guard ++ " " ++ "AND" ++ " " ++ other := rfl
  have junction := Expression.junction_eq_iff (Expression.rightEnd interpretation tree)
    (Expression.leftEnd interpretation otherTree)
  rw [← Expression.truth_joined grouped otherGrouped, Expression.holds_rightEnd,
    Expression.holds_leftEnd otherGrouped, Bool.eq_iff_iff, Bool.and_eq_true] at junction
  rw [DenotesConjunction, text, holds_iff together, holds_iff isRead, holds_iff otherRead, junction,
    GuardsSeparated, rightEndOf, leftEndOf, isRead, otherRead]

theorem isCondition_conjunction {guard other : String} (isCondition : IsCondition guard)
    (otherCondition : IsCondition other) :
    IsCondition (guard ++ " " ++ Constants.guardConjunction ++ " " ++ other) := by
  obtain ⟨tree, isRead⟩ := Option.isSome_iff_exists.mp isCondition
  obtain ⟨otherTree, otherRead⟩ := Option.isSome_iff_exists.mp otherCondition
  have text : guard ++ " " ++ Constants.guardConjunction ++ " " ++ other =
      guard ++ " " ++ "AND" ++ " " ++ other := rfl
  rw [IsCondition, text, Expression.read_conjunction isRead otherRead]
  rfl

/-- The guard has neither alternatives nor an equivalence outside of parentheses. -/
def IsPlain (guard : String) : Prop :=
  ∃ tree ∈ Expression.read guard, Precedence.StartsAbove Expression.grammar 1 tree

instance (tree : Expression.Tree) : Decidable (Precedence.StartsAbove Expression.grammar 1 tree) :=
  inferInstanceAs (Decidable (∀ operator ∈ _, _))

instance (guard : String) : Decidable (IsPlain guard) :=
  inferInstanceAs (Decidable (∃ tree ∈ Expression.read guard, _))

theorem IsPlain.isCondition {guard : String} (isPlain : IsPlain guard) : IsCondition guard := by
  obtain ⟨tree, isRead, _⟩ := isPlain
  rw [IsCondition, Option.mem_def.mp isRead]
  rfl

theorem IsPlain.separated {guard other : String} (isPlain : IsPlain guard)
    (otherPlain : IsPlain other) (interpretation : Interpretation) :
    GuardsSeparated interpretation guard other := by
  obtain ⟨tree, isRead, starts⟩ := isPlain
  obtain ⟨otherTree, otherRead, otherStarts⟩ := otherPlain
  have right : Expression.rightEnd interpretation tree =
      ⟨true, false, Expression.truth interpretation tree⟩ := by
    rw [Expression.rightEnd_of_startsAbove (starts.weaken (Nat.zero_le 1)),
      Expression.rightAlternatives_of_startsAbove starts]
  have every : ∀ last first, Expression.Separated ⟨true, false, last⟩ ⟨first, false, true⟩ := by
    decide
  rw [GuardsSeparated, rightEndOf, leftEndOf, Option.mem_def.mp isRead,
    Option.mem_def.mp otherRead]
  simp only [right, Expression.leftEnd_of_startsAbove otherStarts]
  exact every _ _

namespace SynchronousProduct

theorem createDataGuard_denotes_iff {specGuard tpGuard : DataGuard}
    (specCondition : IsCondition specGuard.text) (tpCondition : IsCondition tpGuard.text)
    (interpretation : Interpretation) :
    DenotesConjunction interpretation (createDataGuard specGuard tpGuard).text specGuard.text
        tpGuard.text ↔
      GuardsSeparated interpretation specGuard.text tpGuard.text := by
  unfold createDataGuard
  split
  · rename_i isTrue
    rw [isTrue]
    have holds : Holds interpretation DataGuard.constantTrue.text := holds_true interpretation
    constructor
    · exact fun _ => guardsSeparated_true_right _
    · exact fun _ => (and_iff_left holds).symm
  · split
    · rename_i isTrue
      rw [isTrue]
      have holds : Holds interpretation DataGuard.constantTrue.text := holds_true interpretation
      constructor
      · exact fun _ => guardsSeparated_true_left _
      · exact fun _ => (and_iff_right holds).symm
    · exact conjunction_iff specCondition tpCondition interpretation

end SynchronousProduct

namespace SymbolicExecution

theorem createNextPathCondition_denotes_iff {previous dataGuard : String}
    (previousCondition : IsCondition previous) (guardCondition : IsCondition dataGuard)
    (interpretation : Interpretation) :
    DenotesConjunction interpretation (createNextPathCondition previous dataGuard) previous
        dataGuard ↔
      GuardsSeparated interpretation previous dataGuard := by
  unfold createNextPathCondition
  split
  · rename_i isTrue
    rw [isTrue]
    constructor
    · exact fun _ => guardsSeparated_true_left _
    · exact fun _ => (and_iff_right (holds_true interpretation)).symm
  · split
    · rename_i isTrue
      rw [isTrue]
      constructor
      · exact fun _ => guardsSeparated_true_right _
      · exact fun _ => (and_iff_left (holds_true interpretation)).symm
    · exact conjunction_iff previousCondition guardCondition interpretation

theorem isCondition_createNextPathCondition {previous dataGuard : String}
    (previousCondition : IsCondition previous) (guardCondition : IsCondition dataGuard) :
    IsCondition (createNextPathCondition previous dataGuard) := by
  unfold createNextPathCondition
  split
  · exact guardCondition
  · split
    · exact previousCondition
    · exact isCondition_conjunction previousCondition guardCondition

theorem isPlain_createNextPathCondition {previous dataGuard : String}
    (previousPlain : IsPlain previous) (guardPlain : IsPlain dataGuard) :
    IsPlain (createNextPathCondition previous dataGuard) := by
  unfold createNextPathCondition
  split
  · exact guardPlain
  · split
    · exact previousPlain
    · obtain ⟨tree, isRead, starts⟩ := previousPlain
      obtain ⟨otherTree, otherRead, otherStarts⟩ := guardPlain
      refine ⟨_, Expression.read_conjunction isRead otherRead, ?_⟩
      exact Expression.startsAbove_joined (Expression.print_of_read isRead).2 starts
        (Expression.print_of_read otherRead).2 otherStarts

theorem holds_createNextPathCondition {previous dataGuard : String}
    (previousPlain : IsPlain previous) (guardPlain : IsPlain dataGuard)
    (interpretation : Interpretation) :
    Holds interpretation (createNextPathCondition previous dataGuard) ↔
      Holds interpretation previous ∧ Holds interpretation dataGuard :=
  (createNextPathCondition_denotes_iff previousPlain.isCondition guardPlain.isCondition
    interpretation).mpr (previousPlain.separated guardPlain interpretation)

/-- The guard of a transition with the symbolic values that it sees put in. -/
def instantiatedGuard (state : SymbolicState) (transition : Transition) :
    Except Failure String := do
  let symbolicValues ← receivedValues state transition
  return if transition.dataGuard.text = Constants.guardTrue then transition.dataGuard.text
    else updateExpression transition.dataGuard.text symbolicValues

/-- Runs with the instantiated guards of their steps, the newest first. -/
inductive GuardedRun (tools : SymbolicTools) (tiosts : TIOSTS) (root : SymbolicState) :
    List Nat → List SymbolicState → List String → Prop where
  | root : GuardedRun tools tiosts root [] [root] []
  | step {choices : List Nat} {current : SymbolicState} {above : List SymbolicState}
      {guards : List String} {choice : Nat} {transition : Transition}
      {symbolicAction : SymbolicAction} {next : SymbolicState} {guard : String} :
      GuardedRun tools tiosts root choices (current :: above) guards →
      current.location.outTransitions[choice]? = some transition →
      nextZSES tools tiosts current transition = .ok (symbolicAction, next) →
      instantiatedGuard current transition = .ok guard →
      isPathConditionSatisfied tools (varParamMapping tiosts) next.pathCondition = .ok true →
      isZoneEmpty tools next.zone = false →
      GuardedRun tools tiosts root (choices ++ [choice]) (next :: current :: above)
        (guard :: guards)

/-- Every path condition says what the guards up to it say. -/
def ConditionsDenote (interpretation : Interpretation) :
    List SymbolicState → List String → Prop
  | [], _ => True
  | state :: above, guards =>
      (Holds interpretation state.pathCondition ↔
        ∀ guard ∈ guards, Holds interpretation guard) ∧
      ConditionsDenote interpretation above guards.tail

/-- Every guard is separated from the path condition of the state before it. -/
def StepsSeparated (interpretation : Interpretation) : List SymbolicState → List String → Prop
  | _ :: current :: above, guard :: guards =>
      GuardsSeparated interpretation current.pathCondition guard ∧
        StepsSeparated interpretation (current :: above) guards
  | _, _ => True

/-- All guards, and the path conditions before them, are plain. -/
def StepsPlain : List SymbolicState → List String → Prop
  | _ :: current :: above, guard :: guards =>
      (IsPlain current.pathCondition ∧ IsPlain guard) ∧ StepsPlain (current :: above) guards
  | _, _ => True

instance decidableStepsPlain : (history : List SymbolicState) → (guards : List String) →
    Decidable (StepsPlain history guards)
  | _ :: current :: above, guard :: guards =>
      have := decidableStepsPlain (current :: above) guards
      inferInstanceAs (Decidable ((IsPlain current.pathCondition ∧ IsPlain guard) ∧ _))
  | [], _ => isTrue trivial
  | [_], _ => isTrue trivial
  | _ :: _ :: _, [] => isTrue trivial

theorem StepsPlain.separated {history : List SymbolicState} {guards : List String}
    (plain : StepsPlain history guards) (interpretation : Interpretation) :
    StepsSeparated interpretation history guards := by
  fun_induction StepsSeparated interpretation history guards with
  | case1 _ current above guard guards induction =>
      obtain ⟨⟨conditionPlain, guardPlain⟩, rest⟩ := plain
      exact ⟨conditionPlain.separated guardPlain interpretation, induction rest⟩
  | case2 => trivial

section Runs

variable {tools : SymbolicTools} {tiosts : TIOSTS} {root : SymbolicState}

theorem nextZSES_pathCondition {current next : SymbolicState} {transition : Transition}
    {symbolicAction : SymbolicAction}
    (stepped : nextZSES tools tiosts current transition = .ok (symbolicAction, next)) :
    ∃ guard, instantiatedGuard current transition = .ok guard ∧
      next.pathCondition = createNextPathCondition current.pathCondition guard := by
  obtain ⟨update, updated, stepped⟩ := bind_eq_ok.mp stepped
  obtain ⟨assigned, _, stepped⟩ := bind_eq_ok.mp stepped
  obtain ⟨zone, _, stepped⟩ := bind_eq_ok.mp stepped
  obtain ⟨target, _, stepped⟩ := bind_eq_ok.mp stepped
  obtain ⟨_, rfl⟩ := Prod.mk.inj (Except.ok.inj stepped)
  refine ⟨_, ?_, rfl⟩
  rw [instantiatedGuard, receivedValues, updated]
  rfl

theorem exists_guards {choices : List Nat} {history : List SymbolicState}
    (run : ReachableRun tools tiosts root choices history) :
    ∃ guards, GuardedRun tools tiosts root choices history guards := by
  induction run with
  | root => exact ⟨[], GuardedRun.root⟩
  | step _ listed stepped satisfied nonempty induction =>
      obtain ⟨guards, guarded⟩ := induction
      obtain ⟨guard, instantiated, _⟩ := nextZSES_pathCondition stepped
      exact ⟨guard :: guards, guarded.step listed stepped instantiated satisfied nonempty⟩

theorem GuardedRun.isCondition {choices : List Nat} {history : List SymbolicState}
    {guards : List String} (run : GuardedRun tools tiosts root choices history guards)
    (rootCondition : IsCondition root.pathCondition)
    (conditions : ∀ guard ∈ guards, IsCondition guard) :
    ∀ state ∈ history.head?, IsCondition state.pathCondition := by
  induction run with
  | root =>
      intro state isHead
      rw [← Option.some.inj isHead]
      exact rootCondition
  | step earlier listed stepped instantiated satisfied nonempty induction =>
      intro state isHead
      rw [← Option.some.inj isHead]
      obtain ⟨guard, same, pathCondition⟩ := nextZSES_pathCondition stepped
      rw [instantiated] at same
      rw [pathCondition, ← Except.ok.inj same]
      apply isCondition_createNextPathCondition
      · exact induction (fun guard member => conditions guard (List.mem_cons_of_mem _ member)) _
          rfl
      · exact conditions _ List.mem_cons_self

/-- The path conditions of a run say what its guards say exactly if all steps are
separated. -/
theorem GuardedRun.denotes_iff {choices : List Nat} {history : List SymbolicState}
    {guards : List String} (run : GuardedRun tools tiosts root choices history guards)
    (rootTrue : root.pathCondition = Constants.guardTrue)
    (conditions : ∀ guard ∈ guards, IsCondition guard) (interpretation : Interpretation) :
    ConditionsDenote interpretation history guards ↔
      StepsSeparated interpretation history guards := by
  have rootCondition : IsCondition root.pathCondition := by
    rw [rootTrue]
    exact isCondition_true
  induction run with
  | root =>
      constructor
      · exact fun _ => trivial
      · intro _
        refine ⟨?_, trivial⟩
        rw [rootTrue]
        constructor
        · exact fun _ guard impossible => by cases impossible
        · exact fun _ => holds_true interpretation
  | @step choices current above guards choice transition symbolicAction next guard earlier
      listed stepped instantiated satisfied nonempty induction =>
      have earlierConditions : ∀ guard ∈ guards, IsCondition guard :=
        fun guard member => conditions guard (List.mem_cons_of_mem _ member)
      have before := induction earlierConditions
      obtain ⟨other, same, pathCondition⟩ := nextZSES_pathCondition stepped
      rw [instantiated] at same
      rw [← Except.ok.inj same] at pathCondition
      have joins := createNextPathCondition_denotes_iff
        (earlier.isCondition rootCondition earlierConditions current rfl)
        (conditions guard List.mem_cons_self) interpretation
      rw [← pathCondition] at joins
      have whole : (∀ other ∈ guard :: guards, Holds interpretation other) ↔
          (∀ other ∈ guards, Holds interpretation other) ∧ Holds interpretation guard := by
        rw [List.forall_mem_cons, and_comm]
      constructor
      · rintro ⟨here, rest⟩
        have denotes : ConditionsDenote interpretation (current :: above) guards := rest
        refine ⟨joins.mp ?_, before.mp denotes⟩
        rw [DenotesConjunction, here, whole, denotes.1]
      · rintro ⟨separated, rest⟩
        have denotes := before.mpr rest
        have both : Holds interpretation next.pathCondition ↔
            Holds interpretation current.pathCondition ∧ Holds interpretation guard :=
          joins.mpr separated
        refine ⟨?_, denotes⟩
        rw [both, whole, denotes.1]

end Runs

/-- Both operations yield the conjunction of two guards exactly where the guards are
separated; and the path conditions of a run are the conjunctions of its guards exactly where
every guard is separated from the path condition before it. -/
theorem conjunctions_denote_iff (interpretation : Interpretation) :
    (∀ previous dataGuard, IsCondition previous → IsCondition dataGuard →
      (DenotesConjunction interpretation (createNextPathCondition previous dataGuard) previous
          dataGuard ↔
        GuardsSeparated interpretation previous dataGuard)) ∧
    (∀ specGuard tpGuard : DataGuard, IsCondition specGuard.text → IsCondition tpGuard.text →
      (DenotesConjunction interpretation
          (SynchronousProduct.createDataGuard specGuard tpGuard).text specGuard.text
          tpGuard.text ↔
        GuardsSeparated interpretation specGuard.text tpGuard.text)) ∧
    ∀ (tools : SymbolicTools) (tiosts : TIOSTS) (location : Location) (choices : List Nat)
      (history : List SymbolicState),
      (ReachableRun tools tiosts (initialState tools tiosts location) choices history →
        ∃ guards, GuardedRun tools tiosts (initialState tools tiosts location) choices history
          guards) ∧
      ∀ guards, GuardedRun tools tiosts (initialState tools tiosts location) choices history
          guards →
        (∀ guard ∈ guards, IsCondition guard) →
          (ConditionsDenote interpretation history guards ↔
            StepsSeparated interpretation history guards) := by
  refine ⟨?_, ?_, ?_⟩
  · intro previous dataGuard previousCondition guardCondition
    exact createNextPathCondition_denotes_iff previousCondition guardCondition interpretation
  · intro specGuard tpGuard specCondition tpCondition
    exact SynchronousProduct.createDataGuard_denotes_iff specCondition tpCondition interpretation
  · intro tools tiosts location choices history
    refine ⟨exists_guards, ?_⟩
    exact fun guards guarded conditions => guarded.denotes_iff rfl conditions interpretation

section Choices

variable (tools : SymbolicTools) (tiosts : TIOSTS)

/-- The run goes on with an outgoing transition of its newest state. -/
def followGuarded (run : List SymbolicState × List String) (choice : Nat) :
    Option (List SymbolicState × List String) :=
  match run with
  | ([], _) => none
  | (current :: above, guards) => do
      let transition ← current.location.outTransitions[choice]?
      let (_, next) ← (nextZSES tools tiosts current transition).toOption
      let guard ← (instantiatedGuard current transition).toOption
      let reachable ← (isReachable tools (varParamMapping tiosts) next).toOption
      if reachable then some (next :: current :: above, guard :: guards) else none

variable {tools tiosts}

theorem followGuarded_run {root : SymbolicState} {choices : List Nat}
    {run next : List SymbolicState × List String} {choice : Nat}
    (guarded : GuardedRun tools tiosts root choices run.1 run.2)
    (followed : followGuarded tools tiosts run choice = some next) :
    GuardedRun tools tiosts root (choices ++ [choice]) next.1 next.2 := by
  obtain ⟨history, guards⟩ := run
  cases history with
  | nil => cases followed
  | cons current above =>
      obtain ⟨transition, listed, followed⟩ := Option.bind_eq_some_iff.mp followed
      obtain ⟨⟨symbolicAction, target⟩, stepped, followed⟩ := Option.bind_eq_some_iff.mp followed
      obtain ⟨guard, instantiated, followed⟩ := Option.bind_eq_some_iff.mp followed
      obtain ⟨reachable, answered, followed⟩ := Option.bind_eq_some_iff.mp followed
      split at followed
      · rename_i isTrue
        rw [isTrue] at answered
        obtain ⟨satisfied, nonempty⟩ := isReachable_eq_ok_true.mp (toOption_eq_some answered)
        rw [← Option.some.inj followed]
        exact guarded.step listed (toOption_eq_some stepped) (toOption_eq_some instantiated)
          satisfied nonempty
      · cases followed

theorem followAllGuarded_run {root : SymbolicState} {choices others : List Nat}
    {run last : List SymbolicState × List String}
    (guarded : GuardedRun tools tiosts root choices run.1 run.2)
    (followed : others.foldlM (followGuarded tools tiosts) run = some last) :
    GuardedRun tools tiosts root (choices ++ others) last.1 last.2 := by
  induction others generalizing choices run with
  | nil =>
      rw [← Option.some.inj followed, List.append_nil]
      exact guarded
  | cons choice others induction =>
      obtain ⟨next, here, later⟩ := Option.bind_eq_some_iff.mp followed
      have whole := induction (followGuarded_run guarded here) later
      rw [List.append_assoc] at whole
      exact whole

end Choices

namespace TriangleInstance

def init : Action := ⟨"Init", .internal, []⟩

def readSides : Action := ⟨"ReadSides", .input, ["p", "q", "r"]⟩

def notTriangle : Action := ⟨"NotTriangle", .output, []⟩

def declared : TIOSTS :=
  .declare "Triangle" [init, readSides, notTriangle]
    [⟨"a", .integer⟩, ⟨"b", .integer⟩, ⟨"c", .integer⟩]
    [⟨"p", .integer⟩, ⟨"q", .integer⟩, ⟨"r", .integer⟩] []

/-- The transitions up to the first shape. -/
def transitions : List Transition :=
  [{ Transition.bare "START" init "L1" with
      dataGuard := .written "(a > 0) AND (b > 0) AND (c > 0)" },
    { Transition.bare "L1" readSides "L2" with
      dataGuard := .written "(p > 0) AND (q > 0) AND (r > 0)"
      dataAssignments := some "a := p | b := q | c := r" },
    { Transition.bare "L2" notTriangle "L3" with
      dataGuard := .written "(a > (b + c)) OR (b > (a + c)) OR (c > (a + b))" }]

def model : TIOSTS := .assemble declared ["START", "L1", "L2", "L3"] "START" transitions

/-- The run along the choices, with its guards. -/
def run (choices : List Nat) : Option (List SymbolicState × List String) := do
  let location ← (SynchronousProduct.initialLocationOf model).toOption
  choices.foldlM (followGuarded LoopInstance.tools model)
    ([initialState LoopInstance.tools model location], [])

theorem exists_run {choices : List Nat} {checked : List SymbolicState × List String → Bool}
    (passes : (run choices).map checked = some true) : ∃ location last,
      GuardedRun LoopInstance.tools model (initialState LoopInstance.tools model location)
        choices last.1 last.2 ∧ checked last = true := by
  obtain ⟨last, isRun, checkedLast⟩ := Option.map_eq_some_iff.mp passes
  unfold run at isRun
  obtain ⟨location, _, followed⟩ := Option.bind_eq_some_iff.mp isRun
  have start : GuardedRun LoopInstance.tools model
      (initialState LoopInstance.tools model location) []
      [initialState LoopInstance.tools model location] [] := GuardedRun.root
  exact ⟨location, last, followAllGuarded_run start followed, checkedLast⟩

end TriangleInstance

open TriangleInstance in
/-- Plain guards are conjoined, and so are the guards of the run that reads the sides. -/
theorem conjunctions_denote_iff_sides :
    (∀ interpretation,
      DenotesConjunction interpretation (createNextPathCondition "a > 0" "b > 0") "a > 0"
        "b > 0") ∧
    (∀ interpretation,
      DenotesConjunction interpretation
        (SynchronousProduct.createDataGuard (.written "a > 0") (.written "b > 0")).text
        "a > 0" "b > 0") ∧
    ∃ location history guards,
      GuardedRun LoopInstance.tools model (initialState LoopInstance.tools model location) [0, 0]
        history guards ∧
      guards = ["(p_1 > 0) AND (q_1 > 0) AND (r_1 > 0)", "(a_0 > 0) AND (b_0 > 0) AND (c_0 > 0)"] ∧
      ∀ interpretation, ConditionsDenote interpretation history guards := by
  have first : IsPlain "a > 0" := by decide
  have second : IsPlain "b > 0" := by decide
  refine ⟨?_, ?_, ?_⟩
  · intro interpretation
    exact ((conjunctions_denote_iff interpretation).1 _ _ first.isCondition
      second.isCondition).mpr (first.separated second interpretation)
  · intro interpretation
    exact ((conjunctions_denote_iff interpretation).2.1 (.written "a > 0") (.written "b > 0")
      first.isCondition second.isCondition).mpr (first.separated second interpretation)
  · obtain ⟨location, ⟨history, guards⟩, guarded, checked⟩ := @exists_run [0, 0]
      (fun last => decide (last.2 = ["(p_1 > 0) AND (q_1 > 0) AND (r_1 > 0)",
        "(a_0 > 0) AND (b_0 > 0) AND (c_0 > 0)"] ∧ (∀ guard ∈ last.2, IsCondition guard) ∧
          StepsPlain last.1 last.2)) (by decide +kernel)
    obtain ⟨same, conditions, plain⟩ := of_decide_eq_true checked
    refine ⟨location, history, guards, guarded, same, ?_⟩
    intro interpretation
    exact (((conjunctions_denote_iff interpretation).2.2 LoopInstance.tools model location [0, 0]
      history).2 guards guarded conditions).mpr (plain.separated interpretation)

open TriangleInstance in
/-- With a negative side the sides are no triangle, although all must be positive; so the
path condition behind `NotTriangle` is no conjunction. -/
theorem conjunction_or :
    (∃ previous dataGuard interpretation, IsCondition previous ∧ IsCondition dataGuard ∧
      ¬ DenotesConjunction interpretation (createNextPathCondition previous dataGuard) previous
        dataGuard ∧
      ¬ DenotesConjunction interpretation
        (SynchronousProduct.createDataGuard (.written previous) (.written dataGuard)).text
        previous dataGuard) ∧
    ∃ location history guards interpretation,
      GuardedRun LoopInstance.tools model (initialState LoopInstance.tools model location)
        [0, 0, 0] history guards ∧ (∀ guard ∈ guards, IsCondition guard) ∧
      ¬ ConditionsDenote interpretation history guards := by
  let negative : Interpretation :=
    ⟨fun name => if name = "p_1" then .number (-10) else .number 1, fun a _ => a, fun a _ => a⟩
  constructor
  · refine ⟨"(p_1 > 0) AND (q_1 > 0)", "(p_1 > q_1) OR (q_1 > p_1)", negative, by decide,
      by decide, ?_, ?_⟩
    · intro denotes
      have holds : Holds negative (createNextPathCondition "(p_1 > 0) AND (q_1 > 0)"
        "(p_1 > q_1) OR (q_1 > p_1)") := by decide
      have separate : ¬ Holds negative "(p_1 > 0) AND (q_1 > 0)" := by decide
      exact separate (denotes.mp holds).1
    · intro denotes
      have holds : Holds negative (SynchronousProduct.createDataGuard
        (.written "(p_1 > 0) AND (q_1 > 0)") (.written "(p_1 > q_1) OR (q_1 > p_1)")).text := by
        decide
      have separate : ¬ Holds negative "(p_1 > 0) AND (q_1 > 0)" := by decide
      exact separate (denotes.mp holds).1
  · obtain ⟨location, ⟨history, guards⟩, guarded, checked⟩ := @exists_run [0, 0, 0]
      (fun last => decide ((∀ guard ∈ last.2, IsCondition guard) ∧
        ∃ state ∈ last.1.head?, Holds negative state.pathCondition ∧
          ¬ ∀ guard ∈ last.2, Holds negative guard)) (by decide +kernel)
    obtain ⟨conditions, state, isHead, holds, fails⟩ := of_decide_eq_true checked
    refine ⟨location, history, guards, negative, guarded, conditions, ?_⟩
    intro denotes
    cases history with
    | nil => cases isHead
    | cons first above =>
        have same : first = state := Option.some.inj isHead
        rw [← same] at holds
        exact fails (denotes.1.mp holds)

end SymbolicExecution

end Symbolrt
