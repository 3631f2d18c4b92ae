import Symbolrt.Lib.Expressions

/-!
# Conjunctions written between two texts

When AND is written between two texts, it takes the last conjunction of the left one and
the first of the right one.  Alternatives and equivalences outside of them stay outside
of the conjunction.
-/

namespace Expression

open Precedence (Grouped StartsAbove EndsAbove insert glue regroup leading Frame)

variable (interpretation : Interpretation)

/-- The truth of the value of an expression. -/
def truth (tree : Tree) : Bool := (interpretation.meaning.value tree).truth

/-- The right end of a condition: what stands in front of its last equivalence, the
alternatives in front of the last one, and the last one. -/
structure RightEnd where
  before : Bool
  others : Bool
  last : Bool

/-- The left end of a condition: its first alternative, the others in front of its first
equivalence, and what stands behind that. -/
structure LeftEnd where
  first : Bool
  others : Bool
  behind : Bool

/-- The last alternative of an expression apart from the others. -/
def rightAlternatives (before : Bool) : Tree → RightEnd
  | .binary .or left right => ⟨before, truth interpretation left, truth interpretation right⟩
  | tree => ⟨before, false, truth interpretation tree⟩

/-- What a text put behind an expression can change, apart from what it cannot. -/
def rightEnd : Tree → RightEnd
  | .binary .equivalent left right =>
      rightAlternatives interpretation (truth interpretation left) right
  | tree => rightAlternatives interpretation true tree

/-- What a text put in front of an expression can change, apart from what it cannot. -/
def leftEnd : Tree → LeftEnd
  | .binary .equivalent left right =>
      let ending := leftEnd left
      { ending with behind := ending.behind == truth interpretation right }
  | .binary .or left right =>
      let ending := leftEnd left
      { ending with others := ending.others || truth interpretation right }
  | tree => ⟨truth interpretation tree, false, true⟩

/-- Nothing that stays outside of the conjunction changes it. -/
def Separated (left : RightEnd) (right : LeftEnd) : Prop :=
  match left.before, right.behind with
  | true, true => (left.others → right.first || right.others) ∧
      (right.others → left.others || left.last)
  | true, false => (left.others → right.first || right.others) ∧
      (left.others || left.last || right.others)
  | false, true => (right.others → left.others || left.last) ∧
      (left.others || right.first || right.others)
  | false, false => ¬ left.others ∧ ¬ right.others ∧ left.last ≠ right.first

instance (left : RightEnd) (right : LeftEnd) : Decidable (Separated left right) := by
  unfold Separated
  cases left.before <;> cases right.behind <;> exact inferInstanceAs (Decidable (_ ∧ _))

/-- What a conjunction written between the two conditions says. -/
def junction (left : RightEnd) (right : LeftEnd) : Bool :=
  (left.before == (left.others || left.last && right.first || right.others)) == right.behind

/-- The truth of the whole expression. -/
def RightEnd.holds (ending : RightEnd) : Bool := ending.before == (ending.others || ending.last)

/-- The truth of the whole expression. -/
def LeftEnd.holds (ending : LeftEnd) : Bool := (ending.first || ending.others) == ending.behind

theorem junction_eq_iff (left : RightEnd) (right : LeftEnd) :
    junction left right = (left.holds && right.holds) ↔ Separated left right := by
  obtain ⟨before, leftOthers, last⟩ := left
  obtain ⟨first, rightOthers, behind⟩ := right
  revert before leftOthers last first rightOthers behind
  decide

variable {interpretation}

theorem holds_rightAlternatives (before : Bool) (tree : Tree) :
    (rightAlternatives interpretation before tree).holds =
      (before == truth interpretation tree) := by
  unfold rightAlternatives
  split <;> rfl

theorem holds_rightEnd (tree : Tree) :
    (rightEnd interpretation tree).holds = truth interpretation tree := by
  unfold rightEnd
  split
  · rw [holds_rightAlternatives]
    rfl
  · rw [holds_rightAlternatives]
    cases truth interpretation tree <;> rfl

/-- The operator at the root of a tree stands at its left end. -/
theorem startsAbove_root {level : Nat} {operator : BinaryOperator} {left right : Tree}
    (starts : StartsAbove grammar level (.binary operator left right)) :
    level < operator.level ∧ StartsAbove grammar level left :=
  (Precedence.startsAbove_binary.mp starts).2

theorem level_of_not_equivalent {operator : BinaryOperator} (other : operator ≠ .equivalent) :
    0 < operator.level := by
  cases operator with
  | equivalent => exact absurd rfl other
  | _ => decide

theorem level_of_not_or {operator : BinaryOperator} (notEquivalent : operator ≠ .equivalent)
    (notOr : operator ≠ .or) : 1 < operator.level := by
  cases operator with
  | equivalent => exact absurd rfl notEquivalent
  | or => exact absurd rfl notOr
  | _ => decide

theorem level_of_not_and {operator : BinaryOperator} (above : 1 < operator.level)
    (notAnd : operator ≠ .and) : 2 < operator.level := by
  cases operator with
  | equivalent => exact absurd above (by decide)
  | or => exact absurd above (by decide)
  | and => exact absurd rfl notAnd
  | _ => decide

theorem unaryLevel_gt (operator : UnaryOperator) : 2 < operator.level := by
  cases operator <;> decide

theorem behind_leftEnd {tree : Tree} (starts : StartsAbove grammar 0 tree) :
    (leftEnd interpretation tree).behind = true := by
  induction tree with
  | word w => rfl
  | group tree induction => rfl
  | unary operator tree induction => rfl
  | binary operator left right leftInduction rightInduction =>
      obtain ⟨above, leftStarts⟩ := startsAbove_root starts
      cases operator with
      | equivalent => exact absurd above (by decide)
      | or => exact leftInduction leftStarts
      | _ => rfl

theorem leftEnd_of_startsAbove {tree : Tree} (starts : StartsAbove grammar 1 tree) :
    leftEnd interpretation tree = ⟨truth interpretation tree, false, true⟩ := by
  cases tree with
  | word w => rfl
  | group tree => rfl
  | unary operator tree => rfl
  | binary operator left right =>
      have above := (startsAbove_root starts).1
      cases operator with
      | equivalent => exact absurd above (by decide)
      | or => exact absurd above (by decide)
      | _ => rfl

theorem holds_leftEnd {tree : Tree} (grouped : Grouped grammar tree) :
    (leftEnd interpretation tree).holds = truth interpretation tree := by
  have plain : ∀ tree : Tree, LeftEnd.holds ⟨truth interpretation tree, false, true⟩ =
      truth interpretation tree := by
    intro tree
    cases truth interpretation tree <;> rfl
  induction tree with
  | word w => exact plain _
  | group tree induction => exact plain _
  | unary operator tree induction => exact plain _
  | binary operator left right leftInduction rightInduction =>
      obtain ⟨leftGrouped, _, leftEnds, _⟩ := Precedence.grouped_binary.mp grouped
      have inside := leftInduction leftGrouped
      cases operator with
      | equivalent =>
          have whole : truth interpretation (.binary .equivalent left right) =
              (truth interpretation left == truth interpretation right) := rfl
          rw [whole, ← inside]
          exact equivalent_assoc _ _ _
      | or =>
          have behind := @behind_leftEnd interpretation left
            (leftGrouped.startsAbove leftEnds (show 0 < 1 by omega))
          have whole : truth interpretation (.binary .or left right) =
              (truth interpretation left || truth interpretation right) := rfl
          rw [whole, ← inside]
          simp [LeftEnd.holds, leftEnd, behind, Bool.or_assoc]
      | _ => exact plain _

/-- Without equivalences and alternatives at its root, a tree goes into a conjunction. -/
theorem insert_and {operand tree : Tree} (grouped : Grouped grammar tree)
    (starts : StartsAbove grammar 1 tree) :
    insert grammar .and operand tree = .binary .and tree operand := by
  apply Precedence.insert_of_endsAbove
  exact grouped.endsAbove starts (fun operator => Nat.lt_of_succ_lt (unaryLevel_gt operator))

theorem insert_or {operand tree : Tree} (grouped : Grouped grammar tree)
    (starts : StartsAbove grammar 0 tree) :
    insert grammar .or operand tree = .binary .or tree operand := by
  apply Precedence.insert_of_endsAbove
  apply grouped.endsAbove starts
  intro operator
  have above := unaryLevel_gt operator
  exact Nat.lt_of_le_of_lt (Nat.zero_le 2) above

theorem insert_below {operator other : BinaryOperator} {operand left right : Tree}
    (below : other.level < operator.level) :
    insert grammar operator operand (.binary other left right) =
      .binary other left (insert grammar operator operand right) := by
  apply if_neg
  intro ends
  have above : operator.level ≤ other.level := ends.1
  omega

theorem rightAlternatives_of_startsAbove {before : Bool} {tree : Tree}
    (starts : StartsAbove grammar 1 tree) :
    rightAlternatives interpretation before tree =
      ⟨before, false, truth interpretation tree⟩ := by
  cases tree with
  | word w => rfl
  | group tree => rfl
  | unary operator tree => rfl
  | binary operator left right =>
      have above := (startsAbove_root starts).1
      cases operator with
      | or => exact absurd above (by decide)
      | _ => rfl

/-- A grouped tree has an equivalence at its root or none at its left end. -/
theorem exists_equivalent {tree : Tree} (grouped : Grouped grammar tree)
    (low : ¬ StartsAbove grammar 0 tree) :
    ∃ left right, tree = .binary .equivalent left right ∧ Grouped grammar left ∧
      Grouped grammar right ∧ StartsAbove grammar 0 right := by
  obtain ⟨operator, left, right, rfl, below⟩ := grouped.exists_root low
  obtain ⟨leftGrouped, rightGrouped, _, rightStarts⟩ := Precedence.grouped_binary.mp grouped
  cases operator with
  | equivalent => exact ⟨left, right, rfl, leftGrouped, rightGrouped, rightStarts⟩
  | _ => exact absurd below (by decide)

theorem exists_or {tree : Tree} (grouped : Grouped grammar tree)
    (starts : StartsAbove grammar 0 tree) (low : ¬ StartsAbove grammar 1 tree) :
    ∃ left right, tree = .binary .or left right ∧ Grouped grammar right ∧
      StartsAbove grammar 1 right := by
  obtain ⟨operator, left, right, rfl, below⟩ := grouped.exists_root low
  obtain ⟨_, rightGrouped, _, rightStarts⟩ := Precedence.grouped_binary.mp grouped
  cases operator with
  | equivalent => exact absurd (startsAbove_root starts).1 (by decide)
  | or => exact ⟨left, right, rfl, rightGrouped, rightStarts⟩
  | _ => exact absurd below (by decide)

/-- A condition joined by `AND` reaches the last alternative only. -/
def RightEnd.and (ending : RightEnd) (condition : Bool) : RightEnd :=
  { ending with last := ending.last && condition }

/-- A condition joined by `OR` is a further alternative. -/
def RightEnd.or (ending : RightEnd) (condition : Bool) : RightEnd :=
  ⟨ending.before, ending.others || ending.last, condition⟩

theorem rightAlternatives_insert_and {before : Bool} {operand tree : Tree}
    (grouped : Grouped grammar tree) (starts : StartsAbove grammar 0 tree) :
    rightAlternatives interpretation before (insert grammar .and operand tree) =
      (rightAlternatives interpretation before tree).and (truth interpretation operand) := by
  by_cases high : StartsAbove grammar 1 tree
  · rw [insert_and grouped high, rightAlternatives_of_startsAbove high]
    rfl
  · obtain ⟨left, right, rfl, rightGrouped, rightStarts⟩ := exists_or grouped starts high
    rw [insert_below (by decide), insert_and rightGrouped rightStarts]
    rfl

theorem rightEnd_of_startsAbove {tree : Tree} (starts : StartsAbove grammar 0 tree) :
    rightEnd interpretation tree = rightAlternatives interpretation true tree := by
  cases tree with
  | word w => rfl
  | group tree => rfl
  | unary operator tree => rfl
  | binary operator left right =>
      have above := (startsAbove_root starts).1
      cases operator with
      | equivalent => exact absurd above (by decide)
      | _ => rfl

theorem startsAbove_insert {level : Nat} {operator : BinaryOperator} {operand tree : Tree}
    (grouped : Grouped grammar tree) (operandGrouped : Grouped grammar operand)
    (operandStarts : StartsAbove grammar operator.level operand)
    (starts : StartsAbove grammar level tree) (above : level < operator.level) :
    StartsAbove grammar level (insert grammar operator operand tree) :=
  (Precedence.insert_grouped grouped operandGrouped operandStarts).2 level starts
    (fun _ => above)

/-- A condition put behind AND goes into the last alternative. -/
theorem rightEnd_insert_and {operand tree : Tree} (grouped : Grouped grammar tree)
    (operandGrouped : Grouped grammar operand)
    (operandStarts : StartsAbove grammar 2 operand) :
    rightEnd interpretation (insert grammar .and operand tree) =
      (rightEnd interpretation tree).and (truth interpretation operand) := by
  by_cases high : StartsAbove grammar 0 tree
  · have inserted : StartsAbove grammar 0 (insert grammar .and operand tree) :=
      startsAbove_insert grouped operandGrouped operandStarts high (by decide)
    rw [rightEnd_of_startsAbove inserted, rightEnd_of_startsAbove high,
      rightAlternatives_insert_and grouped high]
  · obtain ⟨left, right, rfl, _, rightGrouped, rightStarts⟩ := exists_equivalent grouped high
    rw [insert_below (by decide)]
    exact rightAlternatives_insert_and rightGrouped rightStarts

theorem rightAlternatives_or (before : Bool) (operand tree : Tree) :
    rightAlternatives interpretation before (.binary .or tree operand) =
      (rightAlternatives interpretation before tree).or (truth interpretation operand) := by
  have alternatives : (rightAlternatives interpretation before tree).before = before ∧
      ((rightAlternatives interpretation before tree).others ||
        (rightAlternatives interpretation before tree).last) = truth interpretation tree := by
    unfold rightAlternatives
    split
    · exact ⟨rfl, rfl⟩
    · exact ⟨rfl, rfl⟩
  rw [RightEnd.or, alternatives.1, alternatives.2]
  rfl

/-- A condition put behind OR becomes the last alternative. -/
theorem rightEnd_insert_or {operand tree : Tree} (grouped : Grouped grammar tree) :
    rightEnd interpretation (insert grammar .or operand tree) =
      (rightEnd interpretation tree).or (truth interpretation operand) := by
  by_cases high : StartsAbove grammar 0 tree
  · rw [insert_or grouped high, rightEnd_of_startsAbove high]
    exact rightAlternatives_or true operand tree
  · obtain ⟨left, right, rfl, _, rightGrouped, rightStarts⟩ := exists_equivalent grouped high
    rw [insert_below (by decide), insert_or rightGrouped rightStarts]
    exact rightAlternatives_or _ operand right

theorem insert_equivalent (operand tree : Tree) :
    insert grammar .equivalent operand tree = .binary .equivalent tree operand := by
  apply Precedence.insert_of_endsAbove
  induction tree with
  | word w => exact trivial
  | group tree induction => exact trivial
  | unary operator tree induction => exact ⟨Nat.zero_le _, induction⟩
  | binary operator left right leftInduction rightInduction =>
      exact ⟨Nat.zero_le _, rightInduction⟩

section Glued

variable {left : Tree}

/-- The tree that the text of the left tree, AND and the text of the right tree give. -/
abbrev joined (left right : Tree) : Tree := glue grammar (Frame.behind left .and) right

theorem joined_grouped (leftGrouped : Grouped grammar left) (right : Tree) :
    Grouped grammar (joined left right) := by
  apply Precedence.grouped_glue
  intro pending last
  rw [← Option.some.inj last]
  exact leftGrouped

theorem joined_of_startsAbove {right : Tree} (grouped : Grouped grammar right)
    (starts : StartsAbove grammar 2 right) : joined left right = insert grammar .and right left :=
  Precedence.glue_behind_of_startsAbove grouped starts

/-- A tree that is no conjunction either binds tighter than one. -/
theorem startsAbove_of_not_and {tree : Tree} (grouped : Grouped grammar tree)
    (starts : StartsAbove grammar 1 tree) (notAnd : ∀ left right, tree ≠ .binary .and left right) :
    StartsAbove grammar 2 tree := by
  by_contra low
  obtain ⟨operator, left, right, rfl, below⟩ := grouped.exists_root low
  have above := level_of_not_and (startsAbove_root starts).1 (by
    rintro rfl
    exact notAnd left right rfl)
  exact absurd above (Nat.not_lt.mpr below)

/-- Without equivalences and alternatives at their roots, neither has the conjunction. -/
theorem startsAbove_joined (leftGrouped : Grouped grammar left)
    (leftStarts : StartsAbove grammar 1 left) {right : Tree} (grouped : Grouped grammar right)
    (starts : StartsAbove grammar 1 right) : StartsAbove grammar 1 (joined left right) := by
  by_cases conjunction : ∃ first second, right = .binary .and first second
  · obtain ⟨first, second, rfl⟩ := conjunction
    obtain ⟨firstGrouped, secondGrouped, _, secondStarts⟩ := Precedence.grouped_binary.mp grouped
    have inserted := startsAbove_joined leftGrouped leftStarts firstGrouped
      (startsAbove_root starts).2
    rw [joined, Precedence.glue_behind_binary grouped]
    exact startsAbove_insert (joined_grouped leftGrouped first) secondGrouped secondStarts
      inserted (by decide : 1 < BinaryOperator.and.level)
  · have high := startsAbove_of_not_and grouped starts
      (fun first second same => conjunction ⟨first, second, same⟩)
    rw [joined_of_startsAbove grouped high]
    exact startsAbove_insert leftGrouped grouped high leftStarts
      (by decide : 1 < BinaryOperator.and.level)
termination_by sizeOf right

theorem rightEnd_joined_of_startsAbove (leftGrouped : Grouped grammar left) {right : Tree}
    (grouped : Grouped grammar right) (starts : StartsAbove grammar 2 right) :
    rightEnd interpretation (joined left right) =
      (rightEnd interpretation left).and (truth interpretation right) := by
  rw [joined_of_startsAbove grouped starts]
  exact rightEnd_insert_and leftGrouped grouped starts

/-- A right tree without alternatives goes into the last alternative as a whole. -/
theorem rightEnd_joined_of_plain (leftGrouped : Grouped grammar left) {right : Tree}
    (grouped : Grouped grammar right) (starts : StartsAbove grammar 1 right) :
    rightEnd interpretation (joined left right) =
      (rightEnd interpretation left).and (truth interpretation right) := by
  induction right with
  | word w =>
      exact rightEnd_joined_of_startsAbove leftGrouped grouped
        (by simp [StartsAbove, leading])
  | group tree induction =>
      exact rightEnd_joined_of_startsAbove leftGrouped grouped (by simp [StartsAbove, leading])
  | unary operator tree induction =>
      exact rightEnd_joined_of_startsAbove leftGrouped grouped grouped.startsAbove_unary
  | binary operator first second firstInduction secondInduction =>
      obtain ⟨above, firstStarts⟩ := startsAbove_root starts
      by_cases isAnd : operator = .and
      · rw [isAnd] at grouped ⊢
        obtain ⟨firstGrouped, secondGrouped, _, secondStarts⟩ :=
          Precedence.grouped_binary.mp grouped
        rw [joined, Precedence.glue_behind_binary grouped,
          rightEnd_insert_and (joined_grouped leftGrouped first) secondGrouped secondStarts,
          firstInduction firstGrouped firstStarts]
        exact congrArg (fun last => RightEnd.mk _ _ last) (Bool.and_assoc _ _ _)
      · exact rightEnd_joined_of_startsAbove leftGrouped grouped
          (grouped.startsAbove_root (level_of_not_and above isAnd))

/-- What the conjunction of both ends says in front of the first equivalence on its right. -/
def Meets (ending left : RightEnd) (right : LeftEnd) : Prop :=
  ending.before = left.before ∧
    (ending.others || ending.last) = (left.others || left.last && right.first || right.others)

theorem meets_of_plain (leftGrouped : Grouped grammar left) {right : Tree}
    (grouped : Grouped grammar right) (starts : StartsAbove grammar 1 right) :
    Meets (rightEnd interpretation (joined left right)) (rightEnd interpretation left)
      (leftEnd interpretation right) := by
  rw [rightEnd_joined_of_plain leftGrouped grouped starts, leftEnd_of_startsAbove starts]
  exact ⟨rfl, (Bool.or_false _).symm⟩

theorem rightEnd_joined (leftGrouped : Grouped grammar left) {right : Tree}
    (grouped : Grouped grammar right) (starts : StartsAbove grammar 0 right) :
    Meets (rightEnd interpretation (joined left right)) (rightEnd interpretation left)
      (leftEnd interpretation right) := by
  induction right with
  | word w => exact meets_of_plain leftGrouped grouped (by simp [StartsAbove, leading])
  | group tree induction =>
      exact meets_of_plain leftGrouped grouped (by simp [StartsAbove, leading])
  | unary operator tree induction =>
      exact meets_of_plain leftGrouped grouped grouped.startsAbove_unary
  | binary operator first second firstInduction secondInduction =>
      obtain ⟨above, firstStarts⟩ := startsAbove_root starts
      by_cases isOr : operator = .or
      · rw [isOr] at grouped ⊢
        obtain ⟨firstGrouped, _⟩ := Precedence.grouped_binary.mp grouped
        obtain ⟨before, alternatives⟩ := firstInduction firstGrouped firstStarts
        rw [joined, Precedence.glue_behind_binary grouped,
          rightEnd_insert_or (joined_grouped leftGrouped first)]
        constructor
        · exact before
        · refine (congrArg (· || truth interpretation second) alternatives).trans ?_
          exact Bool.or_assoc _ _ _
      · have notEquivalent : operator ≠ .equivalent := by
          rintro rfl
          exact absurd above (by decide)
        exact meets_of_plain leftGrouped grouped
          (grouped.startsAbove_root (level_of_not_or notEquivalent isOr))

theorem truth_joined_of_startsAbove (leftGrouped : Grouped grammar left) {right : Tree}
    (grouped : Grouped grammar right) (starts : StartsAbove grammar 0 right) :
    truth interpretation (joined left right) =
      junction (rightEnd interpretation left) (leftEnd interpretation right) := by
  obtain ⟨before, alternatives⟩ := @rightEnd_joined interpretation left leftGrouped right grouped
    starts
  rw [← holds_rightEnd, RightEnd.holds, before, alternatives, junction, behind_leftEnd starts]
  simp

/-- A conjunction written between two trees is the conjunction of their ends. -/
theorem truth_joined (leftGrouped : Grouped grammar left) {right : Tree}
    (grouped : Grouped grammar right) :
    truth interpretation (joined left right) =
      junction (rightEnd interpretation left) (leftEnd interpretation right) := by
  induction right with
  | word w => exact truth_joined_of_startsAbove leftGrouped grouped (by simp [StartsAbove, leading])
  | group tree induction =>
      exact truth_joined_of_startsAbove leftGrouped grouped (by simp [StartsAbove, leading])
  | unary operator tree induction =>
      exact truth_joined_of_startsAbove leftGrouped grouped grouped.startsAbove_unary
  | binary operator first second firstInduction secondInduction =>
      by_cases isEquivalent : operator = .equivalent
      · rw [isEquivalent] at grouped ⊢
        obtain ⟨firstGrouped, _⟩ := Precedence.grouped_binary.mp grouped
        have whole : joined left (.binary .equivalent first second) =
            .binary .equivalent (joined left first) second := by
          rw [joined, Precedence.glue_behind_binary grouped]
          exact insert_equivalent _ _
        have equivalent : truth interpretation (.binary .equivalent (joined left first) second) =
            (truth interpretation (joined left first) == truth interpretation second) := rfl
        rw [whole, equivalent, firstInduction firstGrouped]
        exact (equivalent_assoc _ _ _).symm
      · exact truth_joined_of_startsAbove leftGrouped grouped
          (grouped.startsAbove_root (level_of_not_equivalent isEquivalent))

end Glued

theorem print_of_read {text : String} {tree : Tree} (isRead : read text = some tree) :
    lex text = some (Precedence.print grammar tree) ∧ Grouped grammar tree := by
  obtain ⟨tokens, lexed, parsed⟩ := Option.bind_eq_some_iff.mp isRead
  rw [Precedence.print_of_read parsed]
  exact ⟨lexed, Precedence.grouped_of_read parsed⟩

theorem lex_conjunction {left right : String} {leftTokens rightTokens : List Token}
    (leftLexed : lex left = some leftTokens) (rightLexed : lex right = some rightTokens) :
    lex (left ++ " " ++ "AND" ++ " " ++ right) =
      some (leftTokens ++ .symbol "AND" :: rightTokens) := by
  have symbol : tokenOf "AND" = some (.symbol "AND") := by decide
  unfold lex at leftLexed rightLexed ⊢
  rw [Formula.tokens_conjunction, List.mapM_append, leftLexed, List.mapM_cons, symbol,
    rightLexed]
  rfl

/-- A text put together with AND is read as the joined trees. -/
theorem read_conjunction {left right : String} {leftTree rightTree : Tree}
    (leftRead : read left = some leftTree) (rightRead : read right = some rightTree) :
    read (left ++ " " ++ "AND" ++ " " ++ right) = some (joined leftTree rightTree) := by
  obtain ⟨leftLexed, leftGrouped⟩ := print_of_read leftRead
  obtain ⟨rightLexed, _⟩ := print_of_read rightRead
  have whole := @Precedence.read_print _ _ _ _ grammar
    (Precedence.Tree.binary BinaryOperator.and leftTree rightTree)
  have glued : regroup grammar (.binary .and leftTree rightTree) =
      joined leftTree rightTree := by
    have start : glue grammar Frame.start leftTree = leftTree := leftGrouped.regroup_eq
    rw [regroup, glue, start]
  rw [read, lex_conjunction leftLexed rightLexed, Option.bind_some]
  rw [glued] at whole
  exact whole

end Expression
