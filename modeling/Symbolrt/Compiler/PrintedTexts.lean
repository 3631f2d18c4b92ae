import Symbolrt.Compiler.CompiledTexts
import Symbolrt.Lib.Glue
import Symbolrt.SymbolicExecution.WrittenModels

/-!
# The printed guards and assignments of a written text

What a declaration is compiled to is printed text.  Its words are the tokens of the
declaration again, so the parentheses of a guard match, and a character that no token of a
guard or an assignment has is not in its text either.
-/

namespace Symbolrt

open Layout Formula

namespace Token

theorem isDelimiter_of_isNameChar {c : Char} (nameChar : isNameChar c = true) :
    Formula.isDelimiter c = false := by
  have notParenthesis : ∀ parenthesis : Char, isNameChar parenthesis = false →
      (c == parenthesis) = false := by
    intro parenthesis other
    apply beq_false_of_ne
    rintro rfl
    cases nameChar.symm.trans other
  rw [Formula.isDelimiter, isNameChar_notBlank nameChar, notParenthesis '(' (by decide),
    notParenthesis ')' (by decide)]
  rfl

/-- Only the parentheses end a word of a formula. -/
theorem isDelimiter_image (token : Token) :
    (∀ c ∈ token.image.toList, Formula.isDelimiter c = false) ∨
      token = .keyword .openParTk ∨ token = .keyword .closeParTk := by
  cases token with
  | keyword word =>
      cases word with
      | openParTk => exact Or.inr (Or.inl rfl)
      | closeParTk => exact Or.inr (Or.inr rfl)
      | _ =>
          left
          decide
  | identifier name isIdentifier =>
      left
      have nameChars := (isName_chars (isName_of_isIdentifier isIdentifier)).2
      exact fun c member => isDelimiter_of_isNameChar (nameChars c member)
  | integer numeral isNumeral =>
      left
      have digits := (isNumeral_chars isNumeral).2
      exact fun c member => isDelimiter_of_isNameChar (isDigit_isNameChar (digits c member))

theorem isSeparated_formula (tokens : List Token) :
    style.IsSeparated Formula.isDelimiter tokens := by
  have parentheses : ∀ token : Token, token = .keyword .openParTk ∨ token = .keyword .closeParTk →
      ∀ c ∈ style.image token, Formula.isDelimiter c = true := by
    rintro token (rfl | rfl)
    · decide
    · decide
  constructor
  · decide
  · exact fun token _ => (image_isSolid token).nonempty
  · exact fun token _ => (isDelimiter_image token).imp_right (parentheses token)
  · intro token _ bracket
    rcases isDelimiter_image token with word | parenthesis
    · have image : style.image token = ['('] ∨ style.image token = [')'] := by
        rcases Bool.or_eq_true_iff.mp bracket with opens | closes
        · exact Or.inl (congrArg String.toList (eq_of_beq opens))
        · exact Or.inr (congrArg String.toList (eq_of_beq closes))
      rcases image with opening | closing
      · rw [opening]
        decide
      · rw [closing]
        decide
    · exact parentheses token parenthesis

/-- The words of a line are the images of its tokens. -/
theorem tokensOfChars_line (tokens : List Token) :
    tokensOfChars (style.line tokens) = tokens.map image := by
  have single : ∀ (token : Token) (rest : List Char),
      ((∀ c ∈ style.image token, Formula.isDelimiter c = false) →
        ∀ c ∈ rest.head?, Formula.isDelimiter c = true) →
      tokensOfChars (style.image token ++ rest) = token.image :: tokensOfChars rest := by
    intro token rest starts
    rcases isDelimiter_image token with word | rfl | rfl
    · have read := tokensOfChars_word (image_isSolid token).nonempty word (starts word)
      rw [String.ofList_toList] at read
      exact read
    · exact tokensOfChars_parenthesis (Or.inl rfl) [] rest
    · exact tokensOfChars_parenthesis (Or.inr rfl) [] rest
  induction tokens with
  | nil => rfl
  | cons token tokens induction =>
      cases tokens with
      | nil =>
          have read := single token [] (fun _ c none => nomatch none)
          rw [List.append_nil] at read
          exact read
      | cons next rest =>
          have separated := isSeparated_formula (token :: next :: rest)
          have behind : tokensOfChars (style.joint token next ++ style.line (next :: rest)) =
              tokensOfChars (style.line (next :: rest)) := by
            rw [Style.joint]
            split
            · rfl
            · exact tokensOfChars_blank [] _
          rw [Style.line, List.append_assoc, single token _ separated.starts, behind, induction]
          rfl

end Token

theorem AbstractExpression.tokens_toString (expr : AbstractExpression) :
    Formula.tokens expr.toString = expr.expression.map Token.image := by
  rw [← Token.tokensOfChars_line, ← toString_toList]
  rfl

theorem Token.image_neutral {token : Token} (notOpening : token ≠ .keyword .openParTk)
    (notClosing : token ≠ .keyword .closeParTk) : IsNeutral [token.image] := by
  have word := (isDelimiter_image token).resolve_right (not_or.mpr ⟨notOpening, notClosing⟩)
  apply IsNeutral.word
  · intro opening
    have delimiter := word '(' (by rw [opening]; decide)
    cases delimiter
  · intro closing
    have delimiter := word ')' (by rw [closing]; decide)
    cases delimiter

theorem ExpressionText.neutral (text : ExpressionText) :
    IsNeutral (text.write.map Token.image) := by
  have notParenthesis : ∀ {token : Token}, token.role ≠ .opening → token.role ≠ .closing →
      IsNeutral [token.image] := by
    intro token notOpening notClosing
    apply Token.image_neutral
    · rintro rfl
      exact notOpening rfl
    · rintro rfl
      exact notClosing rfl
  induction text with
  | operand token isOperand =>
      apply notParenthesis
      · rw [isOperand]
        decide
      · rw [isOperand]
        decide
  | signed sign isSign inner induction =>
      refine (notParenthesis ?_ ?_).append induction
      · rw [isSign]
        decide
      · rw [isSign]
        decide
  | enclosed inner induction =>
      rw [write, List.map_cons, List.map_append]
      exact induction.enclosed
  | joined first second firstInduction secondInduction =>
      rw [write, List.map_append]
      exact firstInduction.append secondInduction
  | combined first operator isOperator second firstInduction secondInduction =>
      rw [write, List.map_append]
      refine firstInduction.append ((notParenthesis ?_ ?_).append secondInduction)
      · rcases isOperator with relational | binary
        · rw [relational]
          decide
        · rw [binary]
          decide
      · rcases isOperator with relational | binary
        · rw [relational]
          decide
        · rw [binary]
          decide

/-- Every operator but the equation is written for a relation that can be negated. -/
theorem Keyword.isNegatable {word : Keyword} (isOperator : word.isClockOperator = true)
    (other : word ≠ .equalsTk) {relation : Relation} (spelled : relation.text = word.image) :
    relation.IsNegatable := by
  have isRead : Relation.ofText word.image = some relation := by
    rw [← spelled, Relation.ofText_text]
  cases word with
  | moreThenTk => exact Option.some.inj isRead ▸ (by decide : Relation.gt.IsNegatable)
  | moreThenEqualsTk => exact Option.some.inj isRead ▸ (by decide : Relation.geq.IsNegatable)
  | lessThenTk => exact Option.some.inj isRead ▸ (by decide : Relation.lt.IsNegatable)
  | lessThenEqualsTk => exact Option.some.inj isRead ▸ (by decide : Relation.leq.IsNegatable)
  | equalsTk => exact absurd rfl other
  | _ => cases isOperator

/-- The simple guard is spelled like the comparison. -/
structure ComparisonText.Spells (text : ComparisonText) (simple : SimpleClockGuard) : Prop where
  images : text.write.map Token.image = comparisonImages simple

section ClockGuards

variable {text : ComparisonText} {simple : SimpleClockGuard}

theorem ComparisonText.exists_simple (text : ComparisonText) : ∃ simple, text.Spells simple := by
  obtain ⟨⟨clockTk, isClock⟩, ⟨opTk, isOperator⟩, ⟨timeTk, isTime⟩⟩ := text
  cases clockTk with
  | keyword word => cases isClock
  | integer numeral isNumeral => cases isClock
  | identifier clock isIdentifier =>
      cases opTk with
      | identifier name isIdentifier => cases isOperator
      | integer numeral isNumeral => cases isOperator
      | keyword word =>
          cases timeTk with
          | keyword word => cases isTime
          | identifier name isIdentifier => cases isTime
          | integer numeral isNumeral =>
              obtain ⟨relation, spelled⟩ := exists_relation isOperator
              refine ⟨⟨0, clock, relation, numeral, isName_of_isIdentifier isIdentifier,
                isNumeral⟩, ⟨?_⟩⟩
              rw [comparisonImages, spelled]
              rfl

theorem ComparisonText.Spells.clock (spells : text.Spells simple) :
    simple.clock = text.clock.1.image := (List.cons.inj spells.images).1.symm

theorem ComparisonText.Spells.relation (spells : text.Spells simple) :
    simple.relation.text = text.operator.1.image :=
  (List.cons.inj (List.cons.inj spells.images).2).1.symm

theorem ComparisonText.Spells.isNegatable (spells : text.Spells simple)
    (other : text.operator.1 ≠ .keyword .equalsTk) : simple.relation.IsNegatable := by
  have image := spells.relation
  revert other image
  obtain ⟨operator, isOperator⟩ := text.operator
  cases operator with
  | identifier name isIdentifier => cases isOperator
  | integer numeral isNumeral => cases isOperator
  | keyword word =>
      intro other image
      exact Keyword.isNegatable isOperator (fun same => other (congrArg Token.keyword same)) image

/-- The simple guards are spelled like the comparisons of the guard. -/
theorem ClockGuardText.exists_guards (text : ClockGuardText) :
    ∃ first others, List.Forall₂ ComparisonText.Spells (text.first :: text.others)
        (first :: others) ∧
      text.body.map Token.image = guardImages first others := by
  obtain ⟨first, firstSpells⟩ := text.first.exists_simple
  have later : ∀ texts : List ComparisonText, ∃ others,
      List.Forall₂ ComparisonText.Spells texts others ∧
        (texts.flatMap (fun other => .keyword .andTk :: other.write)).map Token.image =
          others.flatMap (fun simple => Constants.guardConjunction :: comparisonImages simple) := by
    intro texts
    induction texts with
    | nil => exact ⟨[], .nil, rfl⟩
    | cons other texts induction =>
        obtain ⟨simple, spells⟩ := other.exists_simple
        obtain ⟨others, all, images⟩ := induction
        refine ⟨simple :: others, .cons spells all, ?_⟩
        rw [List.flatMap_cons, List.map_append, images, List.map_cons, spells.images]
        rfl
  obtain ⟨others, all, images⟩ := later text.others
  refine ⟨first, others, .cons firstSpells all, ?_⟩
  rw [body, List.map_append, firstSpells.images, images]
  rfl

theorem ClockGuardText.neutral (text : ClockGuardText) :
    IsNeutral (text.body.map Token.image) := by
  obtain ⟨first, others, _, images⟩ := text.exists_guards
  rw [images]
  exact IsNeutral.words (fun image listed => plain_of_mem_guardImages listed)

end ClockGuards

namespace TransitionText

/-- The comparisons of the clock guard, none without one. -/
def comparisons (text : TransitionText) : List ComparisonText :=
  text.clockGuard.elim [] (fun guard => guard.first :: guard.others)

/-- The tokens that the data guard is printed from, if it is not the constant. -/
def guardTokens (text : TransitionText) : Option (List Token) :=
  (text.dataGuard.map ExpressionText.write).or (text.clockGuard.map ClockGuardText.body)

/-- Without tokens the guard is the constant. -/
def printedGuard (tokens : Option (List Token)) : DataGuard :=
  tokens.elim .constantTrue (fun tokens => .written (AbstractExpression.toString ⟨tokens, false⟩))

/-- The assignments of the statement, none without one. -/
def assigned (text : TransitionText) : List AssignmentText :=
  text.statement.elim [] StatementText.assignments

section Guards

variable {tables : TranslationUnit} {text : TransitionText}

theorem createGuard_dataGuard (tables : TranslationUnit) (text : TransitionText) :
    createGuard (text.transition tables).dataGuard = printedGuard text.guardTokens := by
  rw [guardTokens, transition]
  cases text.dataGuard with
  | some written => rfl
  | none =>
      cases text.clockGuard with
      | some guard => rfl
      | none => rfl

theorem createGuard_clockGuard (tables : TranslationUnit) (text : TransitionText) :
    createGuard (text.transition tables).clockGuard =
      printedGuard (text.clockGuard.map ClockGuardText.body) := by
  rw [transition]
  cases text.clockGuard with
  | some guard => rfl
  | none => rfl

theorem dataGuard_balanced (tables : TranslationUnit) (text : TransitionText) :
    BalancedText (createGuard (text.transition tables).dataGuard).text := by
  rw [createGuard_dataGuard, guardTokens]
  have printed : ∀ tokens : List Token, IsNeutral (tokens.map Token.image) →
      BalancedText (AbstractExpression.toString ⟨tokens, false⟩) := by
    intro tokens neutral
    rw [BalancedText, AbstractExpression.tokens_toString]
    exact neutral.balanced
  cases text.dataGuard with
  | some written => exact printed _ written.neutral
  | none =>
      cases text.clockGuard with
      | some guard => exact printed _ guard.neutral
      | none => decide

theorem not_mem_toString {expr : AbstractExpression} {c : Char} (visible : c ≠ ' ')
    (none : ∀ token ∈ expr.expression, c ∉ token.image.toList) : c ∉ expr.toString.toList := by
  intro member
  rw [AbstractExpression.toString_toList] at member
  rcases Style.mem_line member with blank | ⟨token, among, inside⟩
  · exact visible blank
  · exact none token among inside

theorem dataGuard_plain (tables : TranslationUnit)
    (plain : ∀ token ∈ text.guardTokens.getD [], '_' ∉ token.image.toList) :
    '_' ∉ (createGuard (text.transition tables).dataGuard).text.toList := by
  rw [createGuard_dataGuard]
  cases printed : text.guardTokens with
  | none => decide
  | some tokens =>
      rw [printed] at plain
      exact not_mem_toString (by decide) plain

/-- The compiled clock guard has the comparisons of the written one, numbered by the clocks
of the model. -/
theorem exists_clockGuard {model : TIOSTS} {transition : Transition}
    (compiles : CompilesTo model (text.transition tables) transition) :
    ∃ simples, List.Forall₂ ComparisonText.Spells text.comparisons simples ∧
      transition.clockGuard = ClockGuard.renumber model.clocks ⟨simples⟩ := by
  have read := compiles.clockGuard
  have held : (text.transition tables).clockGuard = text.clockGuard.map ClockGuardText.meaning :=
    rfl
  rw [held] at read
  rw [comparisons]
  cases guarded : text.clockGuard with
  | none =>
      rw [guarded] at read
      refine ⟨[], .nil, ?_⟩
      exact (Option.some.inj ((ClockGuard.ofString_toString .empty model.clocks).symm.trans
        read)).symm
  | some guard =>
      obtain ⟨first, others, spells, images⟩ := guard.exists_guards
      refine ⟨first :: others, spells, ?_⟩
      have printed : (createGuard (some guard.meaning)).text =
          ClockGuard.toString ⟨first :: others⟩ := toString_of_guardImages images
      rw [guarded, Option.map_some, printed, ClockGuard.ofString_toString] at read
      exact (Option.some.inj read).symm

end Guards

end TransitionText

theorem StatementText.meaning_isMarked (tables : TranslationUnit) (text : StatementText) :
    ∀ expr ∈ text.meaning tables, expr.IsMarked tables.clocks := by
  have stops : text.stops [] := by
    cases text with
    | single assignment => rfl
    | several first others => trivial
  exact statementRule_assignments ((statementRule_reads tables).ofWritten text stops)

theorem AssignmentText.assigns {tables : TranslationUnit} {allowed : String → Prop}
    {text : AssignmentText} (isAssignment : (text.meaning tables).IsAssignment)
    (target : allowed text.target.1.image)
    (plain : ∀ token ∈ text.value.write, '_' ∉ token.image.toList) :
    (text.meaning tables).Assigns allowed where
  isAssignment := isAssignment
  target := target
  rightHandSide := TransitionText.not_mem_toString (by decide) plain

/-- A declaration is compiled to a written transition. -/
theorem TransitionText.isWritten {model : TIOSTS} {tables : TranslationUnit}
    {text : TransitionText} {transition : Transition} {allowed : String → Prop}
    (compiles : CompilesTo model (text.transition tables) transition)
    (plain : ∀ token ∈ text.guardTokens.getD [], '_' ∉ token.image.toList)
    (assigns : ∀ assignment ∈ text.assigned, assignment.target.1.image ∉ tables.clocks →
      allowed assignment.target.1.image ∧
        ∀ token ∈ assignment.value.write, '_' ∉ token.image.toList) :
    transition.IsWritten allowed := by
  have dataGuard : '_' ∉ transition.dataGuard.text.toList := by
    rw [compiles.dataGuard]
    exact text.dataGuard_plain tables plain
  cases stated : text.statement with
  | none =>
      have none : (text.transition tables).assignments = none := congrArg (Option.map _) stated
      apply Transition.IsWritten.bare dataGuard
      · rw [compiles.dataAssignments, AbstractTransition.getDataAssignments, none]
        rfl
      · rw [compiles.clockAssignments, AbstractTransition.getClockAssignments, none]
        rfl
  | some statement =>
      have written : (text.transition tables).assignments =
          some (statement.meaning (text.tables tables)) := congrArg (Option.map _) stated
      have marked := statement.meaning_isMarked (text.tables tables)
      rw [text.tables_clocks] at marked
      obtain ⟨dataHolds, clocksHold⟩ := transformAssignment_getAssignments written marked
      refine ⟨dataGuard, ⟨_, compiles.dataAssignments ▸ dataHolds, ?_⟩,
        ⟨_, compiles.clockAssignments ▸ clocksHold, ?_⟩⟩
      · intro expr member
        obtain ⟨among, isData⟩ := List.mem_filter.mp member
        obtain ⟨assignment, listed, rfl⟩ := List.mem_map.mp among
        have allowedHere := assigns assignment (by rw [assigned, stated]; exact listed)
          (of_decide_eq_true isData)
        exact assignment.assigns (marked _ among).isAssignment allowedHere.1 allowedHere.2
      · exact fun expr member => (marked expr (List.mem_filter.mp member).1).isAssignment

end Symbolrt
