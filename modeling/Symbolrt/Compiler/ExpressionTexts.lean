import Symbolrt.Compiler.Clauses
import Symbolrt.Lib.Grammar

/-!
# The texts of expressions

An expression is an operand, a sign in front of an expression, an expression in
parentheses, or two expressions with or without an operator between them.  The rule
of an expression decides how far it reads by one token at a time; it reads these texts
as far as they go and no others.
-/

namespace Symbolrt

open Reading

/-- What a token is good for in an expression. -/
inductive TokenRole where
  | operand
  | sign
  | opening
  | closing
  | relational
  | binary
  | other
  deriving DecidableEq, Repr

/-- Where the grammar accepts a word. -/
def Keyword.role : Keyword → TokenRole
  | trueTk | falseTk => .operand
  | plusTk | minusTk | notTk => .sign
  | openParTk => .opening
  | closeParTk => .closing
  | moreThenTk | moreThenEqualsTk | equalsTk | lessThenTk | lessThenEqualsTk | diffTk =>
      .relational
  | multTk | modTk | divTk | equivTk | andTk | orTk => .binary
  | _ => .other

namespace Token

/-- Names and numbers stand as operands. -/
def role : Token → TokenRole
  | keyword word => word.role
  | identifier _ _ => .operand
  | integer _ _ => .operand

/-- An expression that could end in front of the token goes on with it. -/
def goesOn (token : Token) : Bool := token.role != .closing && token.role != .other

section Roles

variable (token : Token)

theorem isOperand_eq : (token.isIdentifierToken || token.isConstant) =
    (token.role == .operand) := by
  cases token with
  | keyword word => cases word <;> rfl
  | identifier name isIdentifier => rfl
  | integer numeral isNumeral => rfl

theorem isUnaryOperator_eq :
    token.isKeyword Keyword.isUnaryOperator = (token.role == .sign) := by
  cases token with
  | keyword word => cases word <;> rfl
  | identifier name isIdentifier => rfl
  | integer numeral isNumeral => rfl

theorem isRelationalOperator_eq :
    token.isKeyword Keyword.isRelationalOperator = (token.role == .relational) := by
  cases token with
  | keyword word => cases word <;> rfl
  | identifier name isIdentifier => rfl
  | integer numeral isNumeral => rfl

theorem isBinaryOperator_eq :
    token.isKeyword Keyword.isBinaryOperator = (token.role == .binary) := by
  cases token with
  | keyword word => cases word <;> rfl
  | identifier name isIdentifier => rfl
  | integer numeral isNumeral => rfl

theorem opens_eq : token.is .openParTk = (token.role == .opening) := by
  cases token with
  | keyword word => cases word <;> rfl
  | identifier name isIdentifier => rfl
  | integer numeral isNumeral => rfl

theorem closes_eq : token.is .closeParTk = (token.role == .closing) := by
  cases token with
  | keyword word => cases word <;> rfl
  | identifier name isIdentifier => rfl
  | integer numeral isNumeral => rfl

theorem startsFactor_eq : (token.isKeyword Keyword.isUnaryOperator || token.isConstant ||
    token.is .openParTk || token.isIdentifierToken) =
      (token.role == .sign || token.role == .operand || token.role == .opening) := by
  cases token with
  | keyword word => cases word <;> rfl
  | identifier name isIdentifier => rfl
  | integer numeral isNumeral => rfl

end Roles

end Token

/-- The texts of expressions. -/
inductive ExpressionText where
  | operand (token : Token) (isOperand : token.role = .operand)
  | signed (sign : Token) (isSign : sign.role = .sign) (inner : ExpressionText)
  | enclosed (inner : ExpressionText)
  | joined (first second : ExpressionText)
  | combined (first : ExpressionText) (operator : Token)
      (isOperator : operator.role = .relational ∨ operator.role = .binary)
      (second : ExpressionText)

namespace ExpressionText

/-- The tokens of an expression from left to right. -/
def write : ExpressionText → List Token
  | operand token _ => [token]
  | signed sign _ inner => sign :: inner.write
  | enclosed inner => .keyword .openParTk :: (inner.write ++ [.keyword .closeParTk])
  | joined first second => first.write ++ second.write
  | combined first operator _ second => first.write ++ operator :: second.write

end ExpressionText

namespace ExpressionRule

/-- What a rule that returned has read.  Behind a term there is nothing left to go on
with, so the rule for the rest of an expression reads nothing. -/
def Returned : ExpressionRule → List Token → List Token → Prop
  | expressionRule, tokens, rest | termRule, tokens, rest =>
      (∃ text : ExpressionText, tokens = text.write ++ rest) ∧ nextIs Token.goesOn rest = false
  | otherTermRule, tokens, rest =>
      (∀ first : ExpressionText, ∃ text : ExpressionText,
        first.write ++ tokens = text.write ++ rest) ∧ nextIs Token.goesOn rest = false
  | otherExpressionRule, tokens, rest => nextIs Token.goesOn tokens = false → rest = tokens
  | factorRule, tokens, rest => ∃ text : ExpressionText, tokens = text.write ++ rest

section Rules

variable {fuel : Nat} {expr result : AbstractExpression} {aux : Token}
  {tokens middle rest : List Token}

theorem not_sign_of_stopped {tail : List Token}
    (stopped : nextIs Token.goesOn (aux :: tail) = false) :
    (aux.is .plusTk || aux.is .minusTk) = false := by
  cases aux with
  | keyword word =>
      cases word with
      | plusTk | minusTk => cases stopped
      | _ => rfl
  | identifier name isIdentifier => rfl
  | integer numeral isNumeral => rfl

theorem run_otherExpressionRule (stopped : nextIs Token.goesOn tokens = false) :
    run (fuel + 1) .otherExpressionRule expr tokens = .ok (expr, tokens) := by
  cases tokens with
  | nil => rfl
  | cons aux tail =>
      rw [run, not_sign_of_stopped stopped]
      rfl

theorem returned_otherExpressionRule (one : termRule.Returned tokens middle)
    (two : otherExpressionRule.Returned middle rest) : termRule.Returned tokens rest := by
  have same : rest = middle := two one.2
  rw [same]
  exact one

theorem returned_otherTermRule (one : factorRule.Returned tokens middle)
    (two : otherTermRule.Returned middle rest) : termRule.Returned tokens rest := by
  obtain ⟨first, rfl⟩ := one
  exact ⟨two.1 first, two.2⟩

theorem returned_joined (term : termRule.Returned tokens rest) :
    otherTermRule.Returned tokens rest := by
  obtain ⟨⟨second, rfl⟩, stops⟩ := term
  refine ⟨fun first => ⟨.joined first second, ?_⟩, stops⟩
  rw [ExpressionText.write, List.append_assoc]

theorem returned_combined (isOperator : aux.role = .relational ∨ aux.role = .binary)
    (term : termRule.Returned tokens rest) : otherTermRule.Returned (aux :: tokens) rest := by
  obtain ⟨⟨second, rfl⟩, stops⟩ := term
  refine ⟨fun first => ⟨.combined first aux isOperator second, ?_⟩, stops⟩
  rw [ExpressionText.write, List.append_assoc, List.cons_append]

theorem run_returned (fuel : Nat) (rule : ExpressionRule) {expr result : AbstractExpression}
    {tokens rest : List Token} (returned : run fuel rule expr tokens = .ok (result, rest)) :
    rule.Returned tokens rest := by
  induction fuel generalizing rule expr result tokens rest with
  | zero => cases returned
  | succ fuel induction =>
      have term : ∀ {expr result : AbstractExpression} {tokens rest : List Token},
        (run fuel .termRule expr tokens >>= fun read =>
            run fuel .otherExpressionRule read.1 read.2) = Except.ok (result, rest) →
          termRule.Returned tokens rest := by
        intro expr result tokens rest returned
        obtain ⟨middle, between, one, two⟩ := run_bind_eq_ok returned
        exact returned_otherExpressionRule (induction .termRule one)
          (induction .otherExpressionRule two)
      have factor : ∀ {expr result : AbstractExpression} {tokens rest : List Token},
        (run fuel .factorRule expr tokens >>= fun read =>
            run fuel .otherTermRule read.1 read.2) = Except.ok (result, rest) →
          termRule.Returned tokens rest := by
        intro expr result tokens rest returned
        obtain ⟨middle, between, one, two⟩ := run_bind_eq_ok returned
        exact returned_otherTermRule (induction .factorRule one) (induction .otherTermRule two)
      cases rule with
      | expressionRule => exact term returned
      | termRule => exact factor returned
      | otherExpressionRule =>
          intro stopped
          rw [run_otherExpressionRule stopped] at returned
          cases returned
          rfl
      | otherTermRule =>
          have stopped : nextIs Token.goesOn tokens = false → (result, rest) = (expr, tokens) →
              otherTermRule.Returned tokens rest := by
            intro stops same
            cases same
            exact ⟨fun first => ⟨first, rfl⟩, stops⟩
          cases tokens with
          | nil =>
              cases returned
              exact stopped rfl rfl
          | cons aux tail =>
              rw [run, Token.isRelationalOperator_eq, Token.startsFactor_eq,
                Token.isBinaryOperator_eq] at returned
              cases role : aux.role with
              | relational =>
                  rw [role] at returned
                  exact returned_combined (.inl role) (term returned)
              | binary =>
                  rw [role] at returned
                  exact returned_combined (.inr role) (factor returned)
              | sign | operand | opening =>
                  rw [role] at returned
                  exact returned_joined (factor returned)
              | closing | other =>
                  rw [role] at returned
                  cases returned
                  apply stopped _ rfl
                  rw [nextIs, List.head?_cons, Option.any_some, Token.goesOn, role]
                  rfl
      | factorRule =>
          cases tokens with
          | nil => cases returned
          | cons aux tail =>
              rw [run, Token.isOperand_eq, Token.isUnaryOperator_eq, Token.opens_eq] at returned
              cases role : aux.role with
              | operand =>
                  rw [role] at returned
                  cases returned
                  exact ⟨.operand aux role, rfl⟩
              | sign =>
                  rw [role] at returned
                  obtain ⟨⟨inner, rfl⟩, _⟩ := induction .expressionRule returned
                  exact ⟨.signed aux role inner, rfl⟩
              | opening =>
                  rw [role] at returned
                  obtain ⟨⟨middle, between⟩, one, two⟩ := Reading.bind_eq_ok.mp returned
                  obtain ⟨⟨close, left⟩, consumed, last⟩ := Reading.bind_eq_ok.mp two
                  cases last
                  obtain ⟨rfl, closes⟩ := consumeToken_eq_ok.mp consumed
                  obtain ⟨⟨inner, rfl⟩, _⟩ := induction .expressionRule one
                  have opened : aux = .keyword .openParTk := by
                    apply eq_keyword_of_is
                    rw [Token.opens_eq, role]
                    rfl
                  refine ⟨.enclosed inner, ?_⟩
                  rw [opened, eq_keyword_of_is closes, ExpressionText.write, List.cons_append,
                    List.append_assoc]
                  rfl
              | closing | relational | binary | other =>
                  rw [role] at returned
                  cases returned

end Rules

end ExpressionRule

/-- How far the reading of an expression is: the parentheses that are open, and whether
an operand must come. -/
structure Progress where
  opened : Nat
  awaits : Bool
  deriving DecidableEq

namespace Progress

/-- How a token moves the reading on, and `none` where the grammar stops. -/
def step (progress : Progress) (token : Token) : Option Progress :=
  match token.role with
  | .operand => some ⟨progress.opened, false⟩
  | .sign => some ⟨progress.opened, true⟩
  | .opening => some ⟨progress.opened + 1, true⟩
  | .relational | .binary => if progress.awaits then none else some ⟨progress.opened, true⟩
  | .closing =>
      if progress.awaits then none
      else match progress.opened with
        | 0 => none
        | opened + 1 => some ⟨opened, false⟩
  | .other => none

/-- The tokens lead from one progress to another. -/
def Leads (start : Progress) (tokens : List Token) (finish : Progress) : Prop :=
  tokens.foldlM step start = some finish

section Leads

variable {start middle finish : Progress} {token : Token} {tokens others : List Token}

theorem leads_nil : start.Leads [] finish ↔ start = finish := by
  rw [Leads, List.foldlM_nil]
  exact Option.some_inj

theorem leads_cons : start.Leads (token :: tokens) finish ↔
    ∃ middle, start.step token = some middle ∧ middle.Leads tokens finish := by
  rw [Leads, List.foldlM_cons]
  exact Option.bind_eq_some_iff

theorem Leads.append (first : start.Leads tokens middle) (second : middle.Leads others finish) :
    start.Leads (tokens ++ others) finish := by
  rw [Leads, List.foldlM_append, first]
  exact second

theorem Leads.cons (first : start.step token = some middle) (second : middle.Leads tokens finish) :
    start.Leads (token :: tokens) finish := leads_cons.mpr ⟨middle, first, second⟩

end Leads

/-- A text of an expression is read from its first operand to its last. -/
theorem leads_write (text : ExpressionText) (progress : Progress) :
    progress.Leads text.write ⟨progress.opened, false⟩ := by
  induction text generalizing progress with
  | operand token isOperand =>
      apply Leads.cons _ (leads_nil.mpr rfl)
      rw [step, isOperand]
  | signed sign isSign inner induction =>
      apply Leads.cons _ (induction ⟨progress.opened, true⟩)
      rw [step, isSign]
  | enclosed inner induction =>
      apply Leads.cons rfl
      exact (induction ⟨progress.opened + 1, true⟩).append (Leads.cons rfl (leads_nil.mpr rfl))
  | joined first second firstInduction secondInduction =>
      exact (firstInduction progress).append (secondInduction _)
  | combined first operator isOperator second firstInduction secondInduction =>
      apply (firstInduction progress).append
      apply Leads.cons _ (secondInduction ⟨progress.opened, true⟩)
      rcases isOperator with relational | binary
      · rw [step, relational]
        rfl
      · rw [step, binary]
        rfl

/-- A further open parenthesis does not matter until it is closed. -/
theorem step_opened {opened : Nat} {awaits : Bool} {token : Token} {next : Progress}
    (stepped : step ⟨opened + 1, awaits⟩ token = some next) :
    (token = .keyword .closeParTk ∧ opened = 0 ∧ awaits = false ∧ next = ⟨0, false⟩) ∨
      ∃ inner, step ⟨opened, awaits⟩ token = some inner ∧
        next = ⟨inner.opened + 1, inner.awaits⟩ := by
  rw [step] at stepped
  cases role : token.role with
  | operand | sign | opening =>
      rw [role] at stepped
      cases stepped
      exact .inr ⟨_, by rw [step, role], rfl⟩
  | relational | binary =>
      rw [role] at stepped
      cases awaits with
      | true => cases stepped
      | false =>
          cases stepped
          exact .inr ⟨_, by rw [step, role]; rfl, rfl⟩
  | closing =>
      rw [role] at stepped
      cases awaits with
      | true => cases stepped
      | false =>
          cases stepped
          cases opened with
          | zero =>
              refine .inl ⟨?_, rfl, rfl, rfl⟩
              apply eq_keyword_of_is
              rw [Token.closes_eq, role]
              rfl
          | succ opened => exact .inr ⟨⟨opened, false⟩, by rw [step, role]; rfl, rfl⟩
  | other =>
      rw [role] at stepped
      cases stepped

/-- The text up to the parenthesis that closes an open one, and the text behind it. -/
theorem exists_enclosed {opened : Nat} {awaits : Bool} {tokens : List Token}
    (leads : Leads ⟨opened + 1, awaits⟩ tokens ⟨0, false⟩) :
    ∃ inner outer, tokens = inner ++ .keyword .closeParTk :: outer ∧
      Leads ⟨opened, awaits⟩ inner ⟨0, false⟩ ∧ Leads ⟨0, false⟩ outer ⟨0, false⟩ := by
  induction tokens generalizing opened awaits with
  | nil => cases leads_nil.mp leads
  | cons token tokens induction =>
      obtain ⟨next, stepped, later⟩ := leads_cons.mp leads
      rcases step_opened stepped with ⟨rfl, rfl, rfl, rfl⟩ | ⟨inner, deeper, rfl⟩
      · exact ⟨[], tokens, rfl, leads_nil.mpr rfl, later⟩
      · obtain ⟨passed, outer, rfl, enclosed, behind⟩ := induction later
        exact ⟨token :: passed, outer, rfl, Leads.cons deeper enclosed, behind⟩

end Progress

/-- The expression after the tokens are added one by one. -/
def AbstractExpression.addElements (elements : List Token) (expr : AbstractExpression) :
    AbstractExpression := { expr with expression := expr.expression ++ elements }

theorem AbstractExpression.addElements_append (elements others : List Token)
    (expr : AbstractExpression) :
    (expr.addElements elements).addElements others = expr.addElements (elements ++ others) := by
  simp only [AbstractExpression.addElements, List.append_assoc]

theorem AbstractExpression.addElements_cons (element : Token) (others : List Token)
    (expr : AbstractExpression) :
    (expr.addElement element).addElements others = expr.addElements (element :: others) :=
  AbstractExpression.addElements_append [element] others expr

/-- An expression up to its last operand. -/
def IsExpression (part : List Token) : Prop :=
  Progress.Leads ⟨0, true⟩ part ⟨0, false⟩

/-- What an expression may go on with, up to the last operand. -/
def ContinuesExpression (part : List Token) : Prop :=
  Progress.Leads ⟨0, false⟩ part ⟨0, false⟩

namespace ExpressionRule

/-- What is read as a factor in front of the rest. -/
inductive IsFactor : List Token → List Token → Prop where
  | operand {token : Token} {rest : List Token} (isOperand : token.role = .operand) :
      IsFactor [token] rest
  | signed {sign : Token} {part rest : List Token} (isSign : sign.role = .sign)
      (isExpression : IsExpression part) (stops : nextIs Token.goesOn rest = false) :
      IsFactor (sign :: part) rest
  | enclosed {inner rest : List Token} (isExpression : IsExpression inner) :
      IsFactor (.keyword .openParTk :: (inner ++ [.keyword .closeParTk])) rest

/-- What a rule reads in front of the rest. -/
def Covers : ExpressionRule → List Token → List Token → Prop
  | expressionRule, part, rest | termRule, part, rest =>
      IsExpression part ∧ nextIs Token.goesOn rest = false
  | otherTermRule, part, rest => ContinuesExpression part ∧ nextIs Token.goesOn rest = false
  | otherExpressionRule, part, rest => part = [] ∧ nextIs Token.goesOn rest = false
  | factorRule, part, rest => IsFactor part rest

section Covers

variable {fuel : Nat} {expr : AbstractExpression} {token : Token} {part others rest : List Token}

theorem run_otherTermRule (stops : nextIs Token.goesOn rest = false) :
    run (fuel + 1) .otherTermRule expr rest = .ok (expr, rest) := by
  cases rest with
  | nil => rfl
  | cons aux tail =>
      rw [run, Token.isRelationalOperator_eq, Token.startsFactor_eq, Token.isBinaryOperator_eq]
      rw [nextIs, List.head?_cons, Option.any_some, Token.goesOn] at stops
      cases role : aux.role with
      | closing | other => rfl
      | operand | sign | opening | relational | binary =>
          rw [role] at stops
          cases stops

/-- An expression begins with a factor and goes on behind it. -/
theorem exists_factor (isExpression : IsExpression part)
    (stops : nextIs Token.goesOn rest = false) : ∃ first later, part = first ++ later ∧
      IsFactor first (later ++ rest) ∧ ContinuesExpression later := by
  cases part with
  | nil => cases Progress.leads_nil.mp isExpression
  | cons token part =>
      obtain ⟨next, stepped, later⟩ := Progress.leads_cons.mp isExpression
      rw [Progress.step] at stepped
      cases role : token.role with
      | operand =>
          rw [role] at stepped
          cases stepped
          exact ⟨[token], part, rfl, .operand role, later⟩
      | sign =>
          rw [role] at stepped
          cases stepped
          refine ⟨token :: part, [], (List.append_nil _).symm, .signed role later stops, ?_⟩
          exact Progress.leads_nil.mpr rfl
      | opening =>
          rw [role] at stepped
          cases stepped
          obtain ⟨inner, outer, rfl, enclosed, behind⟩ := Progress.exists_enclosed later
          have opened : token = .keyword .openParTk := by
            apply eq_keyword_of_is
            rw [Token.opens_eq, role]
            rfl
          refine ⟨_, outer, ?_, .enclosed enclosed, behind⟩
          rw [opened, List.cons_append, List.append_assoc]
          rfl
      | relational | binary | closing | other =>
          rw [role] at stepped
          cases stepped

theorem settled_first {α β : Type} {step : Except ReadFailure α} {next : α → Except ReadFailure β}
    (settled : Settled (step >>= next)) : Settled step := by
  rintro rfl
  exact settled rfl

/-- With the given fuel every rule reads what it covers, if its reading is not cut off. -/
def RunsCover (fuel : Nat) : Prop :=
  ∀ (rule : ExpressionRule) (expr : AbstractExpression) (part rest : List Token),
    rule.Covers part rest → Settled (run fuel rule expr (part ++ rest)) →
      run fuel rule expr (part ++ rest) = .ok (expr.addElements part, rest)

namespace RunsCover

variable {fuel : Nat} {expr : AbstractExpression} {part others rest : List Token}

/-- Two rules one after the other. -/
theorem sequence (runsCover : RunsCover fuel) {first second : ExpressionRule}
    (one : first.Covers part (others ++ rest)) (two : second.Covers others rest)
    (settled : Settled (run fuel first expr (part ++ others ++ rest) >>= fun read =>
      run fuel second read.1 read.2)) :
    (run fuel first expr (part ++ others ++ rest) >>= fun read =>
      run fuel second read.1 read.2) =
        Except.ok (expr.addElements (part ++ others), rest) := by
  rw [List.append_assoc] at settled ⊢
  have read := runsCover first expr part (others ++ rest) one (settled_first settled)
  rw [read] at settled ⊢
  have ended := runsCover second (expr.addElements part) others rest two settled
  rw [AbstractExpression.addElements_append] at ended
  exact ended

theorem term (runsCover : RunsCover fuel) (isExpression : IsExpression part)
    (stops : nextIs Token.goesOn rest = false)
    (settled : Settled (run fuel .termRule expr (part ++ rest) >>= fun read =>
      run fuel .otherExpressionRule read.1 read.2)) :
    (run fuel .termRule expr (part ++ rest) >>= fun read =>
      run fuel .otherExpressionRule read.1 read.2) =
        Except.ok (expr.addElements part, rest) := by
  rw [← List.append_nil part] at settled ⊢
  exact runsCover.sequence ⟨isExpression, stops⟩ ⟨rfl, stops⟩ settled

theorem factor (runsCover : RunsCover fuel) (isExpression : IsExpression part)
    (stops : nextIs Token.goesOn rest = false)
    (settled : Settled (run fuel .factorRule expr (part ++ rest) >>= fun read =>
      run fuel .otherTermRule read.1 read.2)) :
    (run fuel .factorRule expr (part ++ rest) >>= fun read =>
      run fuel .otherTermRule read.1 read.2) = Except.ok (expr.addElements part, rest) := by
  obtain ⟨first, later, rfl, isFactor, continues⟩ := exists_factor isExpression stops
  exact runsCover.sequence isFactor (And.intro continues stops) settled

theorem otherTermRule (runsCover : RunsCover fuel)
    (covers : ExpressionRule.otherTermRule.Covers part rest)
    (settled : Settled (run (fuel + 1) .otherTermRule expr (part ++ rest))) :
    run (fuel + 1) .otherTermRule expr (part ++ rest) = .ok (expr.addElements part, rest) := by
  obtain ⟨continues, stops⟩ := covers
  cases part with
  | nil =>
      have closed : run (fuel + 1) .otherTermRule expr rest = .ok (expr, rest) :=
        run_otherTermRule stops
      rw [List.nil_append, closed, AbstractExpression.addElements, List.append_nil]
  | cons aux tail =>
      obtain ⟨next, stepped, later⟩ := Progress.leads_cons.mp continues
      rw [List.cons_append, run, Token.isRelationalOperator_eq, Token.startsFactor_eq,
        Token.isBinaryOperator_eq] at settled ⊢
      cases role : aux.role with
      | relational =>
          rw [Progress.step, role] at stepped
          cases stepped
          rw [role] at settled
          refine (runsCover.term later stops settled).trans ?_
          rw [AbstractExpression.addElements_cons]
      | binary =>
          rw [Progress.step, role] at stepped
          cases stepped
          rw [role] at settled
          refine (runsCover.factor later stops settled).trans ?_
          rw [AbstractExpression.addElements_cons]
      | sign | operand | opening =>
          have isExpression : IsExpression (aux :: tail) := by
            apply Progress.leads_cons.mpr
            refine ⟨next, ?_, later⟩
            rw [Progress.step, role] at stepped ⊢
            exact stepped
          rw [role] at settled
          exact runsCover.factor isExpression stops settled
      | closing | other =>
          rw [Progress.step, role] at stepped
          cases stepped

theorem factorRule (runsCover : RunsCover fuel)
    (covers : ExpressionRule.factorRule.Covers part rest)
    (settled : Settled (run (fuel + 1) .factorRule expr (part ++ rest))) :
    run (fuel + 1) .factorRule expr (part ++ rest) = .ok (expr.addElements part, rest) := by
  cases covers with
  | @operand token rest isOperand =>
      rw [List.cons_append, run, Token.isOperand_eq, isOperand]
      rfl
  | @signed sign part rest isSign isExpression stops =>
      rw [List.cons_append, run, Token.isOperand_eq, Token.isUnaryOperator_eq,
        isSign] at settled ⊢
      refine (runsCover .expressionRule _ _ _ ⟨isExpression, stops⟩ settled).trans ?_
      rw [AbstractExpression.addElements_cons]
  | @enclosed inner rest isExpression =>
      have closes : nextIs Token.goesOn
          (.keyword .closeParTk :: ([] ++ rest)) = false := rfl
      rw [List.cons_append, List.append_assoc] at settled ⊢
      have read := runsCover .expressionRule (expr.addElement (.keyword .openParTk))
        inner _ ⟨isExpression, closes⟩ (settled_first settled)
      refine (congrArg (fun read => read >>= _) read).trans ?_
      rw [← AbstractExpression.addElements_cons, ← AbstractExpression.addElements_append]
      rfl

end RunsCover

theorem runsCover (fuel : Nat) : RunsCover fuel := by
  induction fuel with
  | zero => exact fun _ _ _ _ _ settled => absurd rfl settled
  | succ fuel induction =>
      intro rule expr part rest covers settled
      cases rule with
      | expressionRule => exact induction.term covers.1 covers.2 settled
      | termRule => exact induction.factor covers.1 covers.2 settled
      | otherExpressionRule =>
          obtain ⟨rfl, stops⟩ := covers
          rw [List.nil_append, run_otherExpressionRule stops, AbstractExpression.addElements,
            List.append_nil]
      | otherTermRule => exact induction.otherTermRule covers settled
      | factorRule => exact induction.factorRule covers settled

end Covers

end ExpressionRule

/-- The rule of an expression reads the texts of expressions as far as they go. -/
theorem expressionRule_reads (expr : AbstractExpression) :
    Reads (expressionRule expr) ExpressionText.write
      (fun text => .ok (expr.addElements text.write))
      (fun _ rest => nextIs Token.goesOn rest = false) := by
  constructor
  · intro text rest stops
    exact ExpressionRule.runsCover _ .expressionRule _ _ _ ⟨Progress.leads_write text _, stops⟩
      (expressionRule_settled expr _)
  · intro tokens value rest returned
    obtain ⟨⟨text, whole⟩, stops⟩ := ExpressionRule.run_returned _ .expressionRule returned
    exact ⟨text, whole, stops⟩

end Symbolrt
