import Symbolrt.Compiler.TransitionRule

/-!
# The tokens an expression records

An expression rule adds exactly the tokens it passes over to the expression it is
given, and they are all tokens of expressions.  The recursion depth granted to
the rules suffices for every input.
-/

namespace Symbolrt

open Reading

/-- An expression that was extended by the tokens passed over. -/
structure Records (expr : AbstractExpression) (tokens passed : List Token)
    (result : AbstractExpression) (rest : List Token) : Prop where
  passes : Passes Token.isExpressionToken tokens passed rest
  result_eq : result = { expr with expression := expr.expression ++ passed }

section Recording

variable {expr middle result : AbstractExpression} {tokens passed others between rest : List Token}

theorem Records.none : Records expr tokens [] expr tokens := by
  constructor
  · exact Passes.none
  · rw [List.append_nil]

theorem Records.cons {aux : Token} (inside : aux.isExpressionToken = true)
    (later : Records (expr.addElement aux) tokens passed result rest) :
    Records expr (aux :: tokens) (aux :: passed) result rest := by
  constructor
  · exact later.passes.cons inside
  · rw [later.result_eq]
    simp [AbstractExpression.addElement]

theorem Records.append (first : Records expr tokens passed middle between)
    (second : Records middle between others result rest) :
    Records expr tokens (passed ++ others) result rest := by
  constructor
  · exact first.passes.append second.passes
  · rw [second.result_eq, first.result_eq]
    simp

end Recording

namespace Token

variable {token : Token} {word : Keyword}

theorem isExpressionToken_of_is (same : token.is word = true)
    (inside : word.isExpressionKeyword = true) : token.isExpressionToken = true := by
  cases token with
  | keyword other =>
      have equal : other = word := eq_of_beq same
      rw [equal]
      exact inside
  | identifier name isIdentifier => rfl
  | integer numeral isNumeral => rfl

theorem isExpressionToken_of_isKeyword {kind : Keyword → Bool}
    (ofKind : token.isKeyword kind = true)
    (inside : ∀ word, kind word = true → word.isExpressionKeyword = true) :
    token.isExpressionToken = true := by
  cases token with
  | keyword word => exact inside word ofKind
  | identifier name isIdentifier => rfl
  | integer numeral isNumeral => rfl

theorem isExpressionToken_of_isIdentifierToken (identified : token.isIdentifierToken = true) :
    token.isExpressionToken = true := by
  cases token with
  | keyword word => cases identified
  | identifier name isIdentifier => rfl
  | integer numeral isNumeral => rfl

theorem isExpressionToken_of_isIntegerToken (isInteger : token.isIntegerToken = true) :
    token.isExpressionToken = true := by
  cases token with
  | keyword word => cases isInteger
  | identifier name isIdentifier => rfl
  | integer numeral isNumeral => rfl

theorem isExpressionToken_of_isConstant (isConstant : token.isConstant = true) :
    token.isExpressionToken = true := by
  rcases Bool.or_eq_true_iff.mp isConstant with isInteger | truth
  · exact isExpressionToken_of_isIntegerToken isInteger
  · apply isExpressionToken_of_isKeyword truth
    intro word isTruth
    simp [Keyword.isExpressionKeyword, isTruth]

end Token

namespace Keyword

variable {word : Keyword}

theorem isExpressionKeyword_of_relational (relational : word.isRelationalOperator = true) :
    word.isExpressionKeyword = true := by simp [isExpressionKeyword, relational]

theorem isExpressionKeyword_of_binary (binary : word.isBinaryOperator = true) :
    word.isExpressionKeyword = true := by simp [isExpressionKeyword, binary]

theorem isExpressionKeyword_of_unary (unary : word.isUnaryOperator = true) :
    word.isExpressionKeyword = true := by simp [isExpressionKeyword, unary]

end Keyword

namespace ExpressionRule

/-- The rules that read at least one token. -/
def isStrict : ExpressionRule → Bool
  | expressionRule | termRule | factorRule => true
  | otherExpressionRule | otherTermRule => false

/-- What a rule returned: it recorded what it passed over. -/
def Recorded (rule : ExpressionRule) (expr : AbstractExpression) (tokens : List Token)
    (result : AbstractExpression) (rest : List Token) : Prop :=
  ∃ passed, Records expr tokens passed result rest ∧ (rule.isStrict = true → passed ≠ [])

section Rules

variable {fuel : Nat} {expr middle result : AbstractExpression} {tokens between rest : List Token}

theorem Recorded.sequence {first second rule : ExpressionRule}
    (one : first.Recorded expr tokens middle between)
    (two : second.Recorded middle between result rest)
    (strict : rule.isStrict = true → first.isStrict = true) :
    rule.Recorded expr tokens result rest := by
  obtain ⟨passed, records, nonempty⟩ := one
  obtain ⟨others, later, _⟩ := two
  refine ⟨passed ++ others, records.append later, ?_⟩
  intro isStrict empty
  exact nonempty (strict isStrict) (List.append_eq_nil_iff.mp empty).1

theorem Recorded.after {aux : Token} {next rule : ExpressionRule}
    (inside : aux.isExpressionToken = true)
    (later : next.Recorded (expr.addElement aux) tokens result rest) :
    rule.Recorded expr (aux :: tokens) result rest := by
  obtain ⟨passed, records, _⟩ := later
  exact ⟨aux :: passed, records.cons inside, fun _ => List.cons_ne_nil _ _⟩

theorem Recorded.nothing {rule : ExpressionRule} (lax : rule.isStrict = false) :
    rule.Recorded expr tokens expr tokens := by
  refine ⟨[], Records.none, ?_⟩
  rw [lax]
  intro impossible
  cases impossible

theorem Recorded.single {aux : Token} {rule : ExpressionRule}
    (inside : aux.isExpressionToken = true) :
    rule.Recorded expr (aux :: rest) (expr.addElement aux) rest :=
  ⟨[aux], Records.none.cons inside, fun _ => List.cons_ne_nil _ _⟩

theorem run_bind_eq_ok {first second : ExpressionRule}
    (returned : (do
      let (expr, tokens) ← run fuel first expr tokens
      run fuel second expr tokens) = Except.ok (result, rest)) :
    ∃ middle between, run fuel first expr tokens = .ok (middle, between) ∧
      run fuel second middle between = .ok (result, rest) := by
  obtain ⟨⟨middle, between⟩, one, two⟩ := Reading.bind_eq_ok.mp returned
  exact ⟨middle, between, one, two⟩

theorem run_recorded (fuel : Nat) (rule : ExpressionRule) {expr result : AbstractExpression}
    {tokens rest : List Token} (returned : run fuel rule expr tokens = .ok (result, rest)) :
    rule.Recorded expr tokens result rest := by
  induction fuel generalizing rule expr result tokens rest with
  | zero => cases returned
  | succ fuel induction =>
      have sequence : ∀ {first second rule : ExpressionRule} {expr result : AbstractExpression}
          {tokens rest : List Token}, (do
            let (expr, tokens) ← run fuel first expr tokens
            run fuel second expr tokens) = Except.ok (result, rest) →
          (rule.isStrict = true → first.isStrict = true) →
          rule.Recorded expr tokens result rest := by
        intro first second rule expr result tokens rest returned strict
        obtain ⟨middle, between, one, two⟩ := run_bind_eq_ok returned
        exact (induction first one).sequence (induction second two) strict
      cases rule with
      | expressionRule => exact sequence returned (fun _ => rfl)
      | termRule => exact sequence returned (fun _ => rfl)
      | otherExpressionRule =>
          cases tokens with
          | nil =>
              cases returned
              exact Recorded.nothing rfl
          | cons aux tail =>
              rw [run] at returned
              split at returned
              · rename_i sign
                have inside : aux.isExpressionToken = true := by
                  rcases Bool.or_eq_true_iff.mp sign with plus | minus
                  · exact Token.isExpressionToken_of_is plus rfl
                  · exact Token.isExpressionToken_of_is minus rfl
                have later := @sequence .termRule .otherExpressionRule .termRule _ _ _ _ returned
                  (fun _ => rfl)
                exact later.after inside
              · cases returned
                exact Recorded.nothing rfl
      | otherTermRule =>
          cases tokens with
          | nil =>
              cases returned
              exact Recorded.nothing rfl
          | cons aux tail =>
              rw [run] at returned
              split at returned
              · rename_i relational
                have inside := Token.isExpressionToken_of_isKeyword relational
                  (fun word => Keyword.isExpressionKeyword_of_relational)
                have later := @sequence .termRule .otherExpressionRule .termRule _ _ _ _ returned
                  (fun _ => rfl)
                exact later.after inside
              · split at returned
                · exact sequence returned (fun impossible => nomatch impossible)
                · split at returned
                  · rename_i binary
                    have inside := Token.isExpressionToken_of_isKeyword binary
                      (fun word => Keyword.isExpressionKeyword_of_binary)
                    have later := @sequence .factorRule .otherTermRule .termRule _ _ _ _ returned
                      (fun _ => rfl)
                    exact later.after inside
                  · cases returned
                    exact Recorded.nothing rfl
      | factorRule =>
          cases tokens with
          | nil => cases returned
          | cons aux tail =>
              rw [run] at returned
              split at returned
              · rename_i atom
                cases returned
                apply Recorded.single
                rcases Bool.or_eq_true_iff.mp atom with identified | constant
                · exact Token.isExpressionToken_of_isIdentifierToken identified
                · exact Token.isExpressionToken_of_isConstant constant
              · split at returned
                · rename_i unary
                  have inside := Token.isExpressionToken_of_isKeyword unary
                    (fun word => Keyword.isExpressionKeyword_of_unary)
                  exact (induction _ returned).after inside
                · split at returned
                  · rename_i opened
                    obtain ⟨⟨middle, between⟩, one, two⟩ := Reading.bind_eq_ok.mp returned
                    obtain ⟨⟨close, left⟩, consumed, last⟩ := Reading.bind_eq_ok.mp two
                    cases last
                    obtain ⟨rfl, closes⟩ := consumeToken_eq_ok.mp consumed
                    have inner : Recorded .expressionRule expr (aux :: tail) middle
                        (close :: rest) :=
                      (induction _ one).after (Token.isExpressionToken_of_is opened rfl)
                    have ended : Recorded .factorRule middle (close :: rest)
                        (middle.addElement close) rest :=
                      Recorded.single (Token.isExpressionToken_of_is closes rfl)
                    exact inner.sequence ended (fun _ => rfl)
                  · cases returned

end Rules

/-- Calls a rule makes without consuming a token, one more than those of the rules
it calls first. -/
def rank : ExpressionRule → Nat
  | expressionRule => 3
  | termRule => 2
  | otherTermRule => 2
  | otherExpressionRule => 1
  | factorRule => 1

theorem length_lt_of_run {fuel : Nat} {rule : ExpressionRule} {expr result : AbstractExpression}
    {tokens rest : List Token} (returned : run fuel rule expr tokens = .ok (result, rest))
    (strict : rule.isStrict = true) : rest.length < tokens.length := by
  obtain ⟨passed, records, nonempty⟩ := run_recorded fuel rule returned
  have counted := records.passes.length_eq
  have positive := List.length_pos_of_ne_nil (nonempty strict)
  omega

theorem run_settled (fuel : Nat) (rule : ExpressionRule) (expr : AbstractExpression)
    (tokens : List Token) (enough : 4 * tokens.length + rule.rank < fuel) :
    Settled (run fuel rule expr tokens) := by
  induction fuel generalizing rule expr tokens with
  | zero => exact absurd enough (Nat.not_lt_zero _)
  | succ fuel induction =>
      have sequence : ∀ {first second : ExpressionRule} {expr : AbstractExpression}
          {tokens : List Token}, 4 * tokens.length + first.rank < fuel →
          first.isStrict = true → second.rank ≤ 2 →
          Settled (do
            let (expr, tokens) ← run fuel first expr tokens
            run fuel second expr tokens) := by
        intro first second expr tokens deep strict low
        apply (induction first expr tokens deep).bind
        rintro ⟨middle, between⟩ returned
        apply induction
        have shorter := length_lt_of_run returned strict
        omega
      cases rule with
      | expressionRule =>
          apply sequence
          · exact Nat.lt_of_succ_lt_succ enough
          · rfl
          · decide
      | termRule =>
          apply sequence
          · exact Nat.lt_of_succ_lt_succ enough
          · rfl
          · exact Nat.le_refl _
      | otherExpressionRule =>
          cases tokens with
          | nil => exact Settled.ok _
          | cons aux tail =>
              simp only [List.length_cons, rank] at enough
              rw [run]
              split
              · apply sequence
                · simp only [rank]
                  omega
                · rfl
                · decide
              · exact Settled.ok _
      | otherTermRule =>
          cases tokens with
          | nil => exact Settled.ok _
          | cons aux tail =>
              simp only [List.length_cons, rank] at enough
              rw [run]
              split
              · apply sequence
                · simp only [rank]
                  omega
                · rfl
                · decide
              · split
                · apply sequence
                  · simp only [rank, List.length_cons]
                    omega
                  · rfl
                  · exact Nat.le_refl _
                · split
                  · apply sequence
                    · simp only [rank]
                      omega
                    · rfl
                    · exact Nat.le_refl _
                  · exact Settled.ok _
      | factorRule =>
          cases tokens with
          | nil => exact fun same => by cases same
          | cons aux tail =>
              simp only [List.length_cons, rank] at enough
              rw [run]
              split
              · exact Settled.ok _
              · split
                · apply induction
                  simp only [rank]
                  omega
                · split
                  · apply Settled.bind
                    · apply induction
                      simp only [rank]
                      omega
                    · rintro ⟨middle, between⟩ _
                      exact (Settled.consumeToken _ _).bind (fun read _ => Settled.ok _)
                  · exact fun same => by cases same

end ExpressionRule

theorem expressionRule_settled (expr : AbstractExpression) (tokens : List Token) :
    Settled (expressionRule expr tokens) := by
  apply ExpressionRule.run_settled
  exact Nat.add_lt_add_left (by decide) _

theorem expressionRule_records {expr result : AbstractExpression} {tokens rest : List Token}
    (returned : expressionRule expr tokens = .ok (result, rest)) :
    ∃ passed, Records expr tokens passed result rest ∧ passed ≠ [] := by
  obtain ⟨passed, records, nonempty⟩ := ExpressionRule.run_recorded _ .expressionRule returned
  exact ⟨passed, records, nonempty rfl⟩

end Symbolrt
