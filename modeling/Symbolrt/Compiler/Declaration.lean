import Symbolrt.Compiler.Clauses

/-!
# The shape of an accepted declaration

Each clause rule reads its keyword and a body that opens no other clause.  A clock
guard spells a conjunction of comparisons.  Together they give the shape of an
accepted declaration and what its two guards hold: the variable of the clock guard
is still set when there is no data guard to replace it.
-/

namespace Symbolrt

open Reading

theorem opensNoClause_of_isExpressionToken (token : Token)
    (inside : token.isExpressionToken = true) : opensNoClause token = true := by
  rw [opensNoClause, Token.opensClause_of_isExpressionToken inside]
  rfl

theorem Records.passesNoClause {expr result : AbstractExpression}
    {tokens passed rest : List Token} (records : Records expr tokens passed result rest) :
    Passes opensNoClause tokens passed rest :=
  records.passes.mono opensNoClause_of_isExpressionToken

/-- The three words of a comparison of a clock. -/
def comparisonImages (simple : SimpleClockGuard) : List String :=
  [simple.clock, simple.relation.text, simple.integerConstant]

/-- The words of a conjunction of comparisons. -/
def guardImages (first : SimpleClockGuard) (others : List SimpleClockGuard) : List String :=
  comparisonImages first ++
    others.flatMap (fun simple => Constants.guardConjunction :: comparisonImages simple)

theorem exists_relation {word : Keyword} (isOperator : word.isClockOperator = true) :
    ∃ relation : Relation, relation.text = word.image := by
  cases word with
  | moreThenTk => exact ⟨.gt, rfl⟩
  | moreThenEqualsTk => exact ⟨.geq, rfl⟩
  | equalsTk => exact ⟨.equal, rfl⟩
  | lessThenTk => exact ⟨.lt, rfl⟩
  | lessThenEqualsTk => exact ⟨.leq, rfl⟩
  | _ => cases isOperator

theorem isName_of_isIdentifier {text : String} (identifier : isIdentifier text = true) :
    isName text = true := by
  simp only [isIdentifier, Bool.and_eq_true] at identifier
  exact identifier.1.1

theorem clockComparison_records {expr result : AbstractExpression} {tokens rest : List Token}
    (returned : clockComparison expr tokens = .ok (result, rest)) :
    ∃ passed simple, Records expr tokens passed result rest ∧
      passed.map Token.image = comparisonImages simple := by
  obtain ⟨⟨clockTk, afterClock⟩, clockRead, returned⟩ := Reading.bind_eq_ok.mp returned
  obtain ⟨⟨opTk, afterOp⟩, opRead, returned⟩ := Reading.bind_eq_ok.mp returned
  obtain ⟨⟨timeTk, afterTime⟩, timeRead, returned⟩ := Reading.bind_eq_ok.mp returned
  cases returned
  obtain ⟨rfl, isClock⟩ := consumeToken_eq_ok.mp clockRead
  obtain ⟨rfl, isOperator⟩ := consumeToken_eq_ok.mp opRead
  obtain ⟨rfl, isTime⟩ := consumeToken_eq_ok.mp timeRead
  cases clockTk with
  | keyword word => cases isClock
  | integer numeral isNumeral => cases isClock
  | identifier clock isIdentifier =>
      cases opTk with
      | identifier name isIdentifier => cases isOperator
      | integer numeral isNumeral => cases isOperator
      | keyword word =>
          cases timeTk with
          | keyword word => cases isTime
          | identifier name isIdentifier => cases isTime
          | integer numeral isNumeral =>
              obtain ⟨relation, spelled⟩ := exists_relation isOperator
              have inside : word.isExpressionKeyword = true := by
                apply Keyword.isExpressionKeyword_of_relational
                rw [Keyword.isRelationalOperator, show word.isClockOperator = true from isOperator,
                  Bool.or_true]
              refine ⟨[.identifier clock isIdentifier, .keyword word, .integer numeral isNumeral],
                ⟨0, clock, relation, numeral, isName_of_isIdentifier isIdentifier, isNumeral⟩,
                ?_, ?_⟩
              · apply Records.cons rfl
                exact Records.cons (show Token.isExpressionToken (.keyword word) = true from inside)
                  (Records.none.cons rfl)
              · rw [comparisonImages, spelled]
                rfl

/-- The expression holds the body of the clause, which spells a clock guard. -/
def SpellsClockGuard (expr : AbstractExpression) (body : List Token) : Prop :=
  expr.expression = body ∧ ∃ first others, body.map Token.image = guardImages first others

theorem clockGuardRule_readsClause : ReadsClause .whenTk clockGuardRule SpellsClockGuard := by
  intro tokens rest value returned
  obtain ⟨after, rfl, entered⟩ := exists_after_keyword returned
  obtain ⟨⟨expr, afterFirst⟩, firstRead, looped⟩ := Reading.bind_eq_ok.mp entered
  obtain ⟨passed, first, records, spelled⟩ := clockComparison_records firstRead
  let property : AbstractExpression → List Token → Prop := fun expr left =>
    ∃ passed others, Records AbstractExpression.new after passed expr left ∧
      passed.map Token.image = guardImages first others
  have started : property expr afterFirst := by
    refine ⟨passed, [], records, ?_⟩
    rw [spelled, guardImages, List.flatMap_nil, List.append_nil]
  have kept : ∀ {expr next left later}, property expr left →
      nextIs (Token.is .andTk) left = true →
      (consumeToken (Token.is .andTk) left >>= fun read =>
        clockComparison (expr.addElement read.1) read.2) = Except.ok (next, later) →
      property next later := by
    rintro expr next left later ⟨done, others, recorded, images⟩ _ round
    obtain ⟨after, rfl, compared⟩ := exists_after_keyword round
    obtain ⟨passed, simple, more, spelled⟩ := clockComparison_records compared
    refine ⟨done ++ .keyword .andTk :: passed, others ++ [simple], ?_, ?_⟩
    · exact recorded.append (more.cons rfl)
    · rw [List.map_append, List.map_cons, images, spelled]
      simp [guardImages, Token.image, Keyword.image, Constants.guardConjunction]
  obtain ⟨⟨whole, others, recorded, images⟩, _⟩ :=
    repeatWhile_induction kept _ started looped
  have passes := recorded.passesNoClause
  refine ⟨whole, congrArg _ passes.whole, passes.each, ?_, first, others, images⟩
  rw [recorded.result_eq]
  rfl

theorem dataGuardRule_readsClause :
    ReadsClause .ifTk dataGuardRule (fun expr body => expr.expression = body) := by
  intro tokens rest value returned
  obtain ⟨after, rfl, entered⟩ := exists_after_keyword returned
  obtain ⟨passed, records, _⟩ := expressionRule_records entered
  have passes := records.passesNoClause
  refine ⟨passed, congrArg _ passes.whole, passes.each, ?_⟩
  rw [records.result_eq]
  rfl

theorem opensNoClause_of_is {token : Token} {word : Keyword} (same : token.is word = true)
    (closed : word.opensClause = false) : opensNoClause token = true := by
  rw [eq_keyword_of_is same, opensNoClause, Token.opensClause, closed]
  rfl

theorem opensNoClause_of_isIdentifierToken {token : Token}
    (identified : token.isIdentifierToken = true) : opensNoClause token = true :=
  opensNoClause_of_isExpressionToken token
    (Token.isExpressionToken_of_isIdentifierToken identified)

theorem opensNoClause_of_isActionDirection {token : Token}
    (direction : isActionDirection token = true) : opensNoClause token = true := by
  rcases Bool.or_eq_true_iff.mp direction with input | output
  · exact opensNoClause_of_is input rfl
  · exact opensNoClause_of_is output rfl

/-- What was passed over opens no clause. -/
def Inside (tokens rest : List Token) : Prop :=
  ∃ passed, Passes opensNoClause tokens passed rest

section Inside

variable {α : Type} {tokens middle rest : List Token} {token : Token}

theorem Inside.trans (first : Inside tokens middle) (second : Inside middle rest) :
    Inside tokens rest := Within.trans first second

theorem inside_of_keyword {word : Keyword}
    (consumed : consumeToken (Token.is word) tokens = .ok (token, rest))
    (closed : word.opensClause = false) : Inside tokens rest :=
  within_of_consumeToken consumed (fun same => opensNoClause_of_is same closed)

theorem inside_of_identifier
    (consumed : consumeToken Token.isIdentifierToken tokens = .ok (token, rest)) :
    Inside tokens rest :=
  within_of_consumeToken consumed opensNoClause_of_isIdentifierToken

theorem inside_of_optionalPart {opens : Token → Bool}
    {rule : List Token → Except ReadFailure (α × List Token)} {current result : Option α}
    (returned : optionalPart opens rule current tokens = .ok (result, rest))
    (inside : ∀ {value}, rule tokens = .ok (value, rest) → Inside tokens rest) :
    Inside tokens rest :=
  within_of_optionalPart returned inside

theorem inside_of_repeatWhile {opens : Token → Bool}
    {round : α → List Token → Except ReadFailure (α × List Token)} {fuel : Nat}
    {value result : α}
    (returned : repeatWhile opens round fuel value tokens = .ok (result, rest))
    (inside : ∀ {value next left later}, round value left = .ok (next, later) →
      Inside left later) :
    Inside tokens rest :=
  within_of_repeatWhile returned inside

end Inside

theorem otherActionRule_inside {translationUnit : TranslationUnit} {act : AbstractAction}
    {tokens rest : List Token} {result : AbstractAction × TranslationUnit}
    (returned : otherActionRule translationUnit act tokens = .ok (result, rest)) :
    Inside tokens rest := by
  obtain ⟨⟨direction, afterDirection⟩, directed, returned⟩ := Reading.bind_eq_ok.mp returned
  obtain ⟨⟨opened, afterOpen⟩, openRead, returned⟩ := Reading.bind_eq_ok.mp returned
  obtain ⟨⟨parameters, afterParameters⟩, listed, returned⟩ := Reading.bind_eq_ok.mp returned
  obtain ⟨⟨closed, afterClose⟩, closeRead, returned⟩ := Reading.bind_eq_ok.mp returned
  cases returned
  have directionInside : Inside tokens afterDirection :=
    inside_of_optionalPart directed
      (fun read => within_of_consumeToken read opensNoClause_of_isActionDirection)
  have parametersInside : Inside afterOpen afterParameters := by
    apply inside_of_optionalPart listed
    intro value read
    obtain ⟨⟨aux, afterFirst⟩, firstRead, looped⟩ := Reading.bind_eq_ok.mp read
    apply (inside_of_identifier firstRead).trans
    apply inside_of_repeatWhile looped
    intro value next left later round
    obtain ⟨⟨comma, afterComma⟩, commaRead, round⟩ := Reading.bind_eq_ok.mp round
    obtain ⟨⟨aux, afterNext⟩, nextRead, round⟩ := Reading.bind_eq_ok.mp round
    cases round
    exact (inside_of_keyword commaRead rfl).trans (inside_of_identifier nextRead)
  apply directionInside.trans
  apply (inside_of_keyword openRead rfl).trans
  apply parametersInside.trans
  exact inside_of_keyword closeRead rfl

theorem assignmentRule_inside {translationUnit : TranslationUnit}
    {assignments result : List AbstractExpression} {tokens rest : List Token}
    (returned : assignmentRule translationUnit assignments tokens = .ok (result, rest)) :
    Inside tokens rest := by
  obtain ⟨⟨target, afterTarget⟩, targetRead, returned⟩ := Reading.bind_eq_ok.mp returned
  obtain ⟨⟨aux, afterSymbol⟩, symbolRead, returned⟩ := Reading.bind_eq_ok.mp returned
  obtain ⟨⟨expr, afterExpression⟩, expressionRead, returned⟩ := Reading.bind_eq_ok.mp returned
  cases returned
  obtain ⟨passed, records, _⟩ := expressionRule_records expressionRead
  apply (inside_of_identifier targetRead).trans
  apply (inside_of_keyword symbolRead rfl).trans
  exact ⟨passed, records.passesNoClause⟩

theorem assignmentSetRule_inside {translationUnit : TranslationUnit}
    {assignments result : List AbstractExpression} {tokens rest : List Token}
    (returned : assignmentSetRule translationUnit assignments tokens = .ok (result, rest)) :
    Inside tokens rest := by
  obtain ⟨⟨opened, afterOpen⟩, openRead, returned⟩ := Reading.bind_eq_ok.mp returned
  obtain ⟨⟨first, afterFirst⟩, firstRead, returned⟩ := Reading.bind_eq_ok.mp returned
  obtain ⟨⟨all, afterAll⟩, looped, returned⟩ := Reading.bind_eq_ok.mp returned
  obtain ⟨⟨closed, afterClose⟩, closeRead, returned⟩ := Reading.bind_eq_ok.mp returned
  cases returned
  apply (inside_of_keyword openRead rfl).trans
  apply (assignmentRule_inside firstRead).trans
  apply Inside.trans ?_ (inside_of_keyword closeRead rfl)
  apply inside_of_repeatWhile looped
  intro value next left later round
  obtain ⟨⟨bar, afterBar⟩, barRead, round⟩ := Reading.bind_eq_ok.mp round
  exact (inside_of_keyword barRead rfl).trans (assignmentRule_inside round)

/-! The bodies of the remaining clauses do not matter here. -/

theorem actionRule_readsClause (translationUnit : TranslationUnit) :
    ReadsClause .synkTk (actionRule translationUnit) (fun _ _ => True) := by
  intro tokens rest value returned
  obtain ⟨after, rfl, entered⟩ := exists_after_keyword returned
  obtain ⟨⟨aux, afterName⟩, nameRead, named⟩ := Reading.bind_eq_ok.mp entered
  obtain ⟨⟨other, afterOther⟩, otherRead, ended⟩ := Reading.bind_eq_ok.mp named
  cases ended
  obtain ⟨passed, passes⟩ :=
    (inside_of_identifier nameRead).trans (inside_of_optionalPart otherRead otherActionRule_inside)
  exact ⟨passed, congrArg _ passes.whole, passes.each, trivial⟩

theorem statementRule_readsClause (translationUnit : TranslationUnit) :
    ReadsClause .doTk (statementRule translationUnit) (fun _ _ => True) := by
  intro tokens rest value returned
  obtain ⟨after, rfl, entered⟩ := exists_after_keyword returned
  have inside : Inside after rest := by
    dsimp only at entered
    split at entered
    · exact assignmentRule_inside entered
    · split at entered
      · exact assignmentSetRule_inside entered
      · cases entered
  obtain ⟨passed, passes⟩ := inside
  exact ⟨passed, congrArg _ passes.whole, passes.each, trivial⟩

theorem deadlineClause_readsClause :
    ReadsClause .deadlineTk deadlineClause (fun _ _ => True) := by
  intro tokens rest value returned
  obtain ⟨after, rfl, entered⟩ := exists_after_keyword returned
  have inside : Inside after rest := by
    dsimp only at entered
    rw [deadlineTypeRule.eq_def] at entered
    split at entered
    · cases entered
      exact ⟨[.keyword .delayableTk], Passes.none.cons rfl⟩
    · cases entered
      exact ⟨[.keyword .eagerTk], Passes.none.cons rfl⟩
    · cases entered
      exact ⟨[.keyword .lazyTk], Passes.none.cons rfl⟩
    · cases entered
  obtain ⟨passed, passes⟩ := inside
  exact ⟨passed, congrArg _ passes.whole, passes.each, trivial⟩

/-- What an accepted declaration leaves in its two guards. -/
structure GuardClauses (declaration : List Token) (trans : AbstractTransition) : Prop where
  clockGuard : trans.clockGuard.map AbstractExpression.expression = clause .whenTk declaration
  dataGuard : trans.dataGuard.map AbstractExpression.expression =
    (clause .ifTk declaration).or (clause .whenTk declaration)
  spells : ∀ {body}, clause .whenTk declaration = some body →
    ∃ first others, body.map Token.image = guardImages first others

section Declaration

variable {source destination finish : Token} {whenBody ifBody synkBody doBody deadlineBody :
  Option (List Token)}

/-- The five clauses of a declaration, each there or not, and its end. -/
def declarationTokens (source : Token) (whenBody ifBody synkBody doBody deadlineBody :
    Option (List Token)) (destination : Token) : List Token :=
  .keyword .fromTk :: source :: (clausePart .whenTk whenBody ++ (clausePart .ifTk ifBody ++
    (clausePart .synkTk synkBody ++ (clausePart .doTk doBody ++
      (clausePart .deadlineTk deadlineBody ++
        [.keyword .toTk, destination, .keyword .semicolon])))))

/-- The bodies open no clause themselves. -/
def BodiesClosed (bodies : List (Option (List Token))) : Prop :=
  ∀ found ∈ bodies, ∀ body ∈ found, ∀ token ∈ body, opensNoClause token = true

theorem ne_keyword {token : Token} (identified : token.isIdentifierToken = true)
    (word : Keyword) : token ≠ .keyword word := by
  rintro rfl
  cases identified

theorem clause_end {word : Keyword} (isDestination : destination.isIdentifierToken = true)
    (notTo : Keyword.toTk ≠ word) (notSemicolon : Keyword.semicolon ≠ word) :
    clause word [.keyword .toTk, destination, .keyword .semicolon] = none := by
  rw [clause_skip (fun same => notTo (Token.keyword.inj same)),
    clause_skip (ne_keyword isDestination word),
    clause_skip (fun same => notSemicolon (Token.keyword.inj same))]
  rfl

theorem clause_when (isSource : source.isIdentifierToken = true)
    (isDestination : destination.isIdentifierToken = true)
    (closed : BodiesClosed [whenBody, ifBody, synkBody, doBody, deadlineBody]) :
    clause .whenTk (declarationTokens source whenBody ifBody synkBody doBody deadlineBody
      destination) = whenBody := by
  have ended : clause .whenTk [.keyword .toTk, destination, .keyword .semicolon] = none :=
    clause_end isDestination (by decide) (by decide)
  have stops : nextIs Token.opensClause (clausePart .ifTk ifBody ++
      (clausePart .synkTk synkBody ++ (clausePart .doTk doBody ++
        (clausePart .deadlineTk deadlineBody ++
          [.keyword .toTk, destination, .keyword .semicolon])))) = true := by
    apply nextIs_clausePart rfl
    apply nextIs_clausePart rfl
    apply nextIs_clausePart rfl
    exact nextIs_clausePart rfl rfl
  rw [declarationTokens, clause_skip (by decide), clause_skip (ne_keyword isSource _),
    clause_part_self (closed _ (by simp)) stops,
    clause_part_other rfl (by decide) (closed _ (by simp)),
    clause_part_other rfl (by decide) (closed _ (by simp)),
    clause_part_other rfl (by decide) (closed _ (by simp)),
    clause_part_other rfl (by decide) (closed _ (by simp)), ended, Option.or_none]

theorem clause_if (isSource : source.isIdentifierToken = true)
    (isDestination : destination.isIdentifierToken = true)
    (closed : BodiesClosed [whenBody, ifBody, synkBody, doBody, deadlineBody]) :
    clause .ifTk (declarationTokens source whenBody ifBody synkBody doBody deadlineBody
      destination) = ifBody := by
  have ended : clause .ifTk [.keyword .toTk, destination, .keyword .semicolon] = none :=
    clause_end isDestination (by decide) (by decide)
  have stops : nextIs Token.opensClause (clausePart .synkTk synkBody ++
      (clausePart .doTk doBody ++ (clausePart .deadlineTk deadlineBody ++
        [.keyword .toTk, destination, .keyword .semicolon]))) = true := by
    apply nextIs_clausePart rfl
    apply nextIs_clausePart rfl
    exact nextIs_clausePart rfl rfl
  rw [declarationTokens, clause_skip (by decide), clause_skip (ne_keyword isSource _),
    clause_part_other rfl (by decide) (closed _ (by simp)),
    clause_part_self (closed _ (by simp)) stops,
    clause_part_other rfl (by decide) (closed _ (by simp)),
    clause_part_other rfl (by decide) (closed _ (by simp)),
    clause_part_other rfl (by decide) (closed _ (by simp)), ended, Option.or_none]

end Declaration

theorem transitionRule_guardClauses {translationUnit later : TranslationUnit}
    {declaration rest : List Token} {trans : AbstractTransition}
    (accepted : transitionRule translationUnit (declaration ++ rest) =
      .ok ((trans, later), rest)) : GuardClauses declaration trans := by
  obtain ⟨afterFrom, fromRead, entered⟩ := exists_after_keyword accepted
  obtain ⟨⟨source, afterSource⟩, sourceRead, sourced⟩ := Reading.bind_eq_ok.mp entered
  obtain ⟨⟨clockExpr, afterWhen⟩, whenRead, clocked⟩ := Reading.bind_eq_ok.mp sourced
  obtain ⟨⟨dataExpr, afterIf⟩, ifRead, guarded⟩ := Reading.bind_eq_ok.mp clocked
  obtain ⟨⟨act, afterSynk⟩, synkRead, acted⟩ := Reading.bind_eq_ok.mp guarded
  obtain ⟨⟨assignments, afterDo⟩, doRead, assigned⟩ := Reading.bind_eq_ok.mp acted
  obtain ⟨⟨deadlineType, afterDeadline⟩, deadlineRead, timed⟩ := Reading.bind_eq_ok.mp assigned
  obtain ⟨afterTo, toRead, arrived⟩ := exists_after_keyword timed
  obtain ⟨⟨destination, afterDestination⟩, destinationRead, reached⟩ :=
    Reading.bind_eq_ok.mp arrived
  obtain ⟨afterAll, finishRead, finished⟩ := exists_after_keyword reached
  cases finished
  obtain ⟨rfl, isSource⟩ := consumeToken_eq_ok.mp sourceRead
  obtain ⟨rfl, isDestination⟩ := consumeToken_eq_ok.mp destinationRead
  obtain ⟨whenBody, whenWhole, whenClosed, whenValue⟩ :=
    ReadsClause.optional clockGuardRule_readsClause whenRead
  obtain ⟨ifBody, ifWhole, ifClosed, ifValue⟩ :=
    ReadsClause.optional dataGuardRule_readsClause ifRead
  obtain ⟨synkBody, synkWhole, synkClosed, _⟩ :=
    ReadsClause.optional (actionRule_readsClause translationUnit) synkRead
  obtain ⟨doBody, doWhole, doClosed, _⟩ :=
    ReadsClause.optional (statementRule_readsClause _) doRead
  obtain ⟨deadlineBody, deadlineWhole, deadlineClosed, _⟩ :=
    ReadsClause.optional deadlineClause_readsClause deadlineRead
  have whole : declaration = declarationTokens source whenBody ifBody synkBody doBody
      deadlineBody destination := by
    apply List.append_cancel_right
    rw [fromRead, whenWhole, ifWhole, synkWhole, doWhole, deadlineWhole, toRead, finishRead]
    simp [declarationTokens]
  have closed : BodiesClosed [whenBody, ifBody, synkBody, doBody, deadlineBody] := by
    intro found member
    simp only [List.mem_cons, List.not_mem_nil, or_false] at member
    rcases member with rfl | rfl | rfl | rfl | rfl
    · exact whenClosed
    · exact ifClosed
    · exact synkClosed
    · exact doClosed
    · exact deadlineClosed
  have whenFound := clause_when isSource isDestination closed
  have ifFound := clause_if isSource isDestination closed
  rw [← whole] at whenFound ifFound
  have clockHeld : clockExpr.map AbstractExpression.expression = whenBody := by
    rcases whenValue with ⟨rfl, rfl⟩ | ⟨body, value, rfl, rfl, spells⟩
    · rfl
    · exact congrArg some spells.1
  constructor
  · change (clockExpr.or none).map AbstractExpression.expression = _
    rw [whenFound, Option.or_none, clockHeld]
  · change (dataExpr.or none).map AbstractExpression.expression = _
    rw [whenFound, ifFound, Option.or_none, ← clockHeld]
    rcases ifValue with ⟨rfl, rfl⟩ | ⟨body, value, rfl, rfl, spells⟩
    · rfl
    · exact congrArg some spells
  · intro body found
    rw [whenFound] at found
    rcases whenValue with ⟨rfl, _⟩ | ⟨held, value, rfl, _, spells⟩
    · cases found
    · cases found
      exact spells.2

theorem Inside.length_le {tokens rest : List Token} (inside : Inside tokens rest) :
    rest.length ≤ tokens.length := by
  obtain ⟨passed, passes⟩ := inside
  rw [passes.length_eq]
  exact Nat.le_add_left _ _

theorem length_lt_of_consumed {expected : Token → Bool} {tokens middle rest : List Token}
    {token : Token} (consumed : consumeToken expected tokens = .ok (token, middle))
    (inside : Inside middle rest) : rest.length < tokens.length := by
  obtain ⟨rfl, _⟩ := consumeToken_eq_ok.mp consumed
  exact Nat.lt_succ_of_le inside.length_le

theorem clockComparison_settled (expr : AbstractExpression) (tokens : List Token) :
    Settled (clockComparison expr tokens) := by
  apply (Settled.consumeToken _ _).bind
  intro clock _
  apply (Settled.consumeToken _ _).bind
  intro op _
  apply (Settled.consumeToken _ _).bind
  exact fun time _ => Settled.ok _

theorem clockGuardRule_settled (tokens : List Token) : Settled (clockGuardRule tokens) := by
  apply (Settled.consumeToken _ _).bind
  intro opened _
  apply (clockComparison_settled _ _).bind
  intro first _
  apply Settled.repeatWhile
  · intro expr tokens _
    apply (Settled.consumeToken _ _).bind
    exact fun aux _ => clockComparison_settled _ _
  · intro expr next tokens rest _ round
    obtain ⟨⟨aux, afterAnd⟩, andRead, compared⟩ := Reading.bind_eq_ok.mp round
    obtain ⟨passed, simple, records, _⟩ := clockComparison_records compared
    exact length_lt_of_consumed andRead ⟨passed, records.passesNoClause⟩
  · exact Nat.lt_succ_self _

theorem dataGuardRule_settled (tokens : List Token) : Settled (dataGuardRule tokens) := by
  apply (Settled.consumeToken _ _).bind
  exact fun opened _ => expressionRule_settled _ _

theorem otherActionRule_settled (translationUnit : TranslationUnit) (act : AbstractAction)
    (tokens : List Token) : Settled (otherActionRule translationUnit act tokens) := by
  apply Settled.bind
  · exact Settled.optionalPart (fun _ => Settled.consumeToken _ _)
  · intro direction _
    apply (Settled.consumeToken _ _).bind
    intro opened _
    apply Settled.bind
    · apply Settled.optionalPart
      intro _
      apply (Settled.consumeToken _ _).bind
      intro first _
      apply Settled.repeatWhile
      · intro act tokens _
        apply (Settled.consumeToken _ _).bind
        intro comma _
        apply (Settled.consumeToken _ _).bind
        exact fun aux _ => Settled.ok _
      · intro act next tokens rest _ round
        obtain ⟨⟨comma, afterComma⟩, commaRead, named⟩ := Reading.bind_eq_ok.mp round
        obtain ⟨⟨aux, afterName⟩, nameRead, ended⟩ := Reading.bind_eq_ok.mp named
        cases ended
        exact length_lt_of_consumed commaRead (inside_of_identifier nameRead)
      · exact Nat.lt_succ_self _
    · intro parameters _
      apply (Settled.consumeToken _ _).bind
      exact fun closed _ => Settled.ok _

theorem actionRule_settled (translationUnit : TranslationUnit) (tokens : List Token) :
    Settled (actionRule translationUnit tokens) := by
  apply (Settled.consumeToken _ _).bind
  intro opened _
  apply (Settled.consumeToken _ _).bind
  intro name _
  apply Settled.bind
  · exact Settled.optionalPart (fun _ => otherActionRule_settled _ _ _)
  · exact fun other _ => Settled.ok _

theorem assignmentRule_settled (translationUnit : TranslationUnit)
    (assignments : List AbstractExpression) (tokens : List Token) :
    Settled (assignmentRule translationUnit assignments tokens) := by
  apply (Settled.consumeToken _ _).bind
  intro target _
  apply (Settled.consumeToken _ _).bind
  intro symbol _
  apply (expressionRule_settled _ _).bind
  exact fun expr _ => Settled.ok _

theorem statementRule_settled (translationUnit : TranslationUnit) (tokens : List Token) :
    Settled (statementRule translationUnit tokens) := by
  apply (Settled.consumeToken _ _).bind
  rintro ⟨opened, after⟩ _
  dsimp only
  split
  · exact assignmentRule_settled _ _ _
  · split
    · apply (Settled.consumeToken _ _).bind
      intro brace _
      apply (assignmentRule_settled _ _ _).bind
      intro first _
      apply Settled.bind
      · apply Settled.repeatWhile
        · intro assignments tokens _
          apply (Settled.consumeToken _ _).bind
          exact fun bar _ => assignmentRule_settled _ _ _
        · intro assignments next tokens rest _ round
          obtain ⟨⟨bar, afterBar⟩, barRead, assigned⟩ := Reading.bind_eq_ok.mp round
          exact length_lt_of_consumed barRead (assignmentRule_inside assigned)
        · exact Nat.lt_succ_self _
      · intro all _
        apply (Settled.consumeToken _ _).bind
        exact fun closed _ => Settled.ok _
    · exact fun same => by cases same

theorem deadlineClause_settled (tokens : List Token) : Settled (deadlineClause tokens) := by
  apply (Settled.consumeToken _ _).bind
  rintro ⟨opened, after⟩ _
  dsimp only
  rw [deadlineTypeRule.eq_def]
  split
  · exact Settled.ok _
  · exact Settled.ok _
  · exact Settled.ok _
  · exact fun same => by cases same

end Symbolrt
