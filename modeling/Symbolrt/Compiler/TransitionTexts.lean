import Symbolrt.Compiler.ExpressionTexts

/-!
# The texts of transition declarations

What may be written as a transition declaration and its clauses, what it means for the
tables of the parser, and that the rule of a declaration reads these texts.
-/

namespace Symbolrt

open Reading

/-- A token of the given kind. -/
abbrev TokenOf (kind : Token → Bool) : Type := {token : Token // kind token = true}

abbrev Identifier : Type := TokenOf Token.isIdentifierToken

theorem reads_keyword (word : Keyword) :
    Reads (consumeToken (Token.is word)) (fun _ : Unit => [.keyword word])
      (fun _ => .ok (.keyword word)) (fun _ _ => True) := by
  constructor
  · exact fun text rest _ => consumeToken_eq_ok.mpr ⟨rfl, beq_self_eq_true word⟩
  · intro tokens token rest returned
    obtain ⟨whole, same⟩ := consumeToken_eq_ok.mp returned
    exact ⟨(), eq_keyword_of_is same ▸ whole, trivial⟩

section Commas

variable {T : Type} (token : T → Token)

/-- The tokens behind the first of some items. -/
def afterCommas (items : List T) : List Token :=
  items.flatMap (fun item => [.keyword .comma, token item])

/-- The tokens of the entries with commas between them. -/
def commaSeparated : List T → List Token
  | [] => []
  | first :: others => token first :: afterCommas token others

end Commas

theorem nextName_reads {α : Type} (add : Token → α → α) (value : α) :
    Reads (fun tokens => do
        let (_, tokens) ← consumeToken (Token.is .comma) tokens
        let (aux, tokens) ← consumeToken Token.isIdentifierToken tokens
        return (add aux value, tokens))
      (fun name : Identifier => [.keyword .comma, name.1])
      (fun name => .ok (add name.1 value)) (fun _ _ => True) := by
  refine Reads.ofTexts (by
      apply Reads.andThen (reads_keyword .comma)
      intro _
      apply Reads.andThen (Reads.token _)
      intro aux
      exact Reads.done _)
    (fun name => ((), name, ())) ?_ (fun _ => rfl) (fun _ => rfl) (fun _ _ => Iff.rfl)
  rintro ⟨⟨⟩, name, ⟨⟩⟩
  exact ⟨name, rfl⟩

theorem nextNames_reads {α : Type} (add : Token → α → α) (value : α) :
    Reads (fun tokens => repeatWhile (Token.is .comma) (fun value tokens => do
        let (_, tokens) ← consumeToken (Token.is .comma) tokens
        let (aux, tokens) ← consumeToken Token.isIdentifierToken tokens
        return (add aux value, tokens)) (tokens.length + 1) value tokens)
      (afterCommas Subtype.val)
      (fun names : List Identifier => .ok (names.foldl (fun value name => add name.1 value) value))
      (repeatStops (Token.is .comma) (fun _ => True)) :=
  Reads.repeatAll (nextName_reads add) (fun _ _ => rfl) (fun _ _ => trivial) value

/-- A comparison of a clock with a constant. -/
structure ComparisonText where
  clock : Identifier
  operator : TokenOf (Token.isKeyword Keyword.isClockOperator)
  time : TokenOf Token.isIntegerToken

def ComparisonText.write (text : ComparisonText) : List Token :=
  [text.clock.1, text.operator.1, text.time.1]

/-- The comparisons of a clock guard, at least one. -/
structure ClockGuardText where
  first : ComparisonText
  others : List ComparisonText

namespace ClockGuardText

/-- The comparisons with `and` between them, without the word `when`. -/
def body (text : ClockGuardText) : List Token :=
  text.first.write ++ text.others.flatMap (fun other => .keyword .andTk :: other.write)

def write (text : ClockGuardText) : List Token := .keyword .whenTk :: text.body

/-- The expression the rule stores: its elements are the tokens of the body. -/
def meaning (text : ClockGuardText) : AbstractExpression :=
  AbstractExpression.new.addElements text.body

end ClockGuardText

theorem clockComparison_reads (expr : AbstractExpression) :
    Reads (clockComparison expr) ComparisonText.write
      (fun text => .ok (expr.addElements text.write)) (fun _ _ => True) := by
  refine Reads.ofTexts (by
      apply Reads.andThen (Reads.token _)
      intro clockTk
      apply Reads.andThen (Reads.token _)
      intro opTk
      apply Reads.andThen (Reads.token _)
      intro timeTk
      exact Reads.done _)
    (fun text => (text.clock, text.operator, text.time, ())) ?_ (fun _ => rfl) ?_
    (fun _ _ => Iff.rfl)
  · rintro ⟨clock, operator, time, ⟨⟩⟩
    exact ⟨⟨clock, operator, time⟩, rfl⟩
  · intro text
    simp [ComparisonText.write, AbstractExpression.addElement, AbstractExpression.addElements,
      bind, Except.bind]

theorem foldl_addElements {T : Type} (write : T → List Token) (texts : List T)
    (expr : AbstractExpression) :
    texts.foldl (fun expr text => expr.addElements (write text)) expr =
      expr.addElements (texts.flatMap write) := by
  induction texts generalizing expr with
  | nil => rw [List.flatMap_nil, AbstractExpression.addElements, List.append_nil]; rfl
  | cons text texts induction =>
      rw [List.foldl_cons, induction, AbstractExpression.addElements_append, List.flatMap_cons]

theorem conjunction_reads (expr : AbstractExpression) :
    Reads (fun tokens => do
        let (aux, tokens) ← consumeToken (Token.is .andTk) tokens
        clockComparison (expr.addElement aux) tokens)
      (fun text : ComparisonText => .keyword .andTk :: text.write)
      (fun text => .ok (expr.addElements (.keyword .andTk :: text.write))) (fun _ _ => True) := by
  refine Reads.ofTexts (by
      apply Reads.andThen (reads_keyword .andTk)
      intro aux
      exact clockComparison_reads _)
    (fun text => ((), text)) ?_ (fun _ => rfl) ?_ (fun _ _ => Iff.rfl)
  · rintro ⟨⟨⟩, text⟩
    exact ⟨text, rfl⟩
  · intro text
    rw [← AbstractExpression.addElements_cons]
    rfl

theorem clockGuardRule_reads :
    Reads clockGuardRule ClockGuardText.write (fun text => .ok text.meaning)
      (fun _ rest => nextIs (Token.is .andTk) rest = false) := by
  refine Reads.ofTexts (by
      apply Reads.andThen (reads_keyword .whenTk)
      intro _
      apply Reads.andThen (clockComparison_reads _)
      intro expr
      exact Reads.repeatAll conjunction_reads (fun _ _ => rfl) (fun _ _ => trivial) expr)
    (fun text => ((), text.first, text.others)) ?_ (fun _ => rfl) ?_ ?_
  · rintro ⟨⟨⟩, first, others⟩
    exact ⟨⟨first, others⟩, rfl⟩
  · intro text
    show _ = Except.ok (text.others.foldl _ _)
    rw [foldl_addElements (fun other : ComparisonText => .keyword .andTk :: other.write),
      AbstractExpression.addElements_append]
    rfl
  · intro text rest
    exact (and_iff_left (fun _ => trivial)).symm

/-- The expression the rule stores for a data guard. -/
def dataGuardMeaning (text : ExpressionText) : AbstractExpression :=
  AbstractExpression.new.addElements text.write

def writeDataGuard (text : ExpressionText) : List Token := .keyword .ifTk :: text.write

theorem dataGuardRule_reads :
    Reads dataGuardRule writeDataGuard (fun text => .ok (dataGuardMeaning text))
      (fun _ rest => nextIs Token.goesOn rest = false) := by
  refine Reads.ofTexts (by
      apply Reads.andThen (reads_keyword .ifTk)
      intro _
      exact expressionRule_reads _)
    (fun text => ((), text)) ?_ (fun _ => rfl) (fun _ => rfl) (fun _ _ => Iff.rfl)
  rintro ⟨⟨⟩, text⟩
  exact ⟨text, rfl⟩

/-- What may stand behind the name of an action: its direction and its parameters. -/
structure ParametersText where
  direction : Option (TokenOf isActionDirection)
  parameters : List Identifier

namespace ParametersText

/-- The direction, if there is one, and the parameters in parentheses. -/
def write (text : ParametersText) : List Token :=
  text.direction.elim [] (fun direction => [direction.1]) ++ .keyword .openParTk ::
    (commaSeparated Subtype.val text.parameters ++ [.keyword .closeParTk])

/-- The type the direction gives the action. Without one it stays as it is. -/
def setDirection (direction : Option Token) (act : AbstractAction) : AbstractAction :=
  match direction with
  | some token => act.setType (if token.is .inActTk then .input else .output)
  | none => act

/-- The action with its direction and parameters. -/
def action (act : AbstractAction) (text : ParametersText) : AbstractAction :=
  text.parameters.foldl (fun act name => act.addParameter name.1.image)
    (setDirection (text.direction.map Subtype.val) act)

/-- The action with its parameters, and the tables after they are entered. -/
def meaning (tables : TranslationUnit) (act : AbstractAction) (text : ParametersText) :
    AbstractAction × TranslationUnit :=
  (text.action act, tables.enterParameters (text.action act))

end ParametersText

theorem otherActionRule_reads (tables : TranslationUnit) (act : AbstractAction) :
    Reads (otherActionRule tables act) ParametersText.write
      (fun text => .ok (text.meaning tables act)) (fun _ _ => True) := by
  refine Reads.ofTexts (by
      apply Reads.bind ((Reads.token isActionDirection).optionalPart _ none)
      · intro direction
        apply Reads.andThen (reads_keyword .openParTk)
        intro _
        apply Reads.bind (Reads.optionalPart (Reads.andThen (Reads.token Token.isIdentifierToken)
          (fun aux => nextNames_reads (fun aux act => AbstractAction.addParameter aux.image act) _))
          (fun text _ => by exact text.1.2) none)
        · intro parameters
          apply Reads.andThen (reads_keyword .closeParTk)
          intro _
          exact Reads.done _
        · intro text other rest _
          cases text with
          | none => rfl
          | some text => exact ⟨rfl, fun _ => trivial⟩
      · intro text other rest _
        cases text with
        | none => rfl
        | some text => trivial
      · exact fun direction _ => direction.2)
    (fun text => (text.direction, (), firstAndOthers text.parameters, (), ())) ?_ ?_ ?_
    (fun _ _ => Iff.rfl)
  · rintro ⟨direction, ⟨⟩, parameters, ⟨⟩, ⟨⟩⟩
    obtain ⟨names, rfl⟩ := firstAndOthers_surjective parameters
    exact ⟨⟨direction, names⟩, rfl⟩
  · rintro ⟨direction, _ | ⟨first, others⟩⟩
    · rfl
    · rfl
  · rintro ⟨direction, parameters⟩
    cases direction with
    | none =>
        cases parameters with
        | nil => rfl
        | cons first others => rfl
    | some direction =>
        cases parameters with
        | nil => rfl
        | cons first others => rfl

/-- A synchronisation with its parameters, if it lists them. -/
structure ActionText where
  name : Identifier
  listed : Option ParametersText

namespace ActionText

def write (text : ActionText) : List Token :=
  .keyword .synkTk :: text.name.1 :: text.listed.elim [] ParametersText.write

/-- The action, and the tables with the parameters it lists. -/
def meaning (tables : TranslationUnit) (text : ActionText) : AbstractAction × TranslationUnit :=
  let act : AbstractAction := ⟨text.name.1.image, .internal, []⟩
  match text.listed with
  | none => (act, tables)
  | some listed => listed.meaning tables act

end ActionText

theorem opensOtherAction_write (text : ParametersText) (rest : List Token) :
    nextIs opensOtherAction (text.write ++ rest) = true := by
  obtain ⟨direction, parameters⟩ := text
  cases direction with
  | none => rfl
  | some direction =>
      show opensOtherAction direction.1 = true
      rw [opensOtherAction, direction.2, Bool.true_or]

theorem actionRule_reads (tables : TranslationUnit) :
    Reads (actionRule tables) ActionText.write (fun text => .ok (text.meaning tables))
      (fun text rest => text.listed = none → nextIs opensOtherAction rest = false) := by
  refine Reads.ofTexts (by
      apply Reads.andThen (reads_keyword .synkTk)
      intro _
      apply Reads.andThen (Reads.token Token.isIdentifierToken)
      intro aux
      exact (Reads.optionalPart (otherActionRule_reads tables _) opensOtherAction_write
        none).returns (fun other => other.getD (⟨aux.image, .internal, []⟩, tables))
          (fun _ _ => rfl))
    (fun text => ((), text.name, text.listed)) ?_ ?_ ?_ ?_
  · rintro ⟨⟨⟩, name, listed⟩
    exact ⟨⟨name, listed⟩, rfl⟩
  · intro text
    rfl
  · rintro ⟨name, _ | listed⟩
    · rfl
    · rfl
  · rintro ⟨name, _ | listed⟩ rest
    · exact ⟨fun stops => stops rfl, fun closed _ => closed⟩
    · exact ⟨fun _ => trivial, fun _ impossible => nomatch impossible⟩

/-- One assignment. -/
structure AssignmentText where
  target : Identifier
  value : ExpressionText

namespace AssignmentText

def write (text : AssignmentText) : List Token :=
  text.target.1 :: .keyword .assignment :: text.value.write

/-- An assignment to a declared clock is one of the clock. -/
def meaning (tables : TranslationUnit) (text : AssignmentText) : AbstractExpression :=
  ⟨text.write, text.target.1.image ∈ tables.clocks⟩

end AssignmentText

theorem assignmentRule_reads (tables : TranslationUnit) (assignments : List AbstractExpression) :
    Reads (assignmentRule tables assignments) AssignmentText.write
      (fun text => .ok (assignments ++ [text.meaning tables]))
      (fun _ rest => nextIs Token.goesOn rest = false) := by
  refine Reads.ofTexts (by
      apply Reads.andThen (Reads.token Token.isIdentifierToken)
      intro target
      apply Reads.andThen (reads_keyword .assignment)
      intro aux
      exact (expressionRule_reads _).returns (fun expr => assignments ++ [expr]) (fun _ _ => rfl))
    (fun text => (text.target, (), text.value)) ?_ (fun _ => rfl) (fun _ => rfl)
    (fun _ _ => Iff.rfl)
  rintro ⟨target, ⟨⟩, value⟩
  exact ⟨⟨target, value⟩, rfl⟩

/-- One assignment, or some of them in braces. -/
inductive StatementText where
  | single (assignment : AssignmentText)
  | several (first : AssignmentText) (others : List AssignmentText)

namespace StatementText

def writeOthers (others : List AssignmentText) : List Token :=
  others.flatMap (fun other => .keyword .bar :: other.write)

/-- One assignment stands alone, several stand in braces. -/
def write : StatementText → List Token
  | single assignment => .keyword .doTk :: assignment.write
  | several first others => .keyword .doTk :: .keyword .openBrace ::
      (first.write ++ (writeOthers others ++ [.keyword .closeBrace]))

/-- The assignments of a statement in the order they are written. -/
def assignments : StatementText → List AssignmentText
  | single assignment => [assignment]
  | several first others => first :: others

/-- The expressions stored, with the clock mark of each read off the tables. -/
def meaning (tables : TranslationUnit) (text : StatementText) : List AbstractExpression :=
  text.assignments.map (fun assignment => assignment.meaning tables)

/-- A single assignment goes on as far as its expression does. -/
def stops : StatementText → List Token → Prop
  | single _, rest => nextIs Token.goesOn rest = false
  | several _ _, _ => True

end StatementText

theorem otherAssignment_reads (tables : TranslationUnit) (assignments : List AbstractExpression) :
    Reads (fun tokens => do
        let (_, tokens) ← consumeToken (Token.is .bar) tokens
        assignmentRule tables assignments tokens)
      (fun text : AssignmentText => .keyword .bar :: text.write)
      (fun text => .ok (assignments ++ [text.meaning tables]))
      (fun _ rest => nextIs Token.goesOn rest = false) := by
  refine Reads.ofTexts (by
      apply Reads.andThen (reads_keyword .bar)
      intro _
      exact assignmentRule_reads tables assignments)
    (fun text => ((), text)) ?_ (fun _ => rfl) (fun _ => rfl) (fun _ _ => Iff.rfl)
  rintro ⟨⟨⟩, text⟩
  exact ⟨text, rfl⟩

theorem foldl_append_map {T : Type} (meant : T → AbstractExpression) (texts : List T)
    (assignments : List AbstractExpression) :
    texts.foldl (fun assignments text => assignments ++ [meant text]) assignments =
      assignments ++ texts.map meant := by
  induction texts generalizing assignments with
  | nil => simp
  | cons text texts induction => simp [induction]

theorem assignmentSetRule_reads (tables : TranslationUnit) :
    Reads (assignmentSetRule tables [])
      (fun text : AssignmentText × List AssignmentText => .keyword .openBrace ::
        (text.1.write ++ (StatementText.writeOthers text.2 ++ [.keyword .closeBrace])))
      (fun text => .ok ((text.1 :: text.2).map (fun text => text.meaning tables)))
      (fun _ _ => True) := by
  refine Reads.ofTexts (by
      apply Reads.andThen (reads_keyword .openBrace)
      intro _
      apply Reads.bind (assignmentRule_reads tables [])
      · intro assignments
        apply Reads.bind (Reads.repeatAll (otherAssignment_reads tables) (fun _ _ => rfl)
          (fun _ _ => rfl) _)
        · intro assignments
          apply Reads.andThen (reads_keyword .closeBrace)
          intro _
          exact Reads.done _
        · exact fun _ _ _ _ => ⟨rfl, fun _ => rfl⟩
      · rintro first ⟨_ | ⟨other, others⟩, closing⟩ rest _
        · rfl
        · rfl)
    (fun text => ((), text.1, text.2, (), ())) ?_ (fun _ => rfl) ?_ (fun _ _ => Iff.rfl)
  · rintro ⟨⟨⟩, first, others, ⟨⟩, ⟨⟩⟩
    exact ⟨(first, others), rfl⟩
  · rintro ⟨first, others⟩
    have added := foldl_append_map (fun text : AssignmentText => text.meaning tables) others
      [first.meaning tables]
    exact congrArg Except.ok added.symm

/-- The parts of a statement behind its keyword. -/
def StatementText.parts :
    StatementText → Unit × (AssignmentText ⊕ (AssignmentText × List AssignmentText))
  | single assignment => ((), .inl assignment)
  | several first others => ((), .inr (first, others))

theorem statementRule_reads (tables : TranslationUnit) :
    Reads (statementRule tables) StatementText.write (fun text => .ok (text.meaning tables))
      StatementText.stops := by
  refine Reads.ofTexts (by
      apply Reads.andThen (reads_keyword .doTk)
      intro _
      exact Reads.choose (assignmentRule_reads tables [])
        ((assignmentSetRule_reads tables).guarded (fun _ _ => rfl))
        (fun text _ => text.target.2) (fun _ _ => rfl))
    StatementText.parts ?_ ?_ ?_ ?_
  · rintro ⟨⟨⟩, assignment | ⟨first, others⟩⟩
    · exact ⟨.single assignment, rfl⟩
    · exact ⟨.several first others, rfl⟩
  · rintro (assignment | ⟨first, others⟩)
    · rfl
    · rfl
  · rintro (assignment | ⟨first, others⟩)
    · rfl
    · rfl
  · rintro (assignment | ⟨first, others⟩) rest
    · exact Iff.rfl
    · exact Iff.rfl

def deadlineWord : Deadline → Keyword
  | .delayable => .delayableTk
  | .eager => .eagerTk
  | .lazy => .lazyTk

def writeDeadline (deadlineType : Deadline) : List Token :=
  [.keyword .deadlineTk, .keyword (deadlineWord deadlineType)]

theorem deadlineTypeRule_reads :
    Reads deadlineTypeRule (fun deadlineType => [.keyword (deadlineWord deadlineType)])
      (fun deadlineType => .ok deadlineType) (fun _ _ => True) := by
  constructor
  · intro deadlineType rest _
    cases deadlineType with
    | _ => rfl
  · intro tokens deadlineType rest returned
    rw [deadlineTypeRule.eq_def] at returned
    split at returned
    · cases returned
      exact ⟨.delayable, rfl, trivial⟩
    · cases returned
      exact ⟨.eager, rfl, trivial⟩
    · cases returned
      exact ⟨.lazy, rfl, trivial⟩
    · cases returned

theorem deadlineClause_reads :
    Reads deadlineClause writeDeadline (fun deadlineType => .ok deadlineType)
      (fun _ _ => True) := by
  refine Reads.ofTexts (by
      apply Reads.andThen (reads_keyword .deadlineTk)
      intro _
      exact deadlineTypeRule_reads)
    (fun deadlineType => ((), deadlineType)) ?_ (fun _ => rfl) (fun _ => rfl) (fun _ _ => Iff.rfl)
  rintro ⟨⟨⟩, deadlineType⟩
  exact ⟨deadlineType, rfl⟩

/-- The tokens begin with one of some keywords. -/
def Begins (words : List Keyword) (tokens : List Token) : Prop :=
  ∃ word ∈ words, ∃ rest, tokens = .keyword word :: rest

section Begins

variable {words : List Keyword} {tokens rest : List Token}

theorem begins_keyword (word : Keyword) (rest : List Token) :
    Begins [word] (.keyword word :: rest) :=
  ⟨word, List.mem_cons_self, rest, rfl⟩

theorem Begins.optional {T : Type} {write : T → List Token} {word : Keyword}
    (later : Begins words tokens) (starts : ∀ text, ∃ rest, write text = .keyword word :: rest)
    (text : Option T) : Begins (word :: words) (text.elim [] write ++ tokens) := by
  cases text with
  | none =>
      obtain ⟨found, member, rest, whole⟩ := later
      exact ⟨found, List.mem_cons_of_mem _ member, rest, whole⟩
  | some text =>
      obtain ⟨rest, whole⟩ := starts text
      refine ⟨word, List.mem_cons_self, rest ++ tokens, ?_⟩
      rw [Option.elim, whole, List.cons_append]

theorem Begins.nextIs_eq_false {expected : Token → Bool} (begins : Begins words tokens)
    (none : ∀ word ∈ words, expected (.keyword word) = false) : nextIs expected tokens = false := by
  obtain ⟨word, member, rest, rfl⟩ := begins
  exact none word member

theorem Begins.append (begins : Begins words tokens) (rest : List Token) :
    Begins words (tokens ++ rest) := by
  obtain ⟨word, member, others, rfl⟩ := begins
  exact ⟨word, member, others ++ rest, rfl⟩

/-- An optional text may stand in front of keywords that neither open it nor go on
with it. -/
theorem optionalStops_of_begins {T : Type} {opens : Token → Bool} {stops : T → List Token → Prop}
    (begins : Begins words tokens) (closed : ∀ word ∈ words, opens (.keyword word) = false)
    (stop : ∀ text, stops text tokens) (text : Option T) :
    optionalStops opens stops text tokens := by
  cases text with
  | none => exact begins.nextIs_eq_false closed
  | some text => exact stop text

end Begins

/-- What a transition may write. Only its two states cannot be left out. -/
structure TransitionText where
  source : Identifier
  clockGuard : Option ClockGuardText
  dataGuard : Option ExpressionText
  action : Option ActionText
  statement : Option StatementText
  deadline : Option Deadline
  destination : Identifier

def writeDestination (destination : Identifier) : List Token :=
  [.keyword .toTk, destination.1, .keyword .semicolon]

namespace TransitionText

/-- The tokens of a transition in the order of its clauses. -/
def write (text : TransitionText) : List Token :=
  .keyword .fromTk :: text.source.1 :: (text.clockGuard.elim [] ClockGuardText.write ++
    (text.dataGuard.elim [] writeDataGuard ++ (text.action.elim [] ActionText.write ++
      (text.statement.elim [] StatementText.write ++ (text.deadline.elim [] writeDeadline ++
        writeDestination text.destination)))))

/-- The tables behind the declaration. -/
def tables (tables : TranslationUnit) (text : TransitionText) : TranslationUnit :=
  text.action.elim tables (fun action => (action.meaning tables).2)

/-- A declaration without a data guard gets its clock guard in the place of one. -/
def transition (tables : TranslationUnit) (text : TransitionText) : AbstractTransition where
  source := text.source.1.image
  clockGuard := text.clockGuard.map ClockGuardText.meaning
  dataGuard := (text.dataGuard.map dataGuardMeaning).or (text.clockGuard.map ClockGuardText.meaning)
  action := text.action.map (fun action => (action.meaning tables).1)
  assignments := text.statement.map (fun statement => statement.meaning (text.tables tables))
  deadline := text.deadline
  destination := some text.destination.1.image

end TransitionText

theorem assembled (source : String) (clockExpr dataExpr : Option AbstractExpression)
    (act : Option AbstractAction) (assignments : Option (List AbstractExpression))
    (deadlineType : Option Deadline) (destination : String) :
    ((((((AbstractTransition.new source).setClockGuard clockExpr).setDataGuard dataExpr).setAction
      act).setAssignments assignments).setDeadline deadlineType).setDestination destination =
      ⟨source, clockExpr, dataExpr, act, assignments, deadlineType, some destination⟩ := by
  simp [AbstractTransition.new, AbstractTransition.setClockGuard, AbstractTransition.setDataGuard,
    AbstractTransition.setAction, AbstractTransition.setAssignments,
    AbstractTransition.setDeadline, AbstractTransition.setDestination]

theorem statement_starts (text : StatementText) :
    ∃ rest, text.write = .keyword .doTk :: rest := by
  cases text with
  | single assignment => exact ⟨_, rfl⟩
  | several first others => exact ⟨_, rfl⟩

theorem statement_opened (text : StatementText) (rest : List Token) :
    nextIs (Token.is .doTk) (text.write ++ rest) = true := by
  obtain ⟨body, whole⟩ := statement_starts text
  rw [whole]
  rfl

theorem StatementText.stops_of_closed {rest : List Token} (text : StatementText)
    (closed : nextIs Token.goesOn rest = false) : text.stops rest := by
  cases text with
  | single assignment => exact closed
  | several first others => trivial

theorem destination_begins (destination : Identifier) :
    Begins [.toTk] (writeDestination destination) := begins_keyword .toTk _

theorem deadline_starts (deadlineType : Deadline) :
    ∃ rest, writeDeadline deadlineType = .keyword .deadlineTk :: rest := ⟨_, rfl⟩

theorem action_starts (text : ActionText) : ∃ rest, text.write = .keyword .synkTk :: rest :=
  ⟨_, rfl⟩

theorem dataGuard_starts (text : ExpressionText) :
    ∃ rest, writeDataGuard text = .keyword .ifTk :: rest := ⟨_, rfl⟩

section Ends

variable (dataExpr : Option ExpressionText) (act : Option ActionText)
  (assignments : Option StatementText) (deadlineType : Option Deadline)
  (destination : Identifier)

theorem deadline_begins : Begins [.deadlineTk, .toTk]
    (deadlineType.elim [] writeDeadline ++ writeDestination destination) :=
  (destination_begins destination).optional deadline_starts deadlineType

theorem statement_begins : Begins [.doTk, .deadlineTk, .toTk]
    (assignments.elim [] StatementText.write ++
      (deadlineType.elim [] writeDeadline ++ writeDestination destination)) :=
  (deadline_begins deadlineType destination).optional statement_starts assignments

theorem action_begins : Begins [.synkTk, .doTk, .deadlineTk, .toTk]
    (act.elim [] ActionText.write ++ (assignments.elim [] StatementText.write ++
      (deadlineType.elim [] writeDeadline ++ writeDestination destination))) :=
  (statement_begins assignments deadlineType destination).optional action_starts act

theorem dataGuard_begins : Begins [.ifTk, .synkTk, .doTk, .deadlineTk, .toTk]
    (dataExpr.elim [] writeDataGuard ++ (act.elim [] ActionText.write ++
      (assignments.elim [] StatementText.write ++
        (deadlineType.elim [] writeDeadline ++ writeDestination destination)))) :=
  (action_begins act assignments deadlineType destination).optional dataGuard_starts dataExpr

end Ends

theorem transitionRule_reads (tables : TranslationUnit) :
    Reads (transitionRule tables) TransitionText.write
      (fun text => .ok (text.transition tables, text.tables tables)) (fun _ _ => True) := by
  refine Reads.ofTexts (by
      apply Reads.andThen (reads_keyword .fromTk)
      intro _
      apply Reads.andThen (Reads.token Token.isIdentifierToken)
      intro source
      apply Reads.bind (clockGuardRule_reads.optionalPart (fun _ _ => rfl) none)
      · intro clockExpr
        apply Reads.bind (dataGuardRule_reads.optionalPart (fun _ _ => rfl) clockExpr)
        · intro dataExpr
          apply Reads.bind ((actionRule_reads tables).optionalPart (fun _ _ => rfl) none)
          · intro act
            apply Reads.bind ((statementRule_reads _).optionalPart statement_opened none)
            · intro assignments
              apply Reads.bind (deadlineClause_reads.optionalPart (fun _ _ => rfl) none)
              · intro deadlineType
                apply Reads.andThen (reads_keyword .toTk)
                intro _
                apply Reads.andThen (Reads.token Token.isIdentifierToken)
                intro destination
                apply Reads.andThen (reads_keyword .semicolon)
                intro _
                exact Reads.done _
              · rintro text ⟨_, destination, _⟩ rest _
                exact optionalStops_of_begins ((destination_begins destination).append rest)
                  (by decide) (fun _ => trivial) text
            · rintro text ⟨deadlineType, _, destination, _⟩ rest _
              have begins := (deadline_begins deadlineType destination).append rest
              exact optionalStops_of_begins begins (by decide)
                (fun text => StatementText.stops_of_closed text
                  (begins.nextIs_eq_false (by decide))) text
          · rintro text ⟨assignments, deadlineType, _, destination, _⟩ rest _
            have begins := (statement_begins assignments deadlineType destination).append rest
            exact optionalStops_of_begins begins (by decide)
              (fun _ _ => begins.nextIs_eq_false (by decide)) text
        · rintro text ⟨act, assignments, deadlineType, _, destination, _⟩ rest _
          have begins := (action_begins act assignments deadlineType destination).append rest
          exact optionalStops_of_begins begins (by decide)
            (fun _ => begins.nextIs_eq_false (by decide)) text
      · rintro text ⟨dataExpr, act, assignments, deadlineType, _, destination, _⟩ rest _
        have begins :=
          (dataGuard_begins dataExpr act assignments deadlineType destination).append rest
        exact optionalStops_of_begins begins (by decide)
          (fun _ => begins.nextIs_eq_false (by decide)) text)
    (fun text => ((), text.source, text.clockGuard, text.dataGuard, text.action, text.statement,
      text.deadline, (), text.destination, (), ())) ?_ ?_ ?_ (fun _ _ => Iff.rfl)
  · rintro ⟨⟨⟩, source, clockGuard, dataGuard, action, statement, deadline, ⟨⟩, destination, ⟨⟩, ⟨⟩⟩
    exact ⟨⟨source, clockGuard, dataGuard, action, statement, deadline, destination⟩, rfl⟩
  · intro text
    rfl
  · rintro ⟨source, clockGuard, dataGuard, action, statement, deadline, destination⟩
    have timed : optionalMeaning (fun deadlineType : Deadline => .ok deadlineType) none deadline =
        .ok deadline := by
      cases deadline with
      | none => rfl
      | some deadlineType => rfl
    simp only [timed, optionalMeaning_ok, Option.or_none]
    cases action with
    | none => exact congrArg (fun trans => Except.ok (trans, _)) (assembled ..).symm
    | some action => exact congrArg (fun trans => Except.ok (trans, _)) (assembled ..).symm

end Symbolrt
