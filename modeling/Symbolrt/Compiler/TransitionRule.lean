import Mathlib.Data.List.AList
import Symbolrt.Compiler.Token
import Symbolrt.Lib.Reading

/-!
# The rule of a transition declaration

The productions of the parser from a transition declaration down to its
expressions.  Every rule returns what it read and the tokens it left; the
recursion of the expression rules is bounded by the length of the input.
-/

namespace Symbolrt

open Reading

/-- An action as a transition writes it, before the builder looks its gate up. -/
structure AbstractAction where
  identifier : String
  type : ActionType
  parameters : List String
  deriving DecidableEq

def AbstractAction.setType (type : ActionType) (act : AbstractAction) : AbstractAction :=
  { act with type := type }

/-- A parameter the action already lists is not added again. -/
def AbstractAction.addParameter (parameter : String) (act : AbstractAction) : AbstractAction :=
  if parameter ∈ act.parameters then act
  else { act with parameters := act.parameters ++ [parameter] }

/-- A transition as the grammar reads it. What the text may leave out is optional, and so
is the destination, which is read last. -/
structure AbstractTransition where
  source : String
  clockGuard : Option AbstractExpression
  dataGuard : Option AbstractExpression
  action : Option AbstractAction
  assignments : Option (List AbstractExpression)
  deadline : Option Deadline
  destination : Option String
  deriving DecidableEq

namespace AbstractTransition

/-- The transition before any of its clauses is read. -/
def new (source : String) : AbstractTransition := ⟨source, none, none, none, none, none, none⟩

/-- Here and in the setters below a null argument leaves the field as it is. -/
def setClockGuard (expr : Option AbstractExpression) (trans : AbstractTransition) :
    AbstractTransition :=
  { trans with clockGuard := expr.or trans.clockGuard }

def setDataGuard (expr : Option AbstractExpression) (trans : AbstractTransition) :
    AbstractTransition :=
  { trans with dataGuard := expr.or trans.dataGuard }

def setAction (act : Option AbstractAction) (trans : AbstractTransition) :
    AbstractTransition :=
  { trans with action := act.or trans.action }

def setAssignments (assignments : Option (List AbstractExpression))
    (trans : AbstractTransition) : AbstractTransition :=
  { trans with assignments := assignments.or trans.assignments }

def setDeadline (deadlineType : Option Deadline) (trans : AbstractTransition) :
    AbstractTransition :=
  { trans with deadline := deadlineType.or trans.deadline }

def setDestination (destination : String) (trans : AbstractTransition) : AbstractTransition :=
  { trans with destination := some destination }

/-- The stored assignments without those to clocks. -/
def getDataAssignments (trans : AbstractTransition) : Option (List AbstractExpression) :=
  trans.assignments.map (List.filter (fun expr => !expr.isClockAssignment))

/-- Unlike the data assignments, no clock assignments are never an empty set. -/
def getClockAssignments (trans : AbstractTransition) : Option (List AbstractExpression) :=
  trans.assignments.bind (fun assignments =>
    match assignments.filter AbstractExpression.isClockAssignment with
    | [] => none
    | clockAssignments => some clockAssignments)

end AbstractTransition

/-- The tables the parser fills while it reads. -/
structure TranslationUnit where
  clocks : List String
  typeTable : AList (fun _ : String => List DataType)
  paramTable : AList (fun _ : String => List String)

namespace Token

/-- The token is the given word of the language. -/
def is (word : Keyword) : Token → Bool
  | keyword other => other == word
  | _ => false

def isIdentifierToken : Token → Bool
  | identifier _ _ => true
  | _ => false

def isIntegerToken : Token → Bool
  | integer _ _ => true
  | _ => false

/-- The token is a word of the given kind. -/
def isKeyword (kind : Keyword → Bool) : Token → Bool
  | keyword word => kind word
  | _ => false

/-- What the grammar accepts as a value: an integer, `true` or `false`. -/
def isConstant (token : Token) : Bool :=
  token.isIntegerToken || token.isKeyword Keyword.isTruthConstant

end Token

/-- The mutually recursive rules of the expression grammar. -/
inductive ExpressionRule where
  | expressionRule
  | otherExpressionRule
  | termRule
  | otherTermRule
  | factorRule
  deriving DecidableEq, Repr

namespace ExpressionRule

/-- The expression rules, each adding the tokens it reads to the expression it is
given. -/
def run : Nat → ExpressionRule → AbstractExpression → List Token →
    Except ReadFailure (AbstractExpression × List Token)
  | 0, _, _, _ => .error .depthExceeded
  | fuel + 1, .expressionRule, expr, tokens => do
      let (expr, tokens) ← run fuel .termRule expr tokens
      run fuel .otherExpressionRule expr tokens
  | fuel + 1, .otherExpressionRule, expr, tokens =>
      match tokens with
      | aux :: rest =>
          if aux.is .plusTk || aux.is .minusTk then do
            let (expr, tokens) ← run fuel .termRule (expr.addElement aux) rest
            run fuel .otherExpressionRule expr tokens
          else
            return (expr, tokens)
      | [] => return (expr, tokens)
  | fuel + 1, .termRule, expr, tokens => do
      let (expr, tokens) ← run fuel .factorRule expr tokens
      run fuel .otherTermRule expr tokens
  | fuel + 1, .otherTermRule, expr, tokens =>
      match tokens with
      | aux :: rest =>
          if aux.isKeyword Keyword.isRelationalOperator then do
            let (expr, tokens) ← run fuel .termRule (expr.addElement aux) rest
            run fuel .otherExpressionRule expr tokens
          else if aux.isKeyword Keyword.isUnaryOperator || aux.isConstant ||
              aux.is .openParTk || aux.isIdentifierToken then do
            let (expr, tokens) ← run fuel .factorRule expr tokens
            run fuel .otherTermRule expr tokens
          else if aux.isKeyword Keyword.isBinaryOperator then do
            let (expr, tokens) ← run fuel .factorRule (expr.addElement aux) rest
            run fuel .otherTermRule expr tokens
          else
            return (expr, tokens)
      | [] => return (expr, tokens)
  | fuel + 1, .factorRule, expr, tokens =>
      match tokens with
      | aux :: rest =>
          if aux.isIdentifierToken || aux.isConstant then
            return (expr.addElement aux, rest)
          else if aux.isKeyword Keyword.isUnaryOperator then
            run fuel .expressionRule (expr.addElement aux) rest
          else if aux.is .openParTk then do
            let (expr, tokens) ← run fuel .expressionRule (expr.addElement aux) rest
            let (aux, tokens) ← consumeToken (Token.is .closeParTk) tokens
            return (expr.addElement aux, tokens)
          else
            .error .parseException
      | [] => .error .parseException

/-- Recursion depth that suffices for every rule. -/
def depth (tokens : List Token) : Nat := 4 * tokens.length + 4

end ExpressionRule

/-- The entry of the expression grammar, with as many calls as the tokens can need. -/
def expressionRule (expr : AbstractExpression) (tokens : List Token) :
    Except ReadFailure (AbstractExpression × List Token) :=
  ExpressionRule.run (ExpressionRule.depth tokens) .expressionRule expr tokens

def clockOperatorRule : List Token → Except ReadFailure (Token × List Token) :=
  consumeToken (Token.isKeyword Keyword.isClockOperator)

/-- A comparison of a clock with a constant, read the same way at the start of a
clock guard and after each conjunction. -/
def clockComparison (expr : AbstractExpression) (tokens : List Token) :
    Except ReadFailure (AbstractExpression × List Token) := do
  let (clockTk, tokens) ← consumeToken Token.isIdentifierToken tokens
  let (opTk, tokens) ← clockOperatorRule tokens
  let (timeTk, tokens) ← consumeToken Token.isIntegerToken tokens
  return (((expr.addElement clockTk).addElement opTk).addElement timeTk, tokens)

/-- `when`, a comparison of a clock, and further ones after `and`, all in one element
list. -/
def clockGuardRule (tokens : List Token) :
    Except ReadFailure (AbstractExpression × List Token) := do
  let (_, tokens) ← consumeToken (Token.is .whenTk) tokens
  let (expr, tokens) ← clockComparison AbstractExpression.new tokens
  repeatWhile (Token.is .andTk)
    (fun expr tokens => do
      let (aux, tokens) ← consumeToken (Token.is .andTk) tokens
      clockComparison (expr.addElement aux) tokens)
    (tokens.length + 1) expr tokens

/-- `if` and an expression. -/
def dataGuardRule (tokens : List Token) :
    Except ReadFailure (AbstractExpression × List Token) := do
  let (_, tokens) ← consumeToken (Token.is .ifTk) tokens
  expressionRule AbstractExpression.new tokens

/-- The parameter table gets the parameters of the action if its gate is
declared; the errors reported on the console are left out. -/
def TranslationUnit.enterParameters (act : AbstractAction) (translationUnit : TranslationUnit) :
    TranslationUnit :=
  if act.identifier ∈ translationUnit.typeTable then
    { translationUnit with
      paramTable := translationUnit.paramTable.insert act.identifier act.parameters }
  else
    translationUnit

/-- `input` or `output` in front of the parameter list. -/
def isActionDirection (token : Token) : Bool := token.is .inActTk || token.is .outActTk

/-- The part of an action after its gate: a direction, if written, and the parameters,
each entered in the table of the unit. -/
def otherActionRule (translationUnit : TranslationUnit) (act : AbstractAction)
    (tokens : List Token) :
    Except ReadFailure ((AbstractAction × TranslationUnit) × List Token) := do
  let (direction, tokens) ← optionalPart isActionDirection (consumeToken isActionDirection) none
    tokens
  let act := match direction with
    | some token => act.setType (if token.is .inActTk then .input else .output)
    | none => act
  let (_, tokens) ← consumeToken (Token.is .openParTk) tokens
  let (parameters, tokens) ← optionalPart Token.isIdentifierToken
    (fun tokens => do
      let (aux, tokens) ← consumeToken Token.isIdentifierToken tokens
      repeatWhile (Token.is .comma)
        (fun act tokens => do
          let (_, tokens) ← consumeToken (Token.is .comma) tokens
          let (aux, tokens) ← consumeToken Token.isIdentifierToken tokens
          return (act.addParameter aux.image, tokens))
        (tokens.length + 1) (act.addParameter aux.image) tokens)
    none tokens
  let act := parameters.getD act
  let translationUnit := translationUnit.enterParameters act
  let (_, tokens) ← consumeToken (Token.is .closeParTk) tokens
  return ((act, translationUnit), tokens)

/-- The token opens the optional part of an action. -/
def opensOtherAction (token : Token) : Bool :=
  isActionDirection token || token.is .openParTk

/-- `sync`, the gate and what may follow it. An action without direction is internal. -/
def actionRule (translationUnit : TranslationUnit) (tokens : List Token) :
    Except ReadFailure ((AbstractAction × TranslationUnit) × List Token) := do
  let (_, tokens) ← consumeToken (Token.is .synkTk) tokens
  let (aux, tokens) ← consumeToken Token.isIdentifierToken tokens
  let act : AbstractAction := ⟨aux.image, .internal, []⟩
  let (other, tokens) ← optionalPart opensOtherAction (otherActionRule translationUnit act) none
    tokens
  return (other.getD (act, translationUnit), tokens)

/-- `target := expression`, added to the assignments read so far. It counts as a clock
assignment when its target is a declared clock. -/
def assignmentRule (translationUnit : TranslationUnit) (assignments : List AbstractExpression)
    (tokens : List Token) : Except ReadFailure (List AbstractExpression × List Token) := do
  let (target, tokens) ← consumeToken Token.isIdentifierToken tokens
  let expr : AbstractExpression := ⟨[], target.image ∈ translationUnit.clocks⟩
  let (aux, tokens) ← consumeToken (Token.is .assignment) tokens
  let (expr, tokens) ← expressionRule ((expr.addElement target).addElement aux) tokens
  return (assignments ++ [expr], tokens)

/-- Assignments in braces, separated by bars. -/
def assignmentSetRule (translationUnit : TranslationUnit)
    (assignments : List AbstractExpression) (tokens : List Token) :
    Except ReadFailure (List AbstractExpression × List Token) := do
  let (_, tokens) ← consumeToken (Token.is .openBrace) tokens
  let (assignments, tokens) ← assignmentRule translationUnit assignments tokens
  let (assignments, tokens) ← repeatWhile (Token.is .bar)
    (fun assignments tokens => do
      let (_, tokens) ← consumeToken (Token.is .bar) tokens
      assignmentRule translationUnit assignments tokens)
    (tokens.length + 1) assignments tokens
  let (_, tokens) ← consumeToken (Token.is .closeBrace) tokens
  return (assignments, tokens)

/-- `do` and one assignment or a set of them. -/
def statementRule (translationUnit : TranslationUnit) (tokens : List Token) :
    Except ReadFailure (List AbstractExpression × List Token) := do
  let (_, tokens) ← consumeToken (Token.is .doTk) tokens
  if nextIs Token.isIdentifierToken tokens then
    assignmentRule translationUnit [] tokens
  else if nextIs (Token.is .openBrace) tokens then
    assignmentSetRule translationUnit [] tokens
  else
    .error .parseException

def deadlineTypeRule : List Token → Except ReadFailure (Deadline × List Token)
  | .keyword .delayableTk :: rest => .ok (.delayable, rest)
  | .keyword .eagerTk :: rest => .ok (.eager, rest)
  | .keyword .lazyTk :: rest => .ok (.lazy, rest)
  | _ => .error .parseException

/-- `deadline` and the word for it. -/
def deadlineClause (tokens : List Token) : Except ReadFailure (Deadline × List Token) := do
  let (_, tokens) ← consumeToken (Token.is .deadlineTk) tokens
  deadlineTypeRule tokens

/-- A whole transition, clause by clause in the order of the grammar. -/
def transitionRule (translationUnit : TranslationUnit) (tokens : List Token) :
    Except ReadFailure ((AbstractTransition × TranslationUnit) × List Token) := do
  let (_, tokens) ← consumeToken (Token.is .fromTk) tokens
  let (source, tokens) ← consumeToken Token.isIdentifierToken tokens
  let trans := AbstractTransition.new source.image
  -- one local variable serves both guards
  let (expr, tokens) ← optionalPart (Token.is .whenTk) clockGuardRule none tokens
  let trans := trans.setClockGuard expr
  let (expr, tokens) ← optionalPart (Token.is .ifTk) dataGuardRule expr tokens
  let trans := trans.setDataGuard expr
  let (act, tokens) ← optionalPart (Token.is .synkTk) (actionRule translationUnit) none tokens
  let trans := trans.setAction (act.map Prod.fst)
  let translationUnit := (act.map Prod.snd).getD translationUnit
  let (assignments, tokens) ← optionalPart (Token.is .doTk) (statementRule translationUnit) none
    tokens
  let trans := trans.setAssignments assignments
  let (deadlineType, tokens) ← optionalPart (Token.is .deadlineTk) deadlineClause none tokens
  let trans := trans.setDeadline deadlineType
  let (_, tokens) ← consumeToken (Token.is .toTk) tokens
  let (destination, tokens) ← consumeToken Token.isIdentifierToken tokens
  let (_, tokens) ← consumeToken (Token.is .semicolon) tokens
  return ((trans.setDestination destination.image, translationUnit), tokens)

end Symbolrt
