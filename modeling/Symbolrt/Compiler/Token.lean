import Symbolrt.Base.ClockGuard

/-!
# Tokens and abstract expressions

The tokens the parser reads, and the sequences of tokens that stand for the
guards and assignments of a transition until the model is built.
-/

namespace Symbolrt

/-- The tokens whose image is fixed by the grammar. -/
inductive Keyword where
  | systemTk
  | constTk
  | clocksTk
  | gateTk
  | intTk
  | boolTk
  | moreThenTk
  | moreThenEqualsTk
  | equalsTk
  | lessThenTk
  | lessThenEqualsTk
  | diffTk
  | equivTk
  | minusTk
  | notTk
  | andTk
  | plusTk
  | multTk
  | orTk
  | modTk
  | divTk
  | trueTk
  | falseTk
  | processTk
  | inputActTk
  | outputActTk
  | internalActTk
  | variablesTk
  | stateTk
  | transitionTk
  | initStateTk
  | fromTk
  | deadlineTk
  | toTk
  | whenTk
  | ifTk
  | synkTk
  | inActTk
  | outActTk
  | delayableTk
  | eagerTk
  | lazyTk
  | doTk
  | closeParTk
  | openParTk
  | assignment
  | semicolon
  | comma
  | colon
  | openBrace
  | bar
  | closeBrace
  deriving DecidableEq, Repr

namespace Keyword

/-- The text of a word, symbols included. -/
def image : Keyword → String
  | systemTk => "system"
  | constTk => "const"
  | clocksTk => "clocks"
  | gateTk => "gate"
  | intTk => "int"
  | boolTk => "bool"
  | moreThenTk => ">"
  | moreThenEqualsTk => ">="
  | equalsTk => "="
  | lessThenTk => "<"
  | lessThenEqualsTk => "<="
  | diffTk => "<>"
  | equivTk => "<=>"
  | minusTk => "-"
  | notTk => "NOT"
  | andTk => "AND"
  | plusTk => "+"
  | multTk => "*"
  | orTk => "OR"
  | modTk => "%"
  | divTk => "/"
  | trueTk => "TRUE"
  | falseTk => "FALSE"
  | processTk => "process"
  | inputActTk => "input"
  | outputActTk => "output"
  | internalActTk => "internal"
  | variablesTk => "variables"
  | stateTk => "state"
  | transitionTk => "transition"
  | initStateTk => "init"
  | fromTk => "from"
  | deadlineTk => "deadline"
  | toTk => "to"
  | whenTk => "when"
  | ifTk => "if"
  | synkTk => "sync"
  | inActTk => "?"
  | outActTk => "!"
  | delayableTk => "delayable"
  | eagerTk => "eager"
  | lazyTk => "lazy"
  | doTk => "do"
  | closeParTk => ")"
  | openParTk => "("
  | assignment => ":="
  | semicolon => ";"
  | comma => ","
  | colon => ":"
  | openBrace => "\x7b"
  | bar => "|"
  | closeBrace => "\x7d"

/-- The keywords an identifier could be spelled like. -/
def reserved : List Keyword :=
  [systemTk, constTk, clocksTk, gateTk, intTk, boolTk, notTk, andTk, orTk, trueTk, falseTk,
    processTk, inputActTk, outputActTk, internalActTk, variablesTk, stateTk, transitionTk,
    initStateTk, fromTk, deadlineTk, toTk, whenTk, ifTk, synkTk, delayableTk, eagerTk, lazyTk,
    doTk]

/-- The operators a clock guard may use. -/
def isClockOperator : Keyword → Bool
  | moreThenTk | moreThenEqualsTk | equalsTk | lessThenTk | lessThenEqualsTk => true
  | _ => false

/-- Expressions may use `<>` as well. -/
def isRelationalOperator (keyword : Keyword) : Bool :=
  keyword == diffTk || keyword.isClockOperator

def isBinaryOperator : Keyword → Bool
  | multTk | modTk | divTk | equivTk | andTk | orTk => true
  | _ => false

def isUnaryOperator : Keyword → Bool
  | plusTk | minusTk | notTk => true
  | _ => false

/-- The constants that are keywords; the third kind are the integers. -/
def isTruthConstant : Keyword → Bool
  | trueTk | falseTk => true
  | _ => false

/-- The keywords that stand inside an expression or a clock guard. -/
def isExpressionKeyword (keyword : Keyword) : Bool :=
  keyword.isRelationalOperator || keyword.isBinaryOperator || keyword.isUnaryOperator ||
    keyword.isTruthConstant || keyword == openParTk || keyword == closeParTk

/-- The keywords that open a part of a transition declaration after its source
location. -/
def opensClause : Keyword → Bool
  | whenTk | ifTk | synkTk | doTk | deadlineTk | toTk => true
  | _ => false

theorem opensClause_of_isExpressionKeyword {keyword : Keyword}
    (inside : keyword.isExpressionKeyword = true) : keyword.opensClause = false := by
  cases keyword with
  | whenTk | ifTk | synkTk | doTk | deadlineTk | toTk => cases inside
  | _ => rfl

end Keyword

/-- A letter or underscore followed by letters, digits and underscores, and not
spelled like a keyword. -/
def isIdentifier (text : String) : Bool :=
  isName text && !(text.toList.head?.any Char.isDigit) &&
    !(Keyword.reserved.any (fun keyword => keyword.image == text))

theorem isIdentifier_x : isIdentifier "x" = true := by decide

theorem isIdentifier_y : isIdentifier "y" = true := by decide

/-- A token carries the proof that its text has the shape of its kind. -/
inductive Token where
  | keyword (keyword : Keyword)
  | identifier (name : String) (isIdentifier : isIdentifier name = true)
  | integer (numeral : String) (isNumeral : isNumeral numeral = true)

namespace Token

theorem keyword_eq_iff {word other : Keyword} : keyword word = keyword other ↔ word = other := by
  rw [keyword.injEq]

theorem identifier_eq_iff {name other : String} {isIdentifier otherIsIdentifier} :
    identifier name isIdentifier = identifier other otherIsIdentifier ↔ name = other := by
  rw [identifier.injEq]

theorem integer_eq_iff {numeral other : String} {isNumeral otherIsNumeral} :
    integer numeral isNumeral = integer other otherIsNumeral ↔ numeral = other := by
  rw [integer.injEq]

instance : DecidableEq Token
  | keyword _, keyword _ => decidable_of_iff _ keyword_eq_iff.symm
  | identifier _ _, identifier _ _ => decidable_of_iff _ identifier_eq_iff.symm
  | integer _ _, integer _ _ => decidable_of_iff _ integer_eq_iff.symm
  | keyword _, identifier _ _ => isFalse Token.noConfusion
  | keyword _, integer _ _ => isFalse Token.noConfusion
  | identifier _ _, keyword _ => isFalse Token.noConfusion
  | identifier _ _, integer _ _ => isFalse Token.noConfusion
  | integer _ _, keyword _ => isFalse Token.noConfusion
  | integer _ _, identifier _ _ => isFalse Token.noConfusion

def image : Token → String
  | keyword word => word.image
  | identifier name _ => name
  | integer numeral _ => numeral

/-- The tokens of expressions and clock guards. -/
def isExpressionToken : Token → Bool
  | keyword word => word.isExpressionKeyword
  | _ => true

/-- The token begins a clause of a transition, or its destination. -/
def opensClause : Token → Bool
  | keyword word => word.opensClause
  | _ => false

theorem opensClause_of_isExpressionToken {token : Token}
    (inside : token.isExpressionToken = true) : token.opensClause = false := by
  cases token with
  | keyword word => exact Keyword.opensClause_of_isExpressionKeyword inside
  | identifier name isIdentifier => rfl
  | integer numeral isNumeral => rfl

end Token

/-- An expression as the list of its tokens, with the mark of an assignment to a clock. -/
structure AbstractExpression where
  expression : List Token
  isClockAssignment : Bool
  deriving DecidableEq

namespace AbstractExpression

def new : AbstractExpression := ⟨[], false⟩

def addElement (element : Token) (expr : AbstractExpression) : AbstractExpression :=
  { expr with expression := expr.expression ++ [element] }

/-- One round of the loop that prints an expression. -/
def appendElement (str : String) (element : Token) : String :=
  if element.image = "(" then
    str ++ element.image
  else if element.image = ")" then
    Text.trim str ++ element.image ++ " "
  else
    str ++ (element.image ++ " ")

/-- The text of the tokens one after the other, without the blanks around it. -/
def toString (expr : AbstractExpression) : String :=
  Text.trim (expr.expression.foldl appendElement "")

end AbstractExpression

end Symbolrt
