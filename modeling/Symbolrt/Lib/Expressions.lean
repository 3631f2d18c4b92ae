import Mathlib.Data.Int.Basic
import Mathlib.Tactic.Ring
import Symbolrt.Lib.Formula
import Symbolrt.Lib.Regrouping

/-!
# Arithmetic and Boolean expressions

The expressions of the solver, with its operators and their levels.  Values are numbers
or truth values; an operator takes a value of the other kind as the number, or the truth
value, that stands for it.  What division means is left to an interpretation.
-/

namespace Expression

/-- The operators between two expressions, from the loosest on. -/
inductive BinaryOperator where
  | equivalent | or | and | equal | different | less | atMost | greater | atLeast
  | plus | minus | times | divide | modulo
  deriving DecidableEq, Repr

/-- The operators in front of an expression. -/
inductive UnaryOperator where
  | not | plus | minus
  deriving DecidableEq, Repr

namespace BinaryOperator

def all : List BinaryOperator :=
  [equivalent, or, and, equal, different, less, atMost, greater, atLeast, plus, minus, times,
    divide, modulo]

theorem mem_all (operator : BinaryOperator) : operator ∈ all := by
  cases operator <;> decide

def text : BinaryOperator → String
  | equivalent => "<=>"
  | or => "OR"
  | and => "AND"
  | equal => "="
  | different => "<>"
  | less => "<"
  | atMost => "<="
  | greater => ">"
  | atLeast => ">="
  | plus => "+"
  | minus => "-"
  | times => "*"
  | divide => "/"
  | modulo => "%"

/-- How tightly the operator binds. -/
def level : BinaryOperator → Nat
  | equivalent => 0
  | or => 1
  | and => 2
  | equal | different => 4
  | less | atMost | greater | atLeast => 5
  | plus | minus => 6
  | times | divide | modulo => 7

/-- The operator a word stands for. -/
def ofText (text : String) : Option BinaryOperator :=
  all.find? (fun operator => operator.text = text)

theorem ofText_iff (symbol : String) (operator : BinaryOperator) :
    ofText symbol = some operator ↔ operator.text = symbol := by
  constructor
  · intro found
    simpa [ofText] using List.find?_some found
  · rintro rfl
    cases operator <;> decide

end BinaryOperator

namespace UnaryOperator

def all : List UnaryOperator := [not, plus, minus]

theorem mem_all (operator : UnaryOperator) : operator ∈ all := by
  cases operator <;> decide

def text : UnaryOperator → String
  | not => "NOT"
  | plus => "+"
  | minus => "-"

/-- Negation stands between conjunction and equality, the signs above everything. -/
def level : UnaryOperator → Nat
  | not => 3
  | plus | minus => 8

def ofText (text : String) : Option UnaryOperator :=
  all.find? (fun operator => operator.text = text)

theorem ofText_iff (symbol : String) (operator : UnaryOperator) :
    ofText symbol = some operator ↔ operator.text = symbol := by
  constructor
  · intro found
    simpa [ofText] using List.find?_some found
  · rintro rfl
    cases operator <;> decide

end UnaryOperator

/-- Expressions, with words at the leaves. -/
abbrev Tree : Type := Precedence.Tree BinaryOperator UnaryOperator String

abbrev Token : Type := Precedence.Token String String

/-- The symbols of the operators and their levels. -/
def grammar : Precedence.Grammar String BinaryOperator UnaryOperator where
  asBinary := BinaryOperator.ofText
  asUnary := UnaryOperator.ofText
  binarySymbol := BinaryOperator.text
  unarySymbol := UnaryOperator.text
  binaryLevel := BinaryOperator.level
  unaryLevel := UnaryOperator.level
  asBinary_iff := BinaryOperator.ofText_iff
  asUnary_iff := UnaryOperator.ofText_iff

/-- What an expression denotes. -/
inductive Value where
  | boolean : Bool → Value
  | number : Int → Value
  deriving DecidableEq, Repr

/-- A number counts as true unless it is zero. -/
def Value.truth : Value → Bool
  | boolean b => b
  | number n => n ≠ 0

/-- A truth value counts as zero or one. -/
def Value.amount : Value → Int
  | boolean b => if b then 1 else 0
  | number n => n

/-- What symbols stand for, and division. -/
structure Interpretation where
  symbol : String → Value
  quotient : Int → Int → Int
  remainder : Int → Int → Int

/-- The value of a word that does not depend on the interpretation. -/
def literal (word : String) : Option Value :=
  if word = "TRUE" then some (.boolean true)
  else if word = "FALSE" then some (.boolean false)
  else if word.toList.all Char.isDigit then some (.number (Nat.ofDigitChars 10 word.toList 0))
  else none

namespace Interpretation

variable (interpretation : Interpretation)

/-- The value of a word: that of the literal, or of the symbol. -/
def word (word : String) : Value := (literal word).getD (interpretation.symbol word)

def unary : UnaryOperator → Value → Value
  | .not, value => .boolean (!value.truth)
  | .plus, value => .number value.amount
  | .minus, value => .number (-value.amount)

def binary : BinaryOperator → Value → Value → Value
  | .equivalent, a, b => .boolean (a.truth == b.truth)
  | .or, a, b => .boolean (a.truth || b.truth)
  | .and, a, b => .boolean (a.truth && b.truth)
  | .equal, a, b => .boolean (a.amount = b.amount)
  | .different, a, b => .boolean (a.amount ≠ b.amount)
  | .less, a, b => .boolean (a.amount < b.amount)
  | .atMost, a, b => .boolean (a.amount ≤ b.amount)
  | .greater, a, b => .boolean (b.amount < a.amount)
  | .atLeast, a, b => .boolean (b.amount ≤ a.amount)
  | .plus, a, b => .number (a.amount + b.amount)
  | .minus, a, b => .number (a.amount - b.amount)
  | .times, a, b => .number (a.amount * b.amount)
  | .divide, a, b => .number (interpretation.quotient a.amount b.amount)
  | .modulo, a, b => .number (interpretation.remainder a.amount b.amount)

/-- The operators and words at their values. -/
def meaning : Precedence.Meaning BinaryOperator UnaryOperator String Value where
  word := interpretation.word
  unary := unary
  binary := interpretation.binary

end Interpretation

/-- The operators that may change places under every interpretation. -/
def exchange : Precedence.Exchange BinaryOperator UnaryOperator where
  binary
    | .equivalent, .equivalent => true
    | .or, .or => true
    | .and, .and => true
    | .plus, .plus => true
    | .plus, .minus => true
    | .times, .times => true
    | _, _ => false
  unary
    | .not, .equivalent => true
    | .plus, .plus => true
    | .plus, .minus => true
    | .plus, .times => true
    | .plus, .divide => true
    | .plus, .modulo => true
    | .minus, .times => true
    | _, _ => false

theorem equivalent_assoc (a b c : Bool) : (a == (b == c)) = ((a == b) == c) := by
  cases a <;> cases b <;> cases c <;> rfl

theorem not_equivalent (b c : Bool) : (!(b == c)) = ((!b) == c) := by
  cases b <;> cases c <;> rfl

theorem exchange_sound (interpretation : Interpretation) :
    exchange.Sound interpretation.meaning := by
  constructor
  · intro operator other exchanged a b c
    cases operator <;> cases other <;> cases exchanged
    · exact congrArg Value.boolean (equivalent_assoc _ _ _)
    · exact congrArg Value.boolean (Bool.or_assoc _ _ _).symm
    · exact congrArg Value.boolean (Bool.and_assoc _ _ _).symm
    · exact congrArg Value.number (Int.add_assoc _ _ _).symm
    · exact congrArg Value.number (Int.add_sub_assoc _ _ _).symm
    · exact congrArg Value.number (Int.mul_assoc _ _ _).symm
  · intro operator other exchanged b c
    cases operator <;> cases other <;> cases exchanged
    · exact congrArg Value.boolean (not_equivalent _ _)
    · rfl
    · rfl
    · rfl
    · rfl
    · rfl
    · exact congrArg Value.number (Int.neg_mul _ _).symm

section Samples

/-- An interpretation under which the operators tell their operands apart. -/
def sample : Interpretation where
  symbol _ := .number 0
  quotient a b := 2 * a - b
  remainder a b := 3 * a - b

/-- Enough values to see a difference at. -/
def sampleValues : List Value := [.number 0, .number 1, .number 2, .number 3, .boolean true]

/-- Some of the sample values tell the two functions apart. -/
def differs (left right : Value → Value → Value → Value) : Bool :=
  sampleValues.any fun a => sampleValues.any fun b => sampleValues.any fun c =>
    left a b c ≠ right a b c

theorem exists_of_differs {left right : Value → Value → Value → Value}
    (isDifferent : differs left right = true) : ∃ a b c, left a b c ≠ right a b c := by
  obtain ⟨a, _, isDifferent⟩ := List.any_eq_true.mp isDifferent
  obtain ⟨b, _, isDifferent⟩ := List.any_eq_true.mp isDifferent
  obtain ⟨c, _, isDifferent⟩ := List.any_eq_true.mp isDifferent
  exact ⟨a, b, c, of_decide_eq_true isDifferent⟩

theorem binary_differs : ∀ operator ∈ BinaryOperator.all, ∀ other ∈ BinaryOperator.all,
    other.level ≤ operator.level → exchange.binary operator other = false →
      differs (fun a b c => sample.binary operator a (sample.binary other b c))
        (fun a b c => sample.binary other (sample.binary operator a b) c) = true := by
  decide +kernel

theorem unary_differs : ∀ operator ∈ UnaryOperator.all, ∀ other ∈ BinaryOperator.all,
    other.level ≤ operator.level → exchange.unary operator other = false →
      differs (fun _ b c => Interpretation.unary operator (sample.binary other b c))
        (fun _ b c => sample.binary other (Interpretation.unary operator b) c) = true := by
  decide +kernel

theorem binary_left_differs : ∀ operator ∈ BinaryOperator.all, ∀ other ∈ BinaryOperator.all,
    other.level < operator.level →
      differs (fun a b c => sample.binary operator (sample.binary other a b) c)
        (fun a b c => sample.binary other a (sample.binary operator b c)) = true := by
  decide +kernel

theorem unary_left_differs : ∀ operator ∈ BinaryOperator.all, ∀ other ∈ UnaryOperator.all,
    other.level < operator.level →
      differs (fun _ b c => sample.binary operator (Interpretation.unary other b) c)
        (fun _ b c => Interpretation.unary other (sample.binary operator b c)) = true := by
  decide +kernel

/-- Operators that may not change places mean something else when they are regrouped. -/
structure RegroupingDiffers : Prop where
  binary : ∀ operator other : BinaryOperator, other.level ≤ operator.level →
    exchange.binary operator other = false →
      ∃ (interpretation : Interpretation) (a b c : Value),
        interpretation.binary operator a (interpretation.binary other b c) ≠
          interpretation.binary other (interpretation.binary operator a b) c
  unary : ∀ (operator : UnaryOperator) (other : BinaryOperator), other.level ≤ operator.level →
    exchange.unary operator other = false →
      ∃ (interpretation : Interpretation) (b c : Value),
        Interpretation.unary operator (interpretation.binary other b c) ≠
          interpretation.binary other (Interpretation.unary operator b) c
  binaryLeft : ∀ operator other : BinaryOperator, other.level < operator.level →
    ∃ (interpretation : Interpretation) (a b c : Value),
      interpretation.binary operator (interpretation.binary other a b) c ≠
        interpretation.binary other a (interpretation.binary operator b c)
  unaryLeft : ∀ (operator : BinaryOperator) (other : UnaryOperator),
    other.level < operator.level →
      ∃ (interpretation : Interpretation) (b c : Value),
        interpretation.binary operator (Interpretation.unary other b) c ≠
          Interpretation.unary other (interpretation.binary operator b c)

theorem regroupingDiffers : RegroupingDiffers where
  binary operator other below kept :=
    ⟨sample, exists_of_differs (binary_differs operator operator.mem_all other other.mem_all
      below kept)⟩
  unary operator other below kept := by
    obtain ⟨_, b, c, different⟩ := exists_of_differs (unary_differs operator operator.mem_all
      other other.mem_all below kept)
    exact ⟨sample, b, c, different⟩
  binaryLeft operator other below :=
    ⟨sample, exists_of_differs (binary_left_differs operator operator.mem_all other
      other.mem_all below)⟩
  unaryLeft operator other below := by
    obtain ⟨_, b, c, different⟩ := exists_of_differs (unary_left_differs operator
      operator.mem_all other other.mem_all below)
    exact ⟨sample, b, c, different⟩

end Samples

/-- The characters that operators are made of. -/
def operatorChars : List Char := ['+', '-', '*', '/', '%', '<', '=', '>']

/-- The token of a word: an operator, a parenthesis or a name without such characters. -/
def tokenOf (text : String) : Option Token :=
  if text = "(" then some .opening
  else if text = ")" then some .closing
  else if (BinaryOperator.ofText text).isSome ∨ (UnaryOperator.ofText text).isSome then
    some (.symbol text)
  else if text.toList.any operatorChars.contains then none
  else some (.word text)

/-- The tokens of a text, if each of its words is one. -/
def lex (text : String) : Option (List Token) := (Formula.tokens text).mapM tokenOf

/-- The tree that a text is read as. -/
def read (text : String) : Option Tree := (lex text).bind (Precedence.read grammar)

/-- The value of a text. -/
def value (interpretation : Interpretation) (text : String) : Option Value :=
  (read text).map interpretation.meaning.value

/-- A text that holds as a condition. -/
def Holds (interpretation : Interpretation) (text : String) : Prop :=
  ∃ result, value interpretation text = some result ∧ result.truth = true

theorem holds_iff_truth {interpretation : Interpretation} {text : String} :
    Holds interpretation text ↔ (value interpretation text).map Value.truth = some true := by
  rw [Option.map_eq_some_iff]
  rfl

instance (interpretation : Interpretation) (text : String) :
    Decidable (Holds interpretation text) := decidable_of_iff _ holds_iff_truth.symm

example : value sample "2 * 3 + 1 * (4 - 2)" = some (.number 8) := by decide

end Expression
