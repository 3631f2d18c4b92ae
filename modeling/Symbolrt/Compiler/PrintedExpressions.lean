import Symbolrt.Compiler.RecordedTokens
import Symbolrt.Lib.Layout
import Symbolrt.SymbolicExecution.ExpressionUpdates

/-!
# Printed expressions

An expression is printed as its tokens on one line.  The execution takes the line apart at
its own delimiters, which do not list every operator, but what it exchanges are the
identifiers that have a symbolic value and nothing else.
-/

namespace Symbolrt

open Layout

namespace Token

theorem image_isSolid (token : Token) : IsSolid token.image.toList := by
  cases token with
  | keyword word =>
      apply IsSolid.of_all
      · cases word <;> decide
      · cases word <;> decide
  | identifier name isIdentifier =>
      have isName : isName name = true := by
        simp only [Symbolrt.isIdentifier, Bool.and_eq_true] at isIdentifier
        exact isIdentifier.1.1
      obtain ⟨nonempty, chars⟩ := isName_chars isName
      exact IsSolid.of_all nonempty (fun c member => isNameChar_notBlank (chars c member))
  | integer numeral isNumeral =>
      obtain ⟨nonempty, digits⟩ := isNumeral_chars isNumeral
      apply IsSolid.of_all nonempty
      exact fun c member => isNameChar_notBlank (isDigit_isNameChar (digits c member))

/-- Tokens are told apart from parentheses by their images. -/
def style : Style Token where
  image token := token.image.toList
  opens token := token.image == "("
  closes token := token.image == ")"

theorem style_solid (token : Token) : IsSolid (style.image token) := image_isSolid token

theorem style_disjoint (token : Token) (opens : style.opens token = true) :
    style.closes token = false := by
  have image : token.image = "(" := eq_of_beq opens
  have compared : style.closes token = (token.image == ")") := rfl
  rw [compared, image]
  rfl

end Token

namespace AbstractExpression

theorem appendElement_toList (str : String) (element : Token) :
    (appendElement str element).toList = Token.style.add str.toList element := by
  by_cases opens : element.image = "("
  · simp [appendElement, Style.add, Token.style, opens]
  · by_cases closes : element.image = ")"
    · simp [appendElement, Style.add, Token.style, closes, Text.trim]
    · simp [appendElement, Style.add, Token.style, opens, closes]

theorem toString_toList (expr : AbstractExpression) :
    expr.toString.toList = Token.style.line expr.expression := by
  have printed : ∀ (tokens : List Token) (str : String),
      (tokens.foldl appendElement str).toList = tokens.foldl Token.style.add str.toList := by
    intro tokens
    induction tokens with
    | nil => exact fun str => rfl
    | cons token tokens induction =>
        intro str
        rw [List.foldl_cons, List.foldl_cons, induction, appendElement_toList]
  have started := printed expr.expression ""
  have empty : "".toList = [] := rfl
  rw [toString, Text.trim, String.toList_ofList, started, empty]
  exact Style.trim_foldl_add Token.style_solid expr.expression Token.style_disjoint

/-- The printed form of tokens of which some are printed as something else. -/
def printWith (image : Token → String) (tokens : List Token) : String :=
  String.ofList ({ Token.style with image := fun token => (image token).toList }.line tokens)

end AbstractExpression

open SymbolicExecution

namespace Token

/-- What an updated expression has in the place of a token. -/
def valueIn (symbolicValues : SymbolicMapping) : Token → String
  | identifier name _ => symbolicValueOf symbolicValues name
  | token => token.image

theorem isWord_of_chars {chars : List Char} (nameChars : ∀ c ∈ chars, isNameChar c = true) :
    ∀ c ∈ chars, isExpressionDelimiter c = false := by
  intro c member
  by_contra delimiter
  have listed : c ∈ expressionDelimiters.toList := by
    simpa [isExpressionDelimiter] using delimiter
  have none : ∀ c ∈ expressionDelimiters.toList, isNameChar c = false := by decide
  have nameChar := nameChars c member
  rw [none c listed] at nameChar
  cases nameChar

theorem identifier_isWord {name : String} (isIdentifier : isIdentifier name = true) :
    ∀ c ∈ name.toList, isExpressionDelimiter c = false := by
  simp only [Symbolrt.isIdentifier, Bool.and_eq_true] at isIdentifier
  exact isWord_of_chars (isName_chars isIdentifier.1.1).2

/-- The tokens of an expression are words or operators. -/
theorem uniform {token : Token} (inside : token.isExpressionToken = true) :
    (∀ c ∈ token.image.toList, isExpressionDelimiter c = false) ∨
      ∀ c ∈ token.image.toList, isExpressionDelimiter c = true := by
  cases token with
  | identifier name isIdentifier => exact Or.inl (identifier_isWord isIdentifier)
  | integer numeral isNumeral =>
      left
      apply isWord_of_chars
      exact fun c member => isDigit_isNameChar ((isNumeral_chars isNumeral).2 c member)
  | keyword word =>
      cases word with
      | notTk | andTk | orTk | trueTk | falseTk | modTk =>
          left
          decide
      | moreThenTk | moreThenEqualsTk | equalsTk | lessThenTk | lessThenEqualsTk | diffTk
      | equivTk | minusTk | plusTk | multTk | divTk | openParTk | closeParTk =>
          right
          decide
      | _ => cases inside

theorem isSeparated {tokens : List Token}
    (inside : ∀ token ∈ tokens, token.isExpressionToken = true) :
    style.IsSeparated isExpressionDelimiter tokens := by
  constructor
  · decide
  · exact fun token _ => (image_isSolid token).nonempty
  · exact fun token member => uniform (inside token member)
  · intro token _ bracket
    have image : style.image token = ['('] ∨ style.image token = [')'] := by
      rcases Bool.or_eq_true_iff.mp bracket with opens | closes
      · exact Or.inl (congrArg String.toList (eq_of_beq opens))
      · exact Or.inr (congrArg String.toList (eq_of_beq closes))
    rcases image with opening | closing
    · rw [opening]
      decide
    · rw [closing]
      decide

/-- Of the tokens of an expression only the identifiers have values. -/
theorem replaced_eq_valueIn {symbolicValues : SymbolicMapping}
    (identifiers : NamesIdentifiers symbolicValues) {token : Token}
    (inside : token.isExpressionToken = true) :
    (style.replaceWords isExpressionDelimiter (replaceRun symbolicValues)).image token =
      (token.valueIn symbolicValues).toList := by
  have unvalued : ∀ {word : String}, ¬ IsIdentifier word →
      replaceRun symbolicValues word.toList = word.toList := by
    intro word other
    rw [replaceRun, symbolicValueOf, String.ofList_toList, identifiers.lookup_eq_none other]
    rfl
  have kept : ¬ IsIdentifier token.image →
      (style.replaceWords isExpressionDelimiter (replaceRun symbolicValues)).image token =
        token.image.toList := by
    intro other
    by_cases delimiter : (style.image token).any isExpressionDelimiter = true
    · exact if_pos delimiter
    · exact (if_neg delimiter).trans (unvalued other)
  cases token with
  | identifier name isIdentifier =>
      have none : name.toList.any isExpressionDelimiter = false := by
        simpa using identifier_isWord isIdentifier
      have replaced : (style.replaceWords isExpressionDelimiter
          (replaceRun symbolicValues)).image (identifier name isIdentifier) =
            replaceRun symbolicValues name.toList := by
        apply if_neg
        rw [Bool.not_eq_true]
        exact none
      rw [replaced, replaceRun, String.ofList_toList]
      rfl
  | integer numeral isNumeral =>
      apply kept
      obtain ⟨nonempty, digits⟩ := isNumeral_chars isNumeral
      rintro ⟨_, ⟨first, isFirst, letter⟩, _⟩
      have digit := digits first (List.mem_of_mem_head? isFirst)
      rw [isDigit_of_letter letter] at digit
      cases digit
  | keyword word =>
      apply kept
      cases word with
      | notTk | andTk | orTk | trueTk | falseTk | modTk | moreThenTk | moreThenEqualsTk
      | equalsTk | lessThenTk | lessThenEqualsTk | diffTk | equivTk | minusTk | plusTk | multTk
      | divTk | openParTk | closeParTk => decide
      | _ => cases inside

end Token

namespace AbstractExpression

/-- Updating a printed expression puts the values in the place of the identifiers. -/
theorem updateExpression_toString {expr : AbstractExpression} {symbolicValues : SymbolicMapping}
    (identifiers : NamesIdentifiers symbolicValues)
    (inside : ∀ token ∈ expr.expression, token.isExpressionToken = true) :
    updateExpression expr.toString symbolicValues =
      printWith (Token.valueIn symbolicValues) expr.expression := by
  have fixed := replaceRun_delimiter identifiers.namesWords
  apply String.toList_injective
  rw [updateExpression_toList, toString_toList,
    (Token.isSeparated inside).substitute_line fixed, printWith, String.toList_ofList]
  apply Style.line_congr
  · rfl
  · rfl
  · exact fun token member => Token.replaced_eq_valueIn identifiers (inside token member)

end AbstractExpression

end Symbolrt
