import Symbolrt.Lib.Glue
import Symbolrt.Lib.Junction
import Symbolrt.SymbolicExecution.BoundedRuns
import Symbolrt.SymbolicExecution.SymbolicValues

/-!
# Updating expressions

Symbolic values are put into an expression without parentheses, so the operators around a
name and those of its value compete for their operands.
-/

namespace Symbolrt

namespace SymbolicExecution

open Expression (Tree Value Interpretation grammar lex tokenOf)

/-- The only blanks are spaces. -/
def PlainBlanks (text : String) : Prop := ∀ c ∈ text.toList, Text.isBlank c = true → c = ' '

instance (text : String) : Decidable (PlainBlanks text) :=
  inferInstanceAs (Decidable (∀ c ∈ text.toList, _ → _))

theorem tokensOfChars_delimiter {c : Char} (delimiter : Formula.isDelimiter c = true)
    (rest : List Char) :
    Formula.tokensOfChars (c :: rest) =
      (if Text.isBlank c then [] else [String.ofList [c]]) ++ Formula.tokensOfChars rest := by
  have blank : Formula.isBlankRun [c] = Text.isBlank c := by simp [Formula.isBlankRun]
  rw [Formula.tokensOfChars, Text.tokenRuns_delimiter delimiter, List.filter_cons, blank]
  cases Text.isBlank c <;> rfl

theorem tokensOfChars_append_of_starts {left right : List Char}
    (starts : ∀ c ∈ right.head?, Formula.isDelimiter c = true) :
    Formula.tokensOfChars (left ++ right) =
      Formula.tokensOfChars left ++ Formula.tokensOfChars right := by
  cases right with
  | nil =>
      rw [List.append_nil]
      exact (List.append_nil _).symm
  | cons c right =>
      have delimiter : Formula.isDelimiter c = true := starts c rfl
      rw [Formula.tokensOfChars, Formula.tokensOfChars, Formula.tokensOfChars,
        Text.tokenRuns_append_delimiter delimiter, Text.tokenRuns_delimiter delimiter,
        List.filter_append, List.map_append]

theorem substitute_delimiters {replace : List Char → List Char}
    (fixed : ∀ c, isExpressionDelimiter c = true → replace [c] = [c]) {word : List Char}
    (delimiters : ∀ c ∈ word, isExpressionDelimiter c = true) (rest : List Char) :
    Text.substitute isExpressionDelimiter replace (word ++ rest) =
      word ++ Text.substitute isExpressionDelimiter replace rest := by
  induction word with
  | nil => rfl
  | cons c word induction =>
      rw [List.cons_append, Text.substitute_delimiter fixed (delimiters c List.mem_cons_self),
        induction (fun other member => delimiters other (List.mem_cons_of_mem _ member))]
      rfl

/-- The tokens that stand for a token of an expression. -/
def replaceToken (replace : List Char → List Char) (token : String) : List String :=
  if token.toList.any isExpressionDelimiter then [token]
  else Formula.tokensOfChars (replace token.toList)

/-- Words of an expression are replaced, its operators and parentheses stay. -/
theorem tokensOfChars_substitute {replace : List Char → List Char}
    (fixed : ∀ c, isExpressionDelimiter c = true → replace [c] = [c]) {chars : List Char}
    (plain : ∀ c ∈ chars, Formula.isDelimiter c = true → isExpressionDelimiter c = true)
    (uniform : ∀ token ∈ Formula.tokensOfChars chars,
      (∀ c ∈ token.toList, isExpressionDelimiter c = false) ∨
        ∀ c ∈ token.toList, isExpressionDelimiter c = true) :
    Formula.tokensOfChars (Text.substitute isExpressionDelimiter replace chars) =
      (Formula.tokensOfChars chars).flatMap (replaceToken replace) := by
  induction chars using Text.induction_on_runs Formula.isDelimiter with
  | nil => rfl
  | delimiter c rest isDelim induction =>
      have isExpression := plain c List.mem_cons_self isDelim
      have later := induction (fun other member => plain other (List.mem_cons_of_mem _ member)) (by
        intro token member
        apply uniform token
        rw [tokensOfChars_delimiter isDelim]
        exact List.mem_append_right _ member)
      rw [Text.substitute_delimiter fixed isExpression, tokensOfChars_delimiter isDelim,
        tokensOfChars_delimiter isDelim, List.flatMap_append, later]
      congr 1
      cases Text.isBlank c with
      | true => rfl
      | false => simp [replaceToken, isExpression]
  | word word rest nonempty ordinary stop induction =>
      have tokens := Formula.tokensOfChars_word nonempty ordinary stop
      have later := induction (fun other member => plain other (List.mem_append_right _ member)) (by
        intro token member
        apply uniform token
        rw [tokens]
        exact List.mem_cons_of_mem _ member)
      have stays : ∀ c ∈ (Text.substitute isExpressionDelimiter replace rest).head?,
          Formula.isDelimiter c = true := by
        cases rest with
        | nil => simp [Text.substitute]
        | cons first rest =>
            have isDelim := stop first rfl
            rw [Text.substitute_delimiter fixed (plain first (by simp) isDelim)]
            simpa using isDelim
      rw [tokens, List.flatMap_cons, ← later]
      rcases uniform (String.ofList word) (by rw [tokens]; exact List.mem_cons_self) with
        none | every
      · rw [String.toList_ofList] at none
        have kept : (String.ofList word).toList.any isExpressionDelimiter = false := by
          simpa using none
        have expressionStop : ∀ c ∈ rest.head?, isExpressionDelimiter c = true := by
          intro c isHead
          exact plain c (List.mem_append_right _ (List.mem_of_mem_head? isHead)) (stop c isHead)
        rw [Text.substitute_word nonempty none rest expressionStop,
          tokensOfChars_append_of_starts stays, replaceToken, kept, String.toList_ofList]
        rfl
      · rw [String.toList_ofList] at every
        have some : (String.ofList word).toList.any isExpressionDelimiter = true := by
          rw [String.toList_ofList, List.any_eq_true]
          obtain ⟨c, others, rfl⟩ := List.exists_cons_of_ne_nil nonempty
          exact ⟨c, List.mem_cons_self, every c List.mem_cons_self⟩
        rw [substitute_delimiters fixed every, Formula.tokensOfChars_word nonempty ordinary stays,
          replaceToken, some]
        rfl

def keywords : List String := ["TRUE", "FALSE", "AND", "OR", "NOT"]

def isLetter (c : Char) : Bool := c.isAlpha || c == '_'

/-- The names that can be declared. -/
def IsIdentifier (name : String) : Prop :=
  name ∉ keywords ∧ (∃ first ∈ name.toList.head?, isLetter first = true) ∧
    ∀ c ∈ name.toList, isLetter c = true ∨ c.isDigit = true

instance (name : String) : Decidable (IsIdentifier name) :=
  inferInstanceAs (Decidable (_ ∧ _ ∧ _))

/-- Only identifiers have values. -/
def NamesIdentifiers (symbolicValues : SymbolicMapping) : Prop :=
  ∀ name text, symbolicValues.lookup name = some text → IsIdentifier name

theorem not_delimiter_of_letter {c : Char} (letter : isLetter c = true ∨ c.isDigit = true) :
    isExpressionDelimiter c = false := by
  by_contra delimiter
  have member : c ∈ expressionDelimiters.toList := by
    simpa [isExpressionDelimiter] using delimiter
  have none : ∀ c ∈ expressionDelimiters.toList, ¬ (isLetter c = true ∨ c.isDigit = true) := by
    decide
  exact none c member letter

theorem IsIdentifier.isWord {name : String} (isIdentifier : IsIdentifier name) : IsWord name := by
  obtain ⟨_, ⟨first, isFirst, _⟩, letters⟩ := isIdentifier
  constructor
  · rintro rfl
    cases isFirst
  · exact fun c member => not_delimiter_of_letter (letters c member)

theorem NamesIdentifiers.namesWords {symbolicValues : SymbolicMapping}
    (identifiers : NamesIdentifiers symbolicValues) : NamesWords symbolicValues :=
  fun name text found => (identifiers name text found).isWord

theorem NamesIdentifiers.lookup_eq_none {symbolicValues : SymbolicMapping}
    (identifiers : NamesIdentifiers symbolicValues) {name : String}
    (other : ¬ IsIdentifier name) : symbolicValues.lookup name = none := by
  cases found : symbolicValues.lookup name with
  | none => rfl
  | some text => exact absurd (identifiers name text found) other

theorem isDigit_of_letter {c : Char} (letter : isLetter c = true) : c.isDigit = false := by
  by_cases underscore : c = '_'
  · rw [underscore]
    decide
  · have alpha : c.isAlpha = true := by simpa [isLetter, underscore] using letter
    have spelled : c.isAlpha = (decide (c.val ≥ 'A'.val ∧ c.val ≤ 'Z'.val) ||
        decide (c.val ≥ 'a'.val) && decide (c.val ≤ 'z'.val)) := rfl
    simp only [spelled, Bool.or_eq_true, Bool.and_eq_true, decide_eq_true_eq, ge_iff_le,
      UInt32.le_iff_toNat_le, Char.reduceVal, UInt32.reduceToNat] at alpha
    simp only [Char.isDigit, Bool.and_eq_false_iff, decide_eq_false_iff_not,
      UInt32.le_iff_toNat_le, Char.reduceVal, UInt32.reduceToNat]
    omega

theorem literal_eq_none {name : String} (isIdentifier : IsIdentifier name) :
    Expression.literal name = none := by
  obtain ⟨notKeyword, ⟨first, isFirst, letter⟩, _⟩ := isIdentifier
  have notTrue : name ≠ "TRUE" := by
    rintro rfl
    exact notKeyword (by decide)
  have notFalse : name ≠ "FALSE" := by
    rintro rfl
    exact notKeyword (by decide)
  have notDigits : ¬ name.toList.all Char.isDigit = true := by
    intro digits
    have digit := List.all_eq_true.mp digits first (List.mem_of_mem_head? isFirst)
    rw [isDigit_of_letter letter] at digit
    cases digit
  rw [Expression.literal, if_neg notTrue, if_neg notFalse, if_neg notDigits]

/-- The tree of the value of a name. -/
def valueTree (symbolicValues : SymbolicMapping) (name : String) : Tree :=
  match symbolicValues.lookup name with
  | none => .word name
  | some text => (Expression.read text).getD (.word name)

/-- The values of the words can be read. -/
def ValuesRead (symbolicValues : SymbolicMapping) (words : List String) : Prop :=
  ∀ name ∈ words, ∀ text ∈ symbolicValues.lookup name, (Expression.read text).isSome = true

instance (symbolicValues : SymbolicMapping) (words : List String) :
    Decidable (ValuesRead symbolicValues words) :=
  inferInstanceAs (Decidable (∀ name ∈ words, _))

/-- Tokens are parentheses or consist of other characters. -/
theorem mem_tokensOfChars {chars : List Char} {token : String}
    (member : token ∈ Formula.tokensOfChars chars) :
    token = "(" ∨ token = ")" ∨
      (token.toList ≠ [] ∧ ∀ c ∈ token.toList, Formula.isDelimiter c = false) := by
  induction chars using Text.induction_on_runs Formula.isDelimiter with
  | nil => cases member
  | delimiter c rest isDelim induction =>
      rw [tokensOfChars_delimiter isDelim] at member
      rcases List.mem_append.mp member with here | later
      · split at here
        · cases here
        · rename_i visible
          rw [List.mem_singleton.mp here]
          have parenthesis : c = '(' ∨ c = ')' := by
            simpa [Formula.isDelimiter, visible] using isDelim
          rcases parenthesis with rfl | rfl
          · exact Or.inl (by decide)
          · exact Or.inr (Or.inl (by decide))
      · exact induction later
  | word word rest nonempty ordinary stop induction =>
      rw [Formula.tokensOfChars_word nonempty ordinary stop] at member
      rcases List.mem_cons.mp member with rfl | later
      · right
        right
        rw [String.toList_ofList]
        exact ⟨nonempty, ordinary⟩
      · exact induction later

/-- What a token of an expression can be. -/
inductive TokenForm : String → Expression.Token → Prop where
  | opening : TokenForm "(" .opening
  | closing : TokenForm ")" .closing
  | binary (operator : Expression.BinaryOperator) :
      TokenForm operator.text (.symbol operator.text)
  | unary (operator : Expression.UnaryOperator) :
      TokenForm operator.text (.symbol operator.text)
  | word {text : String} : text ≠ "(" → text ≠ ")" →
      (∀ c ∈ text.toList, c ∉ Expression.operatorChars) → TokenForm text (.word text)

theorem tokenForm {text : String} {token : Expression.Token} (isToken : tokenOf text = some token) :
    TokenForm text token := by
  unfold tokenOf at isToken
  split at isToken
  · rename_i same
    obtain rfl := Option.some.inj isToken
    rw [same]
    exact TokenForm.opening
  · rename_i notOpening
    split at isToken
    · rename_i same
      obtain rfl := Option.some.inj isToken
      rw [same]
      exact TokenForm.closing
    · rename_i notClosing
      split at isToken
      · rename_i known
        obtain rfl := Option.some.inj isToken
        rcases known with binary | unary
        · obtain ⟨operator, found⟩ := Option.isSome_iff_exists.mp binary
          rw [← (Expression.BinaryOperator.ofText_iff text operator).mp found]
          exact TokenForm.binary operator
        · obtain ⟨operator, found⟩ := Option.isSome_iff_exists.mp unary
          rw [← (Expression.UnaryOperator.ofText_iff text operator).mp found]
          exact TokenForm.unary operator
      · split at isToken
        · cases isToken
        · rename_i none
          obtain rfl := Option.some.inj isToken
          apply TokenForm.word notOpening notClosing
          intro c member isOperator
          exact none (List.any_eq_true.mpr ⟨c, member, by simpa using isOperator⟩)

section Updates

variable {symbolicValues : SymbolicMapping}

theorem operator_uniform : (∀ operator : Expression.BinaryOperator,
      (∀ c ∈ operator.text.toList, isExpressionDelimiter c = false) ∨
        ∀ c ∈ operator.text.toList, isExpressionDelimiter c = true) ∧
    ∀ operator : Expression.UnaryOperator,
      (∀ c ∈ operator.text.toList, isExpressionDelimiter c = false) ∨
        ∀ c ∈ operator.text.toList, isExpressionDelimiter c = true := by
  constructor
  · intro operator
    cases operator <;> decide
  · intro operator
    cases operator <;> decide

/-- A character that ends words of expressions is a space, a parenthesis or belongs to an
operator. -/
theorem delimiter_cases {c : Char} (delimiter : isExpressionDelimiter c = true) :
    Formula.isDelimiter c = true ∨ c ∈ Expression.operatorChars := by
  have member : c ∈ expressionDelimiters.toList := by
    simpa [isExpressionDelimiter] using delimiter
  have every : ∀ c ∈ expressionDelimiters.toList,
      Formula.isDelimiter c = true ∨ c ∈ Expression.operatorChars := by decide
  exact every c member

theorem word_ordinary {text : String} {chars : List Char}
    (member : text ∈ Formula.tokensOfChars chars) (notOpening : text ≠ "(")
    (notClosing : text ≠ ")") (noOperator : ∀ c ∈ text.toList, c ∉ Expression.operatorChars) :
    text.toList ≠ [] ∧ (∀ c ∈ text.toList, Formula.isDelimiter c = false) ∧
      ∀ c ∈ text.toList, isExpressionDelimiter c = false := by
  rcases mem_tokensOfChars member with opening | closing | ⟨nonempty, ordinary⟩
  · exact absurd opening notOpening
  · exact absurd closing notClosing
  · refine ⟨nonempty, ordinary, ?_⟩
    intro c inText
    by_contra delimiter
    rcases delimiter_cases (by simpa using delimiter) with blank | isOperator
    · rw [ordinary c inText] at blank
      cases blank
    · exact noOperator c inText isOperator

theorem exists_token {items : List String} {tokens : List Expression.Token}
    (lexed : items.mapM tokenOf = some tokens) {text : String} (member : text ∈ items) :
    ∃ token, tokenOf text = some token := by
  induction items generalizing tokens with
  | nil => cases member
  | cons item items induction =>
      rw [List.mapM_cons] at lexed
      obtain ⟨token, isToken, rest⟩ := Option.bind_eq_some_iff.mp lexed
      obtain ⟨others, restLexed, _⟩ := Option.bind_eq_some_iff.mp rest
      rcases List.mem_cons.mp member with rfl | later
      · exact ⟨token, isToken⟩
      · exact induction restLexed later

theorem tokens_uniform {chars : List Char} {tokens : List Expression.Token}
    (lexed : (Formula.tokensOfChars chars).mapM tokenOf = some tokens) :
    ∀ text ∈ Formula.tokensOfChars chars,
      (∀ c ∈ text.toList, isExpressionDelimiter c = false) ∨
        ∀ c ∈ text.toList, isExpressionDelimiter c = true := by
  intro text member
  obtain ⟨token, isToken⟩ := exists_token lexed member
  have form := tokenForm isToken
  cases form with
  | opening => exact Or.inr (by decide)
  | closing => exact Or.inr (by decide)
  | binary operator => exact operator_uniform.1 operator
  | unary operator => exact operator_uniform.2 operator
  | word notOpening notClosing noOperator =>
      exact Or.inl (word_ordinary member notOpening notClosing noOperator).2.2

theorem lex_word {text : String} (nonempty : text.toList ≠ [])
    (ordinary : ∀ c ∈ text.toList, Formula.isDelimiter c = false) :
    Formula.tokensOfChars text.toList = [text] := by
  have alone := @Formula.tokensOfChars_word text.toList nonempty ordinary [] (by simp)
  rw [List.append_nil, String.ofList_toList] at alone
  exact alone

theorem replaceToken_operator (identifiers : NamesIdentifiers symbolicValues) {text : String}
    (other : ¬ IsIdentifier text) (nonempty : text.toList ≠ [])
    (ordinary : ∀ c ∈ text.toList, Formula.isDelimiter c = false) :
    replaceToken (replaceRun symbolicValues) text = [text] := by
  unfold replaceToken
  split
  · rfl
  · rw [replaceRun, symbolicValueOf, String.ofList_toList, identifiers.lookup_eq_none other]
    exact lex_word nonempty ordinary

theorem binary_ordinary (operator : Expression.BinaryOperator) :
    ¬ IsIdentifier operator.text ∧ operator.text.toList ≠ [] ∧
      ∀ c ∈ operator.text.toList, Formula.isDelimiter c = false := by
  cases operator <;> decide

theorem unary_ordinary (operator : Expression.UnaryOperator) :
    ¬ IsIdentifier operator.text ∧ operator.text.toList ≠ [] ∧
      ∀ c ∈ operator.text.toList, Formula.isDelimiter c = false := by
  cases operator <;> decide

/-- What a token is replaced by is read as the tree of its value. -/
theorem lex_replaceToken (identifiers : NamesIdentifiers symbolicValues) {chars : List Char}
    {text : String} {token : Expression.Token} (member : text ∈ Formula.tokensOfChars chars)
    (isToken : tokenOf text = some token)
    (read : ∀ name, token = .word name → ∀ value ∈ symbolicValues.lookup name,
      (Expression.read value).isSome = true) :
    (replaceToken (replaceRun symbolicValues) text).mapM tokenOf =
      some (Precedence.replaceWords (fun name =>
        Precedence.print grammar (valueTree symbolicValues name)) token) := by
  have single : ∀ {text : String} {token : Expression.Token}, tokenOf text = some token →
      [text].mapM tokenOf = some [token] := by
    intro text token isToken
    rw [List.mapM_cons, isToken]
    rfl
  have form := tokenForm isToken
  cases form with
  | opening => rfl
  | closing => rfl
  | binary operator =>
      obtain ⟨other, nonempty, ordinary⟩ := binary_ordinary operator
      rw [replaceToken_operator identifiers other nonempty ordinary, single isToken]
      rfl
  | unary operator =>
      obtain ⟨other, nonempty, ordinary⟩ := unary_ordinary operator
      rw [replaceToken_operator identifiers other nonempty ordinary, single isToken]
      rfl
  | word notOpening notClosing noOperator =>
      obtain ⟨nonempty, ordinary, none⟩ :=
        word_ordinary member notOpening notClosing noOperator
      have kept : text.toList.any isExpressionDelimiter = false := by simpa using none
      rw [replaceToken, kept, replaceRun, symbolicValueOf, String.ofList_toList]
      simp only [Bool.false_eq_true, if_false, Precedence.replaceWords, valueTree]
      cases found : symbolicValues.lookup text with
      | none =>
          refine (congrArg (List.mapM tokenOf) (lex_word nonempty ordinary)).trans ?_
          exact single isToken
      | some value =>
          obtain ⟨tree, isRead⟩ := Option.isSome_iff_exists.mp (read text rfl value found)
          simp only [isRead, Option.getD_some]
          exact (Expression.print_of_read isRead).1

theorem lex_flatMap (identifiers : NamesIdentifiers symbolicValues) {chars : List Char}
    {items : List String} (subset : ∀ text ∈ items, text ∈ Formula.tokensOfChars chars)
    {tokens : List Expression.Token} (lexed : items.mapM tokenOf = some tokens)
    (read : ∀ name, .word name ∈ tokens → ∀ value ∈ symbolicValues.lookup name,
      (Expression.read value).isSome = true) :
    (items.flatMap (replaceToken (replaceRun symbolicValues))).mapM tokenOf =
      some (tokens.flatMap (Precedence.replaceWords (fun name =>
        Precedence.print grammar (valueTree symbolicValues name)))) := by
  induction items generalizing tokens with
  | nil =>
      obtain rfl := Option.some.inj lexed
      rfl
  | cons text items induction =>
      rw [List.mapM_cons] at lexed
      obtain ⟨token, isToken, rest⟩ := Option.bind_eq_some_iff.mp lexed
      obtain ⟨others, restLexed, collected⟩ := Option.bind_eq_some_iff.mp rest
      obtain rfl := Option.some.inj collected
      have here := lex_replaceToken identifiers (subset text List.mem_cons_self) isToken
        (fun name same => read name (by simp [same]))
      have later := induction (fun other member => subset other (List.mem_cons_of_mem _ member))
        restLexed (fun name member => read name (List.mem_cons_of_mem _ member))
      rw [List.flatMap_cons, List.mapM_append, here, later, List.flatMap_cons]
      rfl

/-- The updated expression is read as the expression with the trees of the values put in,
regrouped by the levels of the operators. -/
theorem read_updateExpression (identifiers : NamesIdentifiers symbolicValues)
    {expression : String} (plain : PlainBlanks expression) {tree : Tree}
    (isRead : Expression.read expression = some tree)
    (valuesRead : ValuesRead symbolicValues tree.words) :
    Expression.read (updateExpression expression symbolicValues) =
      some (Precedence.regroup grammar (tree.bind (valueTree symbolicValues))) := by
  have lexed := (Expression.print_of_read isRead).1
  have delimiters : ∀ c ∈ expression.toList, Formula.isDelimiter c = true →
      isExpressionDelimiter c = true := by
    intro c member delimiter
    have cases : c = ' ' ∨ c = '(' ∨ c = ')' := by
      by_cases blank : Text.isBlank c = true
      · exact Or.inl (plain c member blank)
      · exact Or.inr (by simpa [Formula.isDelimiter, blank] using delimiter)
    rcases cases with rfl | rfl | rfl <;> decide
  have fixed := replaceRun_delimiter identifiers.namesWords
  have substituted : Formula.tokens (updateExpression expression symbolicValues) =
      (Formula.tokens expression).flatMap (replaceToken (replaceRun symbolicValues)) := by
    have chars := updateExpression_toList expression symbolicValues
    refine (congrArg Formula.tokensOfChars chars).trans ?_
    exact tokensOfChars_substitute fixed delimiters (tokens_uniform lexed)
  have updated : lex (updateExpression expression symbolicValues) =
      some (Precedence.print grammar (tree.bind (valueTree symbolicValues))) := by
    rw [lex, substituted, Precedence.print_bind]
    apply lex_flatMap identifiers (fun _ member => member) lexed
    intro name member
    exact valuesRead name (Precedence.mem_words_of_print member)
  rw [Expression.read, updated]
  exact Precedence.read_print _

/-- The names get the values of their texts. -/
def store (interpretation : Interpretation) (symbolicValues : SymbolicMapping) :
    Interpretation :=
  { interpretation with
    symbol := fun name =>
      match symbolicValues.lookup name with
      | none => interpretation.symbol name
      | some text => (Expression.value interpretation text).getD (interpretation.symbol name) }

theorem store_meaning (identifiers : NamesIdentifiers symbolicValues)
    (interpretation : Interpretation) :
    interpretation.meaning.store (valueTree symbolicValues) =
      (store interpretation symbolicValues).meaning := by
  have words : (fun name => interpretation.meaning.value (valueTree symbolicValues name)) =
      (store interpretation symbolicValues).word := by
    funext name
    unfold valueTree Interpretation.word store
    cases found : symbolicValues.lookup name with
    | none =>
        simp only [found]
        rfl
    | some text =>
        have notLiteral := literal_eq_none (identifiers name text found)
        have symbol : interpretation.word name = interpretation.symbol name := by
          rw [Interpretation.word, notLiteral]
          rfl
        simp only [notLiteral, found, Option.getD_none, Expression.value]
        cases Expression.read text with
        | none => exact symbol
        | some tree => rfl
  unfold Precedence.Meaning.store
  rw [words]
  rfl

/-- Where the operators tolerate the values between them, the updated expression has the
value of the expression in the store of the symbolic values. -/
theorem value_updateExpression (identifiers : NamesIdentifiers symbolicValues)
    {expression : String} (plain : PlainBlanks expression) {tree : Tree}
    (isRead : Expression.read expression = some tree)
    (valuesRead : ValuesRead symbolicValues tree.words)
    (fits : Precedence.Fits grammar Expression.exchange (tree.bind (valueTree symbolicValues)))
    (interpretation : Interpretation) :
    Expression.value interpretation (updateExpression expression symbolicValues) =
      Expression.value (store interpretation symbolicValues) expression := by
  have read := read_updateExpression identifiers plain isRead valuesRead
  have regrouped := Precedence.value_regroup (Expression.exchange_sound interpretation) fits
  rw [Expression.value, read, Expression.value, isRead, Option.map_some, Option.map_some,
    regrouped, Precedence.value_bind, store_meaning identifiers]

end Updates

end SymbolicExecution

end Symbolrt
