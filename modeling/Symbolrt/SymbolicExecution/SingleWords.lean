import Symbolrt.SymbolicExecution.ExpressionUpdates

/-!
# Values that are single words

As long as every value is one identifier or constant, updating an expression exchanges
words for words and leaves its structure alone.
-/

namespace Symbolrt

namespace SymbolicExecution

open Expression (Tree Interpretation grammar lex tokenOf)

/-- The text is one identifier or constant. -/
def IsSingleWord (text : String) : Prop := Expression.read text = some (.word text)

instance (text : String) : Decidable (IsSingleWord text) := inferInstanceAs (Decidable (_ = _))

theorem IsSingleWord.value {text : String} (isSingle : IsSingleWord text)
    (interpretation : Interpretation) :
    Expression.value interpretation text = some (interpretation.word text) := by
  rw [Expression.value, isSingle]
  rfl

theorem IsSingleWord.tokens {text : String} (isSingle : IsSingleWord text) :
    Formula.tokensOfChars text.toList = [text] ∧ tokenOf text = some (.word text) := by
  have lexed : (Formula.tokensOfChars text.toList).mapM tokenOf = some [.word text] :=
    (Expression.print_of_read isSingle).1
  cases tokens : Formula.tokensOfChars text.toList with
  | nil =>
      rw [tokens] at lexed
      cases lexed
  | cons token others =>
      rw [tokens, List.mapM_cons] at lexed
      obtain ⟨first, isToken, lexed⟩ := Option.bind_eq_some_iff.mp lexed
      obtain ⟨rest, restLexed, collected⟩ := Option.bind_eq_some_iff.mp lexed
      obtain ⟨rfl, rfl⟩ := List.cons.inj (Option.some.inj collected)
      have form := tokenForm isToken
      cases form
      refine ⟨?_, isToken⟩
      cases others with
      | nil => rfl
      | cons other others =>
          rw [List.mapM_cons] at restLexed
          obtain ⟨_, _, restLexed⟩ := Option.bind_eq_some_iff.mp restLexed
          obtain ⟨_, _, restLexed⟩ := Option.bind_eq_some_iff.mp restLexed
          cases restLexed

theorem IsSingleWord.updateExpression_eq {text : String} (isSingle : IsSingleWord text)
    (symbolicValues : SymbolicMapping) :
    updateExpression text symbolicValues = symbolicValueOf symbolicValues text := by
  obtain ⟨tokens, isToken⟩ := isSingle.tokens
  have form := tokenForm isToken
  cases form with
  | word notOpening notClosing noOperator =>
      have listed : text ∈ Formula.tokensOfChars text.toList := by
        rw [tokens]
        exact List.mem_singleton_self text
      obtain ⟨nonempty, _, ordinary⟩ := word_ordinary listed notOpening notClosing noOperator
      have substituted := @Text.substitute_word isExpressionDelimiter (replaceRun symbolicValues)
        text.toList nonempty ordinary [] (fun c impossible => by cases impossible)
      rw [List.append_nil] at substituted
      apply String.toList_inj.mp
      rw [updateExpression_toList, substituted, replaceRun, String.ofList_toList]
      exact List.append_nil _

theorem letter_not_blank {c : Char} (letter : isLetter c = true ∨ c.isDigit = true) :
    Text.isBlank c = false := by
  have above : 48 ≤ c.val.toNat := by
    rcases letter with letter | digit
    · by_cases underscore : c = '_'
      · rw [underscore]
        decide
      · have alpha : c.isAlpha = true := by simpa [isLetter, underscore] using letter
        have spelled : c.isAlpha = (decide (c.val ≥ 'A'.val ∧ c.val ≤ 'Z'.val) ||
            decide (c.val ≥ 'a'.val) && decide (c.val ≤ 'z'.val)) := rfl
        simp only [spelled, Bool.or_eq_true, Bool.and_eq_true, decide_eq_true_eq, ge_iff_le,
          UInt32.le_iff_toNat_le, Char.reduceVal, UInt32.reduceToNat] at alpha
        omega
    · have spelled : c.isDigit = (decide (c.val ≥ '0'.val) && decide (c.val ≤ '9'.val)) := rfl
      simp only [spelled, Bool.and_eq_true, decide_eq_true_eq, ge_iff_le,
        UInt32.le_iff_toNat_le, Char.reduceVal, UInt32.reduceToNat] at digit
      exact digit.1
  apply decide_eq_false
  rw [UInt32.le_iff_toNat_le]
  exact Nat.not_le.mpr (Nat.lt_of_lt_of_le (by decide) above)

theorem letter_ordinary {c : Char} (letter : isLetter c = true ∨ c.isDigit = true) :
    Formula.isDelimiter c = false ∧ c ∉ Expression.operatorChars := by
  have others : ∀ c ∈ '(' :: ')' :: Expression.operatorChars,
      ¬ (isLetter c = true ∨ c.isDigit = true) := by decide
  have outside : c ∉ '(' :: ')' :: Expression.operatorChars :=
    fun member => others c member letter
  simp only [List.mem_cons, not_or] at outside
  refine ⟨?_, by simpa using outside.2.2⟩
  simp [Formula.isDelimiter, letter_not_blank letter, outside.1, outside.2.1]

theorem not_isIdentifier_operator :
    (∀ operator : Expression.BinaryOperator, ¬ IsIdentifier operator.text) ∧
      ∀ operator : Expression.UnaryOperator, ¬ IsIdentifier operator.text := by
  constructor
  · intro operator
    cases operator <;> decide
  · intro operator
    cases operator <;> decide

theorem IsIdentifier.isSingleWord {name : String} (isIdentifier : IsIdentifier name) :
    IsSingleWord name := by
  have letters := isIdentifier.2.2
  have ordinary : ∀ c ∈ name.toList, Formula.isDelimiter c = false :=
    fun c member => (letter_ordinary (letters c member)).1
  have tokens := lex_word isIdentifier.isWord.toList_ne_nil ordinary
  have isToken : tokenOf name = some (.word name) := by
    have notParenthesis : name ≠ "(" ∧ name ≠ ")" := by
      constructor
      · rintro rfl
        exact absurd isIdentifier (by decide)
      · rintro rfl
        exact absurd isIdentifier (by decide)
    have noSymbol : ¬ ((Expression.BinaryOperator.ofText name).isSome ∨
        (Expression.UnaryOperator.ofText name).isSome) := by
      rintro (binary | unary)
      · obtain ⟨operator, found⟩ := Option.isSome_iff_exists.mp binary
        apply not_isIdentifier_operator.1 operator
        rwa [(Expression.BinaryOperator.ofText_iff name operator).mp found]
      · obtain ⟨operator, found⟩ := Option.isSome_iff_exists.mp unary
        apply not_isIdentifier_operator.2 operator
        rwa [(Expression.UnaryOperator.ofText_iff name operator).mp found]
    have noOperator : ¬ name.toList.any Expression.operatorChars.contains = true := by
      intro some
      obtain ⟨c, member, isOperator⟩ := List.any_eq_true.mp some
      exact (letter_ordinary (letters c member)).2 (by simpa using isOperator)
    rw [tokenOf, if_neg notParenthesis.1, if_neg notParenthesis.2, if_neg noSymbol,
      if_neg noOperator]
  have lexed : lex name = some [.word name] := by
    change (Formula.tokensOfChars name.toList).mapM tokenOf = _
    rw [tokens, List.mapM_cons, isToken]
    rfl
  rw [IsSingleWord, Expression.read, lexed]
  exact @Precedence.read_print _ _ _ _ grammar (.word name)

/-- A symbolic value of an identifier is an identifier. -/
theorem IsIdentifier.symbolicValue {name : String} (isIdentifier : IsIdentifier name)
    (number : Nat) : IsIdentifier (symbolicValue name (Nat.repr number)) := by
  obtain ⟨_, ⟨first, isFirst, letter⟩, letters⟩ := isIdentifier
  have chars : (SymbolicExecution.symbolicValue name (Nat.repr number)).toList =
      name.toList ++ '_' :: Nat.toDigits 10 number := by
    simp [SymbolicExecution.symbolicValue, Constants.symbolicValueSeparator, Nat.toList_repr]
  refine ⟨?_, ⟨first, ?_, letter⟩, ?_⟩
  · have plain : ∀ word ∈ keywords, '_' ∉ word.toList := by decide
    intro isKeyword
    apply plain _ isKeyword
    rw [chars]
    simp
  · rw [chars, List.head?_append, Option.mem_def.mp isFirst]
    rfl
  · intro c member
    rw [chars] at member
    rcases List.mem_append.mp member with inName | later
    · exact letters c inName
    · rcases List.mem_cons.mp later with rfl | digit
      · exact Or.inl (by decide)
      · exact Or.inr (isDigit_of_mem_digits digit)

theorem IsIdentifier.word_eq {name : String} (isIdentifier : IsIdentifier name)
    (interpretation : Interpretation) : interpretation.word name = interpretation.symbol name := by
  rw [Interpretation.word, literal_eq_none isIdentifier]
  rfl

section Words

variable {symbolicValues : SymbolicMapping}

def NamesSingleWords (symbolicValues : SymbolicMapping) : Prop :=
  ∀ name text, symbolicValues.lookup name = some text → IsSingleWord text

theorem NamesSingleWords.valueTree_eq (single : NamesSingleWords symbolicValues) (name : String) :
    valueTree symbolicValues name = .word (symbolicValueOf symbolicValues name) := by
  unfold valueTree symbolicValueOf
  cases found : symbolicValues.lookup name with
  | none => rfl
  | some text =>
      have isRead : Expression.read text = some (.word text) := single name text found
      simp only [isRead, Option.getD_some]

theorem NamesSingleWords.read_updated (single : NamesSingleWords symbolicValues)
    (identifiers : NamesIdentifiers symbolicValues) {expression : String}
    (plain : PlainBlanks expression) {tree : Tree}
    (isRead : Expression.read expression = some tree) :
    Expression.read (updateExpression expression symbolicValues) =
      some (tree.bind (valueTree symbolicValues)) := by
  have valuesRead : ValuesRead symbolicValues tree.words := by
    intro name _ text found
    have textRead : Expression.read text = some (.word text) := single name text found
    rw [textRead]
    rfl
  have grouped : Precedence.Grouped grammar (tree.bind (valueTree symbolicValues)) :=
    (Precedence.grouped_bind_words (fun name => ⟨_, single.valueTree_eq name⟩) tree).mpr
      (Expression.print_of_read isRead).2
  rw [read_updateExpression identifiers plain isRead valuesRead, grouped.regroup_eq]

theorem NamesSingleWords.value_updated (single : NamesSingleWords symbolicValues)
    (identifiers : NamesIdentifiers symbolicValues) {expression : String}
    (plain : PlainBlanks expression) {tree : Tree}
    (isRead : Expression.read expression = some tree) (interpretation : Interpretation) :
    Expression.value interpretation (updateExpression expression symbolicValues) =
      Expression.value (store interpretation symbolicValues) expression := by
  rw [Expression.value, single.read_updated identifiers plain isRead, Expression.value,
    isRead, Option.map_some, Option.map_some, Precedence.value_bind, store_meaning identifiers]

end Words

end SymbolicExecution

end Symbolrt
