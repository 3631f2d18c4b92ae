import Symbolrt.Lib.Substitution
import Symbolrt.SymbolicExecution.Execution

/-!
# Symbolic values as texts

A symbolic value is a name, the separator and a counter.  Reading a printed counter
gives it back, so updating a symbolic value counts one up.  An expression is updated
word by word.
-/

namespace Symbolrt

namespace SymbolicExecution

theorem nextCounter_isInt (value : Int) : IsInt (nextCounter value) := by
  have lower := Int.le_bmod (x := value + 1) (m := 4294967296) (by omega)
  have upper := Int.bmod_lt (x := value + 1) (m := 4294967296) (by omega)
  unfold IsInt nextCounter
  omega

theorem printInt_ofNat_toList (value : Nat) :
    (printInt (Int.ofNat value)).toList = Nat.toDigits 10 value := by
  rw [printInt, Nat.toList_repr]

theorem printInt_negSucc_toList (value : Nat) :
    (printInt (Int.negSucc value)).toList = '-' :: Nat.toDigits 10 (value + 1) := by
  simp [printInt, Nat.toList_repr]

theorem isDigit_of_mem_digits {value : Nat} {c : Char} (member : c ∈ Nat.toDigits 10 value) :
    c.isDigit = true :=
  Nat.isDigit_of_mem_toDigits (by decide) (by decide) member

theorem readDigits_digits (value : Nat) : readDigits (Nat.toDigits 10 value) = .ok value := by
  have all : (Nat.toDigits 10 value).all Char.isDigit = true :=
    List.all_eq_true.mpr fun _ member => isDigit_of_mem_digits member
  have nonempty : (Nat.toDigits 10 value).isEmpty = false := by simp
  unfold readDigits
  rw [all, nonempty, Nat.ofDigitChars_ten_toDigits]
  rfl

theorem parseInt_printInt {value : Int} (inRange : IsInt value) :
    parseInt (printInt value) = .ok value := by
  have checked : checkInt value = .ok value := if_pos inRange
  cases value with
  | ofNat value =>
      obtain ⟨first, rest, digits⟩ :=
        List.exists_cons_of_ne_nil (Nat.toDigits_ne_nil (n := value) (b := 10))
      have isDigit : first.isDigit = true := isDigit_of_mem_digits (by rw [digits]; simp)
      have notMinus : first ≠ '-' := by
        rintro rfl
        exact absurd isDigit (by decide)
      have notPlus : first ≠ '+' := by
        rintro rfl
        exact absurd isDigit (by decide)
      have read := readDigits_digits value
      rw [digits] at read
      unfold parseInt
      rw [printInt_ofNat_toList, digits]
      split
      · rename_i same
        exact absurd (List.cons.inj same).1 notMinus
      · rename_i same
        exact absurd (List.cons.inj same).1 notPlus
      · rw [read, ok_bind]
        exact checked
  | negSucc value =>
      have same : -((value + 1 : Nat) : Int) = Int.negSucc value := by omega
      unfold parseInt
      rw [printInt_negSucc_toList]
      simp only
      rw [readDigits_digits, ok_bind, same]
      exact checked

theorem separator_not_mem_printInt (value : Int) : '_' ∉ (printInt value).toList := by
  cases value with
  | ofNat value =>
      rw [printInt_ofNat_toList]
      exact Nat.underscore_not_in_toDigits
  | negSucc value =>
      rw [printInt_negSucc_toList]
      intro member
      rcases List.mem_cons.mp member with same | inDigits
      · exact absurd same (by decide)
      · exact Nat.underscore_not_in_toDigits inDigits

theorem printInt_ne_empty (value : Int) : (printInt value).toList ≠ [] := by
  cases value with
  | ofNat value =>
      rw [printInt_ofNat_toList]
      exact Nat.toDigits_ne_nil
  | negSucc value =>
      rw [printInt_negSucc_toList]
      exact List.cons_ne_nil _ _

theorem pieces_symbolicValue {name counter : String} (nameAvoids : '_' ∉ name.toList)
    (counterAvoids : '_' ∉ counter.toList) :
    Text.pieces "_".toList 0 [] (symbolicValue name counter).toList =
      [name.toList, counter.toList] := by
  have chars : (symbolicValue name counter).toList =
      name.toList ++ (['_'] ++ counter.toList) := by
    simp [symbolicValue, Constants.symbolicValueSeparator]
  have plain : ∀ (word rest : List Char), '_' ∉ word → Text.NoMatchIn ['_'] word rest := by
    intro word rest avoids
    have whole := (Text.noMatchIn_nil ['_'] rest).word avoids
    rwa [List.append_nil] at whole
  have separator : "_".toList = ['_'] := rfl
  rw [chars, separator, Text.pieces_cons (by simp) (plain _ _ nameAvoids),
    Text.pieces_last (plain _ _ counterAvoids)]

theorem split_symbolicValue_head {name counter : String} (nameAvoids : '_' ∉ name.toList)
    (counterAvoids : '_' ∉ counter.toList) (nonempty : name ≠ "") :
    ∃ others, Text.split "_" (symbolicValue name counter) = name :: others := by
  have kept : name.toList ≠ [] := fun empty => nonempty (String.toList_inj.mp (by simp [empty]))
  unfold Text.split
  rw [pieces_symbolicValue nameAvoids counterAvoids]
  by_cases empty : counter.toList = []
  · refine ⟨[], ?_⟩
    simp [Text.dropTrailingEmpty, empty, kept]
  · refine ⟨[counter], ?_⟩
    simp [Text.dropTrailingEmpty, empty]

theorem split_symbolicValue {name counter : String} (nameAvoids : '_' ∉ name.toList)
    (counterAvoids : '_' ∉ counter.toList) (nonempty : counter.toList ≠ []) :
    Text.split Constants.symbolicValueSeparator (symbolicValue name counter) =
      [name, counter] := by
  have separator : Constants.symbolicValueSeparator = "_" := rfl
  unfold Text.split
  rw [separator, pieces_symbolicValue nameAvoids counterAvoids]
  simp [Text.dropTrailingEmpty, nonempty]

theorem updateSymbolicValue_eq {name : String} (nameAvoids : '_' ∉ name.toList) {counter : Int}
    (inRange : IsInt counter) :
    updateSymbolicValue (symbolicValue name (printInt counter)) =
      .ok (symbolicValue name (printInt (nextCounter counter))) := by
  unfold updateSymbolicValue
  rw [split_symbolicValue nameAvoids (separator_not_mem_printInt counter)
    (printInt_ne_empty counter)]
  simp only
  rw [parseInt_printInt inRange]
  rfl

def isExpressionDelimiter (c : Char) : Bool := expressionDelimiters.toList.contains c

/-- A text that can be a token of an expression. -/
def IsWord (text : String) : Prop :=
  text ≠ "" ∧ ∀ c ∈ text.toList, isExpressionDelimiter c = false

instance (text : String) : Decidable (IsWord text) := inferInstanceAs (Decidable (_ ∧ _))

theorem IsWord.toList_ne_nil {text : String} (isWord : IsWord text) : text.toList ≠ [] :=
  fun empty => isWord.1 (String.toList_inj.mp (by simp [empty]))

/-- Only words are given values. -/
def NamesWords (symbolicValues : SymbolicMapping) : Prop :=
  ∀ name value, symbolicValues.lookup name = some value → IsWord name

def replaceRun (symbolicValues : SymbolicMapping) (run : List Char) : List Char :=
  (symbolicValueOf symbolicValues (String.ofList run)).toList

theorem updateExpression_toList (condition : String) (symbolicValues : SymbolicMapping) :
    (updateExpression condition symbolicValues).toList =
      Text.substitute isExpressionDelimiter (replaceRun symbolicValues) condition.toList := by
  have folded : ∀ (tokens : List (List Char)) (result : String),
      ((tokens.map String.ofList).foldl
        (fun result token => result ++ symbolicValueOf symbolicValues token) result).toList =
      result.toList ++ tokens.flatMap (replaceRun symbolicValues) := by
    intro tokens
    induction tokens with
    | nil => simp
    | cons token tokens induction =>
        intro result
        rw [List.map_cons, List.foldl_cons, induction, String.toList_append,
          List.append_assoc, List.flatMap_cons]
        rfl
  exact folded _ ""

theorem replaceRun_delimiter {symbolicValues : SymbolicMapping}
    (namesWords : NamesWords symbolicValues) (c : Char)
    (delimiter : isExpressionDelimiter c = true) :
    replaceRun symbolicValues [c] = [c] := by
  unfold replaceRun symbolicValueOf
  cases found : symbolicValues.lookup (String.ofList [c]) with
  | none => simp
  | some value =>
      have ordinary := (namesWords _ value found).2 c (by simp)
      rw [delimiter] at ordinary
      cases ordinary

end SymbolicExecution

end Symbolrt
