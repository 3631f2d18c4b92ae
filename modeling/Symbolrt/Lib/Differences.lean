import Mathlib.Data.Real.Basic
import Mathlib.Data.Set.Lattice
import Std.Data.String.ToInt
import Symbolrt.Lib.Text

/-!
# Difference constraints

Bounds on the differences of numbered values, the zones they cut out, and the text
format with one bound a line: the two numbers, the bound, and whether it can be met.
A zone is described by a list of bounds, and a list of lists by their concatenation.
-/

namespace Differences

/-- A bound on the difference of two numbered values, weak if it can be met. -/
structure Difference where
  left : Nat
  right : Nat
  bound : Int
  isWeak : Bool
  deriving DecidableEq, Repr

def Difference.holds (values : Nat → ℝ) (difference : Difference) : Prop :=
  if difference.isWeak then values difference.left - values difference.right ≤ difference.bound
  else values difference.left - values difference.right < difference.bound

/-- The values within all bounds. -/
def zone (differences : List Difference) : Set (Nat → ℝ) :=
  {values | ∀ difference ∈ differences, difference.holds values}

@[simp] theorem mem_zone {values : Nat → ℝ} {differences : List Difference} :
    values ∈ zone differences ↔ ∀ difference ∈ differences, difference.holds values := Iff.rfl

theorem zone_append (differences others : List Difference) :
    zone (differences ++ others) = zone differences ∩ zone others := by
  ext values
  exact List.forall_mem_append

theorem mem_zone_flatMap {α : Type} {values : Nat → ℝ} {items : List α}
    {bounds : α → List Difference} :
    values ∈ zone (items.flatMap bounds) ↔ ∀ item ∈ items, values ∈ zone (bounds item) := by
  induction items with
  | nil => simp
  | cons item items induction =>
      rw [List.flatMap_cons, zone_append, List.forall_mem_cons, ← induction]
      rfl

/-- Whether a bound can be met is written as a digit. -/
def readStrictness (sign : String) : Option Bool :=
  if sign = "1" then some true else if sign = "0" then some false else none

/-- The bound that is written on a line. -/
def readLine (line : String) : Option Difference :=
  match Text.tokens " " line with
  | [left, right, bound, sign] => do
      let left ← left.toNat?
      let right ← right.toNat?
      let bound ← bound.toInt?
      let isWeak ← readStrictness sign
      return ⟨left, right, bound, isWeak⟩
  | _ => none

/-- The lines of a text that are not empty. -/
def lines (text : String) : List String := Text.tokens "\n" text

/-- The values are within the bound of a line. -/
def SatisfiesLine (values : Nat → ℝ) (line : String) : Prop :=
  ∃ difference, readLine line = some difference ∧ difference.holds values

/-- The text is one line, and a bound is read from it. -/
structure Writes (line : String) (difference : Difference) : Prop where
  read : readLine line = some difference
  nonempty : line ≠ ""
  single : '\n' ∉ line.toList

theorem Writes.satisfies_iff {values : Nat → ℝ} {line : String} {difference : Difference}
    (writes : Writes line difference) : SatisfiesLine values line ↔ difference.holds values := by
  rw [SatisfiesLine, writes.read]
  simp

section Tokens

variable {delimiters : String} {delimiter : Char}

theorem filter_word {word : List Char}
    (ordinary : ∀ c ∈ word, delimiters.toList.contains c = false) (runs : List (List Char)) :
    (word :: runs).filter (fun run => !run.any (delimiters.toList.contains ·)) =
      word :: runs.filter (fun run => !run.any (delimiters.toList.contains ·)) := by
  apply List.filter_cons_of_pos
  have none : word.any (delimiters.toList.contains ·) = false := by
    rw [List.any_eq_false]
    intro c member
    rw [ordinary c member]
    exact Bool.false_ne_true
  exact congrArg Bool.not none

/-- The tokens of a word, a delimiter and what follows. -/
theorem tokens_cons {word rest : List Char} (nonempty : word ≠ [])
    (ordinary : ∀ c ∈ word, delimiters.toList.contains c = false)
    (isDelimiter : delimiters.toList.contains delimiter = true) :
    Text.tokens delimiters (String.ofList (word ++ delimiter :: rest)) =
      String.ofList word :: Text.tokens delimiters (String.ofList rest) := by
  have stop : ∀ c ∈ (delimiter :: rest).head?, delimiters.toList.contains c = true := by
    intro c member
    rw [← Option.some.inj member]
    exact isDelimiter
  rw [Text.tokens, Text.tokens, String.toList_ofList, String.toList_ofList,
    Text.tokenRuns_word nonempty ordinary _ stop, Text.tokenRuns_delimiter isDelimiter,
    filter_word ordinary, List.filter_cons_of_neg (by simpa using isDelimiter)]
  rfl

theorem tokens_word {word : List Char} (nonempty : word ≠ [])
    (ordinary : ∀ c ∈ word, delimiters.toList.contains c = false) :
    Text.tokens delimiters (String.ofList word) = [String.ofList word] := by
  have runs := Text.tokenRuns_word nonempty ordinary [] (by simp)
  rw [List.append_nil, Text.tokenRuns_nil] at runs
  rw [Text.tokens, String.toList_ofList, runs, filter_word ordinary]
  rfl

/-- A text of lines, each with its end. -/
def join (texts : List String) : String :=
  String.ofList (texts.flatMap (fun text => text.toList ++ ['\n']))

/-- The lines carry the bounds; an empty line carries none. -/
inductive AreWritten : List String → List Difference → Prop where
  | nil : AreWritten [] []
  | empty {texts : List String} {differences : List Difference} :
      AreWritten texts differences → AreWritten ("" :: texts) differences
  | line {text : String} {difference : Difference} {texts : List String}
      {differences : List Difference} :
      Writes text difference → AreWritten texts differences →
        AreWritten (text :: texts) (difference :: differences)

theorem AreWritten.append {texts others : List String}
    {differences otherDifferences : List Difference} (written : AreWritten texts differences)
    (otherWritten : AreWritten others otherDifferences) :
    AreWritten (texts ++ others) (differences ++ otherDifferences) := by
  induction written with
  | nil => exact otherWritten
  | empty _ induction => exact .empty induction
  | line writes _ induction => exact .line writes induction

theorem lines_join_cons {text : String} {difference : Difference}
    (writes : Writes text difference) (texts : List String) :
    lines (join (text :: texts)) = text :: lines (join texts) := by
  have ordinary : ∀ c ∈ text.toList, "\n".toList.contains c = false := by
    intro c member
    have different : c ≠ '\n' := fun same => writes.single (same ▸ member)
    simpa using different
  have shape : (text :: texts).flatMap (fun text => text.toList ++ ['\n']) =
      text.toList ++ '\n' :: texts.flatMap (fun text => text.toList ++ ['\n']) := by
    rw [List.flatMap_cons, List.append_assoc]
    rfl
  have nonempty : text.toList ≠ [] :=
    fun empty => writes.nonempty (String.toList_eq_nil_iff.mp empty)
  rw [lines, join, shape, tokens_cons nonempty ordinary (by decide), String.ofList_toList]
  rfl

theorem lines_join_empty (texts : List String) :
    lines (join ("" :: texts)) = lines (join texts) := by
  have shape : (join ("" :: texts)).toList = '\n' :: (join texts).toList := by
    rw [join, join, String.toList_ofList, String.toList_ofList, List.flatMap_cons]
    rfl
  rw [lines, Text.tokens, shape, Text.tokenRuns_delimiter (by decide)]
  rfl

/-- The lines of a text are satisfied in the zone of the bounds written on them. -/
theorem satisfies_join_iff {values : Nat → ℝ} {texts : List String}
    {differences : List Difference} (written : AreWritten texts differences) :
    (∀ line ∈ lines (join texts), SatisfiesLine values line) ↔ values ∈ zone differences := by
  induction written with
  | nil =>
      have none : lines (join []) = [] := rfl
      rw [none]
      simp
  | empty _ induction =>
      rw [lines_join_empty]
      exact induction
  | line writes _ induction =>
      rw [lines_join_cons writes, List.forall_mem_cons, writes.satisfies_iff, induction,
        mem_zone, mem_zone, List.forall_mem_cons]

end Tokens

/-- The line of a bound that is given as text. -/
def writeLine (left right bound sign : String) : String :=
  left ++ " " ++ right ++ " " ++ bound ++ " " ++ sign

section Writing

variable {left right text sign : String} {leftNumber rightNumber : Nat} {bound : Int}
  {isWeak : Bool}

/-- The characters of numerals. -/
def isNumeralChar (c : Char) : Bool := c.isDigit || c == '_' || c == '-'

theorem numeral_of_isNat (isNat : text.isNat = true) :
    text.toList ≠ [] ∧ ∀ c ∈ text.toList, isNumeralChar c = true := by
  obtain ⟨nonempty, chars, _⟩ := String.isNat_iff.mp isNat
  refine ⟨fun empty => nonempty (String.toList_eq_nil_iff.mp empty), ?_⟩
  intro c member
  rcases chars c member with digit | rfl
  · simp [isNumeralChar, digit]
  · rfl

theorem numeral_of_toInt? (read : text.toInt? = some bound) :
    text.toList ≠ [] ∧ ∀ c ∈ text.toList, isNumeralChar c = true := by
  rcases String.isInt_iff.mp (String.isInt_of_toInt?_eq_some read) with isNat | ⟨rest, rfl, isNat⟩
  · exact numeral_of_isNat isNat
  · have whole : ("-" ++ rest).toList = '-' :: rest.toList := by simp
    rw [whole]
    refine ⟨List.cons_ne_nil _ _, ?_⟩
    intro c member
    rcases List.mem_cons.mp member with rfl | inRest
    · rfl
    · exact (numeral_of_isNat isNat).2 c inRest

theorem numeral_of_toNat? (read : text.toNat? = some leftNumber) :
    text.toList ≠ [] ∧ ∀ c ∈ text.toList, isNumeralChar c = true :=
  numeral_of_isNat (String.isNat_of_toNat?_eq_some read)

theorem numeral_of_readStrictness (read : readStrictness sign = some isWeak) :
    sign.toList ≠ [] ∧ ∀ c ∈ sign.toList, isNumeralChar c = true := by
  rw [readStrictness] at read
  split at read
  · rename_i weak
    rw [weak]
    exact ⟨by decide, by decide⟩
  · split at read
    · rename_i strict
      rw [strict]
      exact ⟨by decide, by decide⟩
    · cases read

theorem not_blank_of_isNumeralChar {c : Char} (numeral : isNumeralChar c = true) :
    " ".toList.contains c = false ∧ c ≠ '\n' := by
  constructor
  · have different : c ≠ ' ' := by
      rintro rfl
      cases numeral
    simpa using different
  · rintro rfl
    cases numeral

/-- A written line is read as its bound. -/
theorem writes_writeLine (leftRead : left.toNat? = some leftNumber)
    (rightRead : right.toNat? = some rightNumber) (boundRead : text.toInt? = some bound)
    (signRead : readStrictness sign = some isWeak) :
    Writes (writeLine left right text sign) ⟨leftNumber, rightNumber, bound, isWeak⟩ := by
  have plain : ∀ {word : List Char}, (∀ c ∈ word, isNumeralChar c = true) →
      ∀ c ∈ word, " ".toList.contains c = false :=
    fun numeral c member => (not_blank_of_isNumeralChar (numeral c member)).1
  have noEnd : ∀ {word : List Char}, (∀ c ∈ word, isNumeralChar c = true) → '\n' ∉ word :=
    fun numeral member => (not_blank_of_isNumeralChar (numeral _ member)).2 rfl
  obtain ⟨leftNonempty, leftChars⟩ := numeral_of_toNat? leftRead
  obtain ⟨rightNonempty, rightChars⟩ := numeral_of_toNat? rightRead
  obtain ⟨boundNonempty, boundChars⟩ := numeral_of_toInt? boundRead
  obtain ⟨signNonempty, signChars⟩ := numeral_of_readStrictness signRead
  have chars : (writeLine left right text sign).toList = left.toList ++ ' ' ::
      (right.toList ++ ' ' :: (text.toList ++ ' ' :: sign.toList)) := by
    simp [writeLine]
  have words : Text.tokens " " (writeLine left right text sign) = [left, right, text, sign] := by
    rw [← String.ofList_toList (s := writeLine left right text sign), chars,
      tokens_cons leftNonempty (plain leftChars) (by decide),
      tokens_cons rightNonempty (plain rightChars) (by decide),
      tokens_cons boundNonempty (plain boundChars) (by decide),
      tokens_word signNonempty (plain signChars)]
    simp
  constructor
  · rw [readLine, words]
    simp [leftRead, rightRead, boundRead, signRead]
  · intro empty
    rw [empty] at chars
    have impossible := congrArg List.length chars
    simp at impossible
  · rw [chars]
    simp [noEnd leftChars, noEnd rightChars, noEnd boundChars, noEnd signChars]

end Writing

end Differences
