import Mathlib.Data.Real.Basic
import Symbolrt.Base.Action
import Symbolrt.Lib.Text

/-!
# Clock guards

A simple clock guard compares one clock with an integer constant and carries the
number of the clock in the clock list it was read against.  A clock guard is a
conjunction of simple ones.  Guards are printed and read back whenever a model
is copied, so the round trip at the end of this file is what every copy rests
on: it keeps the clocks, relations and constants and renumbers the clocks.
-/

namespace Symbolrt

/-- Two signs that are none of the documented relations.  The constructor of guards stores
them unchecked. -/
inductive UnsupportedRelation where
  | lessLess
  | lessGreater
  | equalLess
  | equalEqual
  | equalGreater
  | greaterLess
  | greaterGreater
  deriving DecidableEq, Repr

/-- The two signs as they are written. -/
def UnsupportedRelation.text : UnsupportedRelation → String
  | .lessLess => "<<"
  | .lessGreater => "<>"
  | .equalLess => "=<"
  | .equalEqual => "=="
  | .equalGreater => "=>"
  | .greaterLess => "><"
  | .greaterGreater => ">>"

/-- The five documented relations, and what else a text of one or two signs can be. -/
inductive Relation where
  | lt
  | leq
  | equal
  | geq
  | gt
  | unsupported (signs : UnsupportedRelation)
  deriving DecidableEq, Repr

namespace Relation

/-- The relation as it is written. -/
def text : Relation → String
  | .lt => "<"
  | .leq => "<="
  | .equal => "="
  | .geq => ">="
  | .gt => ">"
  | .unsupported signs => signs.text

/-- The texts of two signs that are no relation of the documentation. -/
def unsupportedRelations : List Relation :=
  [.lessLess, .lessGreater, .equalLess, .equalEqual, .equalGreater, .greaterLess,
    .greaterGreater].map unsupported

/-- The relation that a text of one or two signs stands for. -/
def ofText (text : String) : Option Relation :=
  ([lt, leq, equal, geq, gt] ++ unsupportedRelations).find? (fun relation => relation.text == text)

/-- The zone tool is given no bound for an unsupported relation. -/
def holds : Relation → ℝ → ℝ → Prop
  | .lt, value, bound => value < bound
  | .leq, value, bound => value ≤ bound
  | .equal, value, bound => value = bound
  | .geq, value, bound => value ≥ bound
  | .gt, value, bound => value > bound
  | .unsupported _, _, _ => True

/-- The relations whose negation is a relation again. -/
def IsNegatable (relation : Relation) : Prop := relation ∈ [leq, geq, lt, gt]

instance (relation : Relation) : Decidable relation.IsNegatable :=
  inferInstanceAs (Decidable (relation ∈ _))

end Relation

/-- Letters, digits and the underscore, the characters of an identifier. -/
def isNameChar (c : Char) : Bool := c.isAlphanum || c == '_'

/-- What the tokenizer of the source takes for a clock name. -/
def isName (text : String) : Bool :=
  !text.toList.isEmpty && text.toList.all isNameChar

/-- A nonempty text of digits. -/
def isNumeral (text : String) : Bool :=
  !text.toList.isEmpty && text.toList.all Char.isDigit

theorem isName_x : isName "x" = true := by decide

theorem isNumeral_zero : isNumeral "0" = true := by decide

theorem isNumeral_five : isNumeral "5" = true := by decide

/-- A simple guard `c # i`: the clock is an identifier, the relation one or two signs, the
constant a numeral. -/
structure SimpleClockGuard where
  clockId : Nat
  clock : String
  relation : Relation
  integerConstant : String
  clock_isName : isName clock = true
  integerConstant_isNumeral : isNumeral integerConstant = true
  deriving DecidableEq

/-- A conjunction of simple guards; none of them is the guard TRUE. -/
structure ClockGuard where
  clockGuard : List SimpleClockGuard
  deriving DecidableEq

/-- Position of a clock in a clock list, counted from one; zero if it is not
there. -/
def clockIdIn (allClocks : List String) (clock : String) : Nat :=
  if clock ∈ allClocks then allClocks.idxOf clock + 1 else 0

namespace SimpleClockGuard

/-- Clock, relation and constant with a blank between them. -/
def toString (guard : SimpleClockGuard) : String :=
  guard.clock ++ " " ++ guard.relation.text ++ " " ++ guard.integerConstant

/-- The same constraint, numbered against another clock list. -/
def renumber (allClocks : List String) (guard : SimpleClockGuard) :
    SimpleClockGuard :=
  { guard with clockId := clockIdIn allClocks guard.clock }

/-- The guard read as a formula about the clock of that name. -/
def holds (guard : SimpleClockGuard) (clocks : String → ℝ) : Prop :=
  guard.relation.holds (clocks guard.clock) (guard.integerConstant.toNat?.getD 0)

/-- The lines that the zone tool reads, two of them for an equality. -/
def toDBMFormat (guard : SimpleClockGuard) : String :=
  let clockId := Nat.repr guard.clockId
  let constant := guard.integerConstant
  let reference := Constants.dbmClockReference
  match guard.relation with
  | .leq => clockId ++ " " ++ reference ++ " " ++ constant ++ " " ++ Constants.dbmWeak
  | .lt => clockId ++ " " ++ reference ++ " " ++ constant ++ " " ++ Constants.dbmStrict
  | .equal =>
      clockId ++ " " ++ reference ++ " " ++ constant ++ " " ++ Constants.dbmWeak ++ "\n" ++
        reference ++ " " ++ clockId ++ " -" ++ constant ++ " " ++ Constants.dbmWeak
  | .geq => reference ++ " " ++ clockId ++ " -" ++ constant ++ " " ++ Constants.dbmWeak
  | .gt => reference ++ " " ++ clockId ++ " -" ++ constant ++ " " ++ Constants.dbmStrict
  | .unsupported _ => ""

end SimpleClockGuard

/-- The constraint made of the three parts of a token, `none` standing for parts
outside the documented form. -/
def SimpleClockGuard.ofParts (clockName relation integer : String)
    (allClocks : List String) : Option SimpleClockGuard :=
  match Relation.ofText relation with
  | none => none
  | some relation =>
      if valid : isName clockName = true ∧ isNumeral integer = true then
        some ⟨clockIdIn allClocks clockName, clockName, relation, integer,
          valid.1, valid.2⟩
      else
        none

/-- Reads one constraint: the relation is one sign or two. -/
def createSimpleClockGuard (token : String) (allClocks : List String) :
    Option SimpleClockGuard :=
  match Text.tokensWithDelimiters "<=>" token with
  | [clockName, first, second, integer] =>
      SimpleClockGuard.ofParts (Text.trim clockName) (Text.trim first ++ Text.trim second)
        (Text.trim integer) allClocks
  | [clockName, relation, integer] =>
      SimpleClockGuard.ofParts (Text.trim clockName) (Text.trim relation)
        (Text.trim integer) allClocks
  -- the source leaves the three fields null here
  | _ => none

namespace ClockGuard

/-- The guard of a transition without clock constraints. -/
def empty : ClockGuard := ⟨[]⟩

/-- The constructor that reads a guard text against a clock list. -/
def ofString (allClockGuard : String) (allClocks : List String) :
    Option ClockGuard :=
  if allClockGuard = Constants.guardTrue then
    some empty
  else
    ((Text.split " AND " allClockGuard).mapM
      (fun token => createSimpleClockGuard (Text.trim token) allClocks)).map mk

/-- The constraints with AND between them; the last separator is cut off. -/
def toString (guard : ClockGuard) : String :=
  if guard.clockGuard.length = 0 then
    Constants.guardTrue
  else
    let printed := guard.clockGuard.foldl
      (fun result simple =>
        result ++ (simple.toString ++ " " ++ Constants.guardConjunction ++ " ")) ""
    Text.takePrefix printed (printed.toList.length - 5)

/-- The lines of all constraints, one below the other. -/
def toDBMFormat (guard : ClockGuard) : String :=
  guard.clockGuard.foldl (fun result simple => result ++ (simple.toDBMFormat ++ "\n")) ""

/-- The guard as a model with these clocks reads its text. -/
def renumber (allClocks : List String) (guard : ClockGuard) : ClockGuard :=
  ⟨guard.clockGuard.map (SimpleClockGuard.renumber allClocks)⟩

/-- The conjunction of the simple guards, clocks taken by name. -/
def holds (guard : ClockGuard) (clocks : String → ℝ) : Prop :=
  ∀ simple ∈ guard.clockGuard, simple.holds clocks

theorem holds_renumber (allClocks : List String) (guard : ClockGuard)
    (clocks : String → ℝ) :
    (guard.renumber allClocks).holds clocks ↔ guard.holds clocks := by
  simp [renumber, holds, SimpleClockGuard.renumber, SimpleClockGuard.holds]

theorem renumber_eq_self {allClocks : List String} {guard : ClockGuard}
    (numbered : ∀ simple ∈ guard.clockGuard,
      simple.clockId = clockIdIn allClocks simple.clock) :
    guard.renumber allClocks = guard := by
  obtain ⟨guards⟩ := guard
  simp only [renumber, mk.injEq]
  refine (List.map_congr_left ?_).trans (List.map_id _)
  intro simple member
  rw [SimpleClockGuard.renumber, ← numbered simple member]
  rfl

end ClockGuard

theorem isNameChar_notBlank {c : Char} (nameChar : isNameChar c = true) :
    Text.isBlank c = false := by
  have spelled : isNameChar c = (((decide (c.val ≥ 'A'.val ∧ c.val ≤ 'Z'.val) ||
      decide (c.val ≥ 'a'.val) && decide (c.val ≤ 'z'.val)) ||
      decide (c.val ≥ '0'.val) && decide (c.val ≤ '9'.val)) || c == '_') := rfl
  simp only [spelled, Bool.or_eq_true, Bool.and_eq_true, decide_eq_true_eq, beq_iff_eq,
    ge_iff_le] at nameChar
  simp only [Text.isBlank, decide_eq_false_iff_not, UInt32.le_iff_toNat_le]
  rcases nameChar with ((upper | lower) | digit) | rfl
  · have := UInt32.le_iff_toNat_le.mp upper.1
    simp at this ⊢
    omega
  · have := UInt32.le_iff_toNat_le.mp lower.1
    simp at this ⊢
    omega
  · have := UInt32.le_iff_toNat_le.mp digit.1
    simp at this ⊢
    omega
  · decide

theorem isDigit_isNameChar {c : Char} (digit : c.isDigit = true) :
    isNameChar c = true := by
  simp [isNameChar, Char.isAlphanum, digit]

theorem isNameChar_ne {c other : Char} (nameChar : isNameChar c = true)
    (excluded : isNameChar other = false) : c ≠ other := by
  intro same
  rw [same, excluded] at nameChar
  exact absurd nameChar (by simp)

theorem isNameChar_ordinary {c : Char} (nameChar : isNameChar c = true) :
    "<=>".toList.contains c = false := by
  have less : c ≠ '<' := isNameChar_ne nameChar (by decide)
  have equal : c ≠ '=' := isNameChar_ne nameChar (by decide)
  have greater : c ≠ '>' := isNameChar_ne nameChar (by decide)
  simp [less, equal, greater]

theorem isName_chars {text : String} (name : isName text = true) :
    text.toList ≠ [] ∧ ∀ c ∈ text.toList, isNameChar c = true := by
  simp only [isName, Bool.and_eq_true, List.all_eq_true] at name
  exact ⟨by simpa using name.1, name.2⟩

theorem isNumeral_chars {text : String} (numeral : isNumeral text = true) :
    text.toList ≠ [] ∧ ∀ c ∈ text.toList, c.isDigit = true := by
  simp only [isNumeral, Bool.and_eq_true, List.all_eq_true] at numeral
  exact ⟨by simpa using numeral.1, numeral.2⟩

theorem Relation.ofText_text (relation : Relation) :
    Relation.ofText relation.text = some relation := by
  cases relation with
  | unsupported signs => cases signs <;> decide
  | _ => decide

theorem Relation.text_signs (relation : Relation) : ∃ first ∈ ['<', '=', '>'],
    relation.text.toList = [first] ∨
      ∃ second ∈ ['<', '=', '>'], relation.text.toList = [first, second] := by
  cases relation with
  | lt => exact ⟨'<', by simp, Or.inl (by decide)⟩
  | leq => exact ⟨'<', by simp, Or.inr ⟨'=', by simp, by decide⟩⟩
  | equal => exact ⟨'=', by simp, Or.inl (by decide)⟩
  | geq => exact ⟨'>', by simp, Or.inr ⟨'=', by simp, by decide⟩⟩
  | gt => exact ⟨'>', by simp, Or.inl (by decide)⟩
  | unsupported signs =>
      cases signs with
      | lessLess => exact ⟨'<', by simp, Or.inr ⟨'<', by simp, by decide⟩⟩
      | lessGreater => exact ⟨'<', by simp, Or.inr ⟨'>', by simp, by decide⟩⟩
      | equalLess => exact ⟨'=', by simp, Or.inr ⟨'<', by simp, by decide⟩⟩
      | equalEqual => exact ⟨'=', by simp, Or.inr ⟨'=', by simp, by decide⟩⟩
      | equalGreater => exact ⟨'=', by simp, Or.inr ⟨'>', by simp, by decide⟩⟩
      | greaterLess => exact ⟨'>', by simp, Or.inr ⟨'<', by simp, by decide⟩⟩
      | greaterGreater => exact ⟨'>', by simp, Or.inr ⟨'>', by simp, by decide⟩⟩

theorem Relation.sign_of_mem (relation : Relation) :
    ∀ c ∈ relation.text.toList, c ∈ ['<', '=', '>'] := by
  obtain ⟨first, isSign, single | ⟨second, secondIsSign, double⟩⟩ := relation.text_signs
  · rw [single]
    simpa using isSign
  · rw [double]
    simpa using And.intro isSign secondIsSign

namespace SimpleClockGuard

theorem clock_notBlank (guard : SimpleClockGuard) :
    ∀ c ∈ guard.clock.toList, Text.isBlank c = false := fun c member =>
  isNameChar_notBlank ((isName_chars guard.clock_isName).2 c member)

theorem constant_notBlank (guard : SimpleClockGuard) :
    ∀ c ∈ guard.integerConstant.toList, Text.isBlank c = false := fun c member =>
  isNameChar_notBlank (isDigit_isNameChar
    ((isNumeral_chars guard.integerConstant_isNumeral).2 c member))

theorem toString_toList (guard : SimpleClockGuard) :
    guard.toString.toList = guard.clock.toList ++
      (' ' :: (guard.relation.text.toList ++ (' ' :: guard.integerConstant.toList))) := by
  simp [toString]

/-- The clock and the constant of a printed guard are the tokens around its
relation signs. -/
theorem tokenRuns_printed (guard : SimpleClockGuard) {signs : List Char}
    (nonempty : signs ≠ []) (areSigns : ∀ c ∈ signs, c ∈ ['<', '=', '>']) :
    Text.tokenRuns ("<=>".toList.contains ·)
        (guard.clock.toList ++ (' ' :: (signs ++ (' ' :: guard.integerConstant.toList)))) =
      (guard.clock.toList ++ [' ']) ::
        (signs.map (fun c => [c]) ++ [' ' :: guard.integerConstant.toList]) := by
  have signDelimiter : ∀ c ∈ signs, "<=>".toList.contains c = true := by
    intro c member
    simpa using areSigns c member
  have clockWord : ∀ c ∈ guard.clock.toList ++ [' '],
      "<=>".toList.contains c = false := by
    intro c member
    rcases List.mem_append.mp member with inClock | space
    · exact isNameChar_ordinary ((isName_chars guard.clock_isName).2 c inClock)
    · rw [List.mem_singleton.mp space]
      decide
  have constantWord : ∀ c ∈ ' ' :: guard.integerConstant.toList,
      "<=>".toList.contains c = false := by
    intro c member
    rcases List.mem_cons.mp member with rfl | inConstant
    · decide
    · exact isNameChar_ordinary (isDigit_isNameChar
        ((isNumeral_chars guard.integerConstant_isNumeral).2 c inConstant))
  have constantRun : Text.tokenRuns ("<=>".toList.contains ·)
      (' ' :: guard.integerConstant.toList) = [' ' :: guard.integerConstant.toList] := by
    have lastWord := Text.tokenRuns_word (by simp) constantWord [] (by simp)
    rwa [List.append_nil, Text.tokenRuns_nil] at lastWord
  have signRuns : ∀ prefixSigns : List Char,
      (∀ c ∈ prefixSigns, "<=>".toList.contains c = true) →
      Text.tokenRuns ("<=>".toList.contains ·)
          (prefixSigns ++ (' ' :: guard.integerConstant.toList)) =
        prefixSigns.map (fun c => [c]) ++ [' ' :: guard.integerConstant.toList] := by
    intro prefixSigns delimiters
    induction prefixSigns with
    | nil => simpa using constantRun
    | cons head tail induction =>
        rw [List.cons_append, Text.tokenRuns_delimiter (delimiters head (by simp)),
          induction (fun c member => delimiters c (by simp [member]))]
        rfl
  have stop : ∀ c ∈ (signs ++ (' ' :: guard.integerConstant.toList)).head?,
      "<=>".toList.contains c = true := by
    obtain ⟨head, tail, rfl⟩ := List.exists_cons_of_ne_nil nonempty
    intro c member
    have same : head = c := by simpa using member
    exact same ▸ signDelimiter head (by simp)
  have reassociated : guard.clock.toList ++
      (' ' :: (signs ++ (' ' :: guard.integerConstant.toList))) =
      (guard.clock.toList ++ [' ']) ++
        (signs ++ (' ' :: guard.integerConstant.toList)) := by
    simp
  rw [reassociated, Text.tokenRuns_word (by simp) clockWord _ stop,
    signRuns signs signDelimiter]

theorem trim_clock (guard : SimpleClockGuard) :
    Text.trim (String.ofList (guard.clock.toList ++ [' '])) = guard.clock := by
  rw [Text.trim, String.toList_ofList,
    Text.trimChars_append_blank (by decide) guard.clock_notBlank, String.ofList_toList]

theorem trim_constant (guard : SimpleClockGuard) :
    Text.trim (String.ofList (' ' :: guard.integerConstant.toList)) =
      guard.integerConstant := by
  have dropped : Text.trimChars ([' '] ++ guard.integerConstant.toList) =
      Text.trimChars guard.integerConstant.toList :=
    Text.trimChars_blank_append (by decide)
  rw [Text.trim, String.toList_ofList]
  rw [List.singleton_append] at dropped
  rw [dropped, Text.trimChars_eq_self guard.constant_notBlank, String.ofList_toList]

theorem ofParts_self (guard : SimpleClockGuard) (allClocks : List String) :
    SimpleClockGuard.ofParts guard.clock guard.relation.text guard.integerConstant
      allClocks = some (guard.renumber allClocks) := by
  simp [ofParts, Relation.ofText_text, guard.clock_isName,
    guard.integerConstant_isNumeral, renumber]

/-- Reading the signs of a relation between a clock and a constant token. -/
theorem create_tokens (relation : Relation) (clockToken constantToken token : String)
    (allClocks : List String)
    (tokens : Text.tokensWithDelimiters "<=>" token =
      clockToken :: (relation.text.toList.map (fun c => String.ofList [c]) ++
        [constantToken])) :
    createSimpleClockGuard token allClocks =
      ofParts (Text.trim clockToken) relation.text (Text.trim constantToken)
        allClocks := by
  have trimmed : ∀ c ∈ ['<', '=', '>'], Text.trim (String.ofList [c]) = String.ofList [c] := by
    decide
  obtain ⟨first, isSign, single | ⟨second, secondIsSign, double⟩⟩ := relation.text_signs
  · have text : relation.text = String.ofList [first] := by
      rw [← single, String.ofList_toList]
    rw [createSimpleClockGuard, tokens, single, text]
    simp only [List.map_cons, List.map_nil, List.singleton_append, trimmed first isSign]
  · have text : relation.text = String.ofList [first] ++ String.ofList [second] := by
      rw [← String.ofList_append, List.singleton_append, ← double, String.ofList_toList]
    rw [createSimpleClockGuard, tokens, double, text]
    simp only [List.map_cons, List.map_nil, List.cons_append, List.nil_append,
      trimmed first isSign, trimmed second secondIsSign]

theorem create_toString (guard : SimpleClockGuard) (allClocks : List String) :
    createSimpleClockGuard guard.toString allClocks =
      some (guard.renumber allClocks) := by
  have tokens : Text.tokensWithDelimiters "<=>" guard.toString =
      String.ofList (guard.clock.toList ++ [' ']) ::
        (guard.relation.text.toList.map (fun c => String.ofList [c]) ++
          [String.ofList (' ' :: guard.integerConstant.toList)]) := by
    rw [Text.tokensWithDelimiters, toString_toList, tokenRuns_printed guard]
    · simp only [List.map_cons, List.map_append, List.map_map, List.map_nil]
      rfl
    · obtain ⟨first, _, single | ⟨second, _, double⟩⟩ := guard.relation.text_signs
      · exact single ▸ List.cons_ne_nil _ _
      · exact double ▸ List.cons_ne_nil _ _
    · exact guard.relation.sign_of_mem
  rw [create_tokens guard.relation _ _ _ allClocks tokens, trim_clock, trim_constant,
    ofParts_self]

end SimpleClockGuard

namespace ClockGuard

/-- The separator of the printed constraints. -/
def conjunctionChars : List Char := [' ', 'A', 'N', 'D', ' ']

theorem conjunction_toList : " AND ".toList = conjunctionChars := by decide

theorem printed_toList (guards : List SimpleClockGuard) (result : String) :
    (guards.foldl
      (fun result simple =>
        result ++ (simple.toString ++ " " ++ Constants.guardConjunction ++ " "))
      result).toList =
      result.toList ++ guards.flatMap (fun simple =>
        simple.toString.toList ++ conjunctionChars) := by
  induction guards generalizing result with
  | nil => simp
  | cons head tail induction =>
      rw [List.foldl_cons, induction]
      simp [Constants.guardConjunction, conjunctionChars]

theorem flatMap_eq_intercalate (first : SimpleClockGuard)
    (others : List SimpleClockGuard) :
    (first :: others).flatMap (fun simple =>
        simple.toString.toList ++ conjunctionChars) =
      conjunctionChars.intercalate
        ((first :: others).map (fun simple => simple.toString.toList)) ++
        conjunctionChars := by
  induction others generalizing first with
  | nil => simp [List.intercalate]
  | cons second others induction =>
      rw [List.flatMap_cons, induction second]
      simp [List.intercalate]

theorem toString_toList (first : SimpleClockGuard) (others : List SimpleClockGuard) :
    (toString ⟨first :: others⟩).toList =
      conjunctionChars.intercalate
        ((first :: others).map (fun simple => simple.toString.toList)) := by
  have printed := printed_toList (first :: others) ""
  rw [flatMap_eq_intercalate] at printed
  simp only [toString, List.length_cons, Nat.add_eq_zero_iff, one_ne_zero, and_false,
    ↓reduceIte, Text.takePrefix, String.toList_ofList]
  rw [printed]
  simp [conjunctionChars]

/-- The text of a simple guard is no place for the conjunction to start. -/
theorem noMatchIn_simple (simple : SimpleClockGuard) {rest : List Char} :
    Text.NoMatchIn conjunctionChars simple.toString.toList rest := by
  have clockChars := isName_chars simple.clock_isName
  have constantChars := isNumeral_chars simple.integerConstant_isNumeral
  have constantEnd :
      Text.NoMatchIn conjunctionChars simple.integerConstant.toList rest := by
    have absent : ' ' ∉ simple.integerConstant.toList := by
      intro member
      exact absurd (constantChars.2 ' ' member) (by decide)
    have ended := (Text.noMatchIn_nil conjunctionChars rest).word absent
    rwa [List.append_nil] at ended
  have spaceConstant : Text.NoMatchIn conjunctionChars
      (' ' :: simple.integerConstant.toList) rest := by
    apply Text.NoMatchIn.cons ?_ constantEnd
    obtain ⟨digit, digits, constant⟩ := List.exists_cons_of_ne_nil constantChars.1
    have isDigit := constantChars.2 digit (by simp [constant])
    intro matched
    rw [constant] at matched
    have same : 'A' = digit :=
      (List.cons_prefix_cons.mp (List.cons_prefix_cons.mp matched).2).1
    rw [← same] at isDigit
    exact absurd isDigit (by decide)
  have relationPart : Text.NoMatchIn conjunctionChars
      (simple.relation.text.toList ++ (' ' :: simple.integerConstant.toList)) rest := by
    apply spaceConstant.word
    intro blank
    exact absurd (simple.relation.sign_of_mem ' ' blank) (by decide)
  have spaceRelation : Text.NoMatchIn conjunctionChars
      (' ' :: (simple.relation.text.toList ++
        (' ' :: simple.integerConstant.toList))) rest := by
    apply Text.NoMatchIn.cons ?_ relationPart
    intro matched
    have second := (List.cons_prefix_cons.mp matched).2
    obtain ⟨sign, isSign, single | ⟨other, _, double⟩⟩ := simple.relation.text_signs
    · rw [single] at second
      exact absurd ((List.cons_prefix_cons.mp second).1 ▸ isSign) (by decide)
    · rw [double] at second
      exact absurd ((List.cons_prefix_cons.mp second).1 ▸ isSign) (by decide)
  rw [SimpleClockGuard.toString_toList]
  apply spaceRelation.word
  intro member
  exact absurd (clockChars.2 ' ' member) (by decide)

theorem simple_nonempty (simple : SimpleClockGuard) : simple.toString.toList ≠ [] := by
  rw [SimpleClockGuard.toString_toList]
  simp

theorem split_toString (first : SimpleClockGuard) (others : List SimpleClockGuard) :
    Text.split " AND " (toString ⟨first :: others⟩) =
      (first :: others).map SimpleClockGuard.toString := by
  have joined := toString_toList first others
  rw [← conjunction_toList, List.map_cons] at joined
  rw [Text.split_intercalate (by decide) joined]
  · simp [Function.comp_def]
  · intro item member rest _
    obtain ⟨simple, _, rfl⟩ : ∃ simple ∈ first :: others,
        simple.toString.toList = item := by
      simpa [eq_comm] using member
    rw [conjunction_toList]
    exact noMatchIn_simple simple
  · intro item member
    obtain ⟨simple, _, rfl⟩ : ∃ simple ∈ first :: others,
        simple.toString.toList = item := by
      simpa [eq_comm] using member
    exact simple_nonempty simple

theorem toString_renumber (guard : ClockGuard) (allClocks : List String) :
    (guard.renumber allClocks).toString = guard.toString := by
  obtain ⟨guards⟩ := guard
  cases guards with
  | nil => rfl
  | cons first others =>
      apply String.toList_injective
      rw [renumber, List.map_cons, toString_toList, toString_toList]
      simp [SimpleClockGuard.renumber, SimpleClockGuard.toString, Function.comp_def]

theorem toString_ne (first : SimpleClockGuard) (others : List SimpleClockGuard)
    {text : String} (plain : ' ' ∉ text.toList) : toString ⟨first :: others⟩ ≠ text := by
  intro same
  have spaceInside : ' ' ∈ (toString ⟨first :: others⟩).toList := by
    rw [toString_toList, List.map_cons, SimpleClockGuard.toString_toList]
    cases others <;> simp [List.intercalate]
  rw [same] at spaceInside
  exact plain spaceInside

theorem toString_ne_true (first : SimpleClockGuard) (others : List SimpleClockGuard) :
    toString ⟨first :: others⟩ ≠ Constants.guardTrue :=
  toString_ne first others (by decide)

theorem toString_ne_false (guard : ClockGuard) : guard.toString ≠ Constants.guardFalse := by
  obtain ⟨guards⟩ := guard
  cases guards with
  | nil => decide
  | cons first others => exact toString_ne first others (by decide)

theorem toString_eq_true_iff (guard : ClockGuard) :
    guard.toString = Constants.guardTrue ↔ guard = empty := by
  obtain ⟨guards⟩ := guard
  cases guards with
  | nil => simp [toString, empty]
  | cons first others => simp [toString_ne_true, empty]

theorem trim_simple (simple : SimpleClockGuard) :
    Text.trim simple.toString = simple.toString := by
  obtain ⟨head, clockTail, clock⟩ :=
    List.exists_cons_of_ne_nil (isName_chars simple.clock_isName).1
  have constantChars := isNumeral_chars simple.integerConstant_isNumeral
  have constant := (List.dropLast_append_getLast constantChars.1).symm
  have headKept : Text.isBlank head = false :=
    simple.clock_notBlank head (by simp [clock])
  have lastKept : Text.isBlank (simple.integerConstant.toList.getLast constantChars.1) =
      false :=
    simple.constant_notBlank _ (List.getLast_mem constantChars.1)
  have shape : simple.toString.toList =
      head :: ((clockTail ++ (' ' :: (simple.relation.text.toList ++
        (' ' :: simple.integerConstant.toList.dropLast)))) ++
          [simple.integerConstant.toList.getLast constantChars.1]) := by
    rw [SimpleClockGuard.toString_toList, clock]
    conv_lhs => rw [constant]
    simp
  rw [Text.trim, shape, Text.trimChars_of_ends headKept lastKept, ← shape,
    String.ofList_toList]

/-- Reading a printed guard against a clock list gives the same guard, numbered
by that list. -/
theorem ofString_toString (guard : ClockGuard) (allClocks : List String) :
    ofString guard.toString allClocks = some (guard.renumber allClocks) := by
  obtain ⟨guards⟩ := guard
  cases guards with
  | nil => rfl
  | cons first others =>
      have read : (Text.split " AND " (toString ⟨first :: others⟩)).mapM
          (fun token => createSimpleClockGuard (Text.trim token) allClocks) =
          some ((first :: others).map (SimpleClockGuard.renumber allClocks)) := by
        rw [split_toString]
        generalize first :: others = guards
        induction guards with
        | nil => rfl
        | cons head tail induction =>
            rw [List.map_cons, List.mapM_cons, trim_simple,
              SimpleClockGuard.create_toString, induction]
            rfl
      simp [ofString, toString_ne_true, read, renumber]

example : (ofString "x => 5" ["x"]).map (fun guard =>
    guard.clockGuard.map SimpleClockGuard.relation) = some [.unsupported .equalGreater] := by
  decide

end ClockGuard

end Symbolrt
