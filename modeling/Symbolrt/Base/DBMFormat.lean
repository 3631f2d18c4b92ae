import Symbolrt.Base.GuardCopies
import Symbolrt.Lib.Differences

/-!
# Clock guards as difference constraints

The zones of the symbolic execution are computed by a tool that reads a clock guard as
lines of bounds on differences of numbered clocks, the clock of number zero being the
reference.  The values that satisfy these lines are those that satisfy the guard.
-/

namespace Symbolrt

open Differences

namespace SimpleClockGuard

/-- The integer constant as a number. -/
def bound (guard : SimpleClockGuard) : Nat := guard.integerConstant.toNat?.getD 0

/-- The guard read as a formula about the clock of that number. -/
def holdsAt (guard : SimpleClockGuard) (values : Nat → ℝ) : Prop :=
  guard.relation.holds (values guard.clockId) guard.bound

/-- The bounds that a guard stands for. -/
def differences (guard : SimpleClockGuard) : List Difference :=
  match guard.relation with
  | .leq => [⟨guard.clockId, 0, guard.bound, true⟩]
  | .lt => [⟨guard.clockId, 0, guard.bound, false⟩]
  | .equal => [⟨guard.clockId, 0, guard.bound, true⟩, ⟨0, guard.clockId, -guard.bound, true⟩]
  | .geq => [⟨0, guard.clockId, -guard.bound, true⟩]
  | .gt => [⟨0, guard.clockId, -guard.bound, false⟩]
  | .unsupported _ => []

/-- The lines that a guard is written on. -/
def dbmLines (guard : SimpleClockGuard) : List String :=
  let upper := writeLine guard.clockId.repr Constants.dbmClockReference guard.integerConstant
  let lower := writeLine Constants.dbmClockReference guard.clockId.repr
    ("-" ++ guard.integerConstant)
  match guard.relation with
  | .leq => [upper Constants.dbmWeak]
  | .lt => [upper Constants.dbmStrict]
  | .equal => [upper Constants.dbmWeak, lower Constants.dbmWeak]
  | .geq => [lower Constants.dbmWeak]
  | .gt => [lower Constants.dbmStrict]
  | .unsupported _ => [""]

section Bounds

variable {values : Nat → ℝ} (guard : SimpleClockGuard)

theorem holdsAt_iff (reference : values 0 = 0) :
    guard.holdsAt values ↔ values ∈ zone guard.differences := by
  rw [holdsAt, differences]
  cases guard.relation with
  | leq =>
      simp only [Relation.holds, mem_zone, List.forall_mem_singleton, Difference.holds,
        reference, if_true, sub_zero]
      norm_cast
  | lt =>
      simp only [Relation.holds, mem_zone, List.forall_mem_singleton, Difference.holds,
        reference, sub_zero]
      norm_cast
  | equal =>
      simp only [Relation.holds, mem_zone, List.forall_mem_cons, Difference.holds, reference,
        if_true, sub_zero, zero_sub]
      push_cast
      constructor
      · intro same
        exact ⟨le_of_eq same, neg_le_neg (ge_of_eq same), by simp⟩
      · rintro ⟨upper, lower, _⟩
        exact le_antisymm upper (neg_le_neg_iff.mp lower)
  | geq =>
      simp only [Relation.holds, mem_zone, List.forall_mem_singleton, Difference.holds,
        reference, if_true, zero_sub]
      push_cast
      exact neg_le_neg_iff.symm
  | gt =>
      simp only [Relation.holds, mem_zone, List.forall_mem_singleton, Difference.holds,
        reference, zero_sub]
      push_cast
      exact neg_lt_neg_iff.symm
  | unsupported signs =>
      exact iff_of_true trivial (fun difference member => absurd member List.not_mem_nil)

theorem integerConstant_toNat? : guard.integerConstant.toNat? = some guard.bound := by
  obtain ⟨nonempty, digits⟩ := isNumeral_chars guard.integerConstant_isNumeral
  have isNat : guard.integerConstant.isNat = true := by
    apply String.isNat_of_isDigit
    · intro empty
      exact nonempty (String.toList_eq_nil_iff.mpr empty)
    · exact digits
  obtain ⟨number, read⟩ := Option.isSome_iff_exists.mp (String.isSome_toNat?.trans isNat)
  rw [bound, read]
  rfl

theorem dbmLines_written : AreWritten guard.dbmLines guard.differences := by
  have number : guard.clockId.repr.toNat? = some guard.clockId := Nat.toNat?_repr _
  have reference : Constants.dbmClockReference.toNat? = some 0 := Nat.toNat?_repr 0
  have weak : readStrictness Constants.dbmWeak = some true := rfl
  have strict : readStrictness Constants.dbmStrict = some false := rfl
  have constant := guard.integerConstant_toNat?
  have above : guard.integerConstant.toInt? = some (guard.bound : Int) :=
    String.toInt?_eq_some_of_toNat?_eq_some constant
  have below : ("-" ++ guard.integerConstant).toInt? = some (-(guard.bound : Int)) := by
    rw [String.toInt?_minus_append, constant]
    rfl
  rw [dbmLines, differences]
  cases guard.relation with
  | leq => exact .line (writes_writeLine number reference above weak) .nil
  | lt => exact .line (writes_writeLine number reference above strict) .nil
  | equal =>
      exact .line (writes_writeLine number reference above weak)
        (.line (writes_writeLine reference number below weak) .nil)
  | geq => exact .line (writes_writeLine reference number below weak) .nil
  | gt => exact .line (writes_writeLine reference number below strict) .nil
  | unsupported signs => exact .empty .nil

theorem toDBMFormat_toList :
    guard.toDBMFormat.toList ++ ['\n'] =
      guard.dbmLines.flatMap (fun text => text.toList ++ ['\n']) := by
  rw [toDBMFormat, dbmLines]
  cases guard.relation <;> simp [writeLine]

end Bounds

end SimpleClockGuard

namespace ClockGuard

/-- All constraints hold at the values of the numbered clocks. -/
def holdsAt (guard : ClockGuard) (values : Nat → ℝ) : Prop :=
  ∀ simple ∈ guard.clockGuard, simple.holdsAt values

/-- The bounds of all constraints. -/
def differences (guard : ClockGuard) : List Difference :=
  guard.clockGuard.flatMap SimpleClockGuard.differences

/-- The printed lines of all constraints. -/
def dbmLines (guard : ClockGuard) : List String :=
  guard.clockGuard.flatMap SimpleClockGuard.dbmLines

section Bounds

variable {values : Nat → ℝ} (guard : ClockGuard)

theorem holdsAt_iff (reference : values 0 = 0) :
    guard.holdsAt values ↔ values ∈ zone guard.differences := by
  rw [differences, mem_zone_flatMap, holdsAt]
  exact forall₂_congr (fun simple _ => simple.holdsAt_iff reference)

theorem dbmLines_written : AreWritten guard.dbmLines guard.differences := by
  obtain ⟨guards⟩ := guard
  rw [dbmLines, differences]
  induction guards with
  | nil => exact .nil
  | cons first rest induction =>
      rw [List.flatMap_cons, List.flatMap_cons]
      exact first.dbmLines_written.append induction

theorem toDBMFormat_eq : guard.toDBMFormat = join guard.dbmLines := by
  have printed : ∀ (guards : List SimpleClockGuard) (result : String),
      (guards.foldl (fun result simple => result ++ (simple.toDBMFormat ++ "\n"))
        result).toList =
        result.toList ++ (guards.flatMap SimpleClockGuard.dbmLines).flatMap
          (fun text => text.toList ++ ['\n']) := by
    intro guards
    induction guards with
    | nil => simp
    | cons first rest induction =>
        intro result
        have line : (first.toDBMFormat ++ "\n").toList = _ :=
          String.toList_append.trans first.toDBMFormat_toList
        rw [List.foldl_cons, induction, String.toList_append, line, List.flatMap_cons,
          List.flatMap_append, List.append_assoc]
  apply String.toList_injective
  rw [toDBMFormat, printed guard.clockGuard ""]
  exact String.toList_ofList.symm

theorem satisfiesLines_iff : (∀ line ∈ lines guard.toDBMFormat, SatisfiesLine values line) ↔
    values ∈ zone guard.differences := by
  rw [guard.toDBMFormat_eq]
  exact satisfies_join_iff guard.dbmLines_written

end Bounds

/-- A valuation that gives the reference zero satisfies a guard exactly if it satisfies
all lines that the guard is written on. -/
theorem toDBMFormat_satisfied_iff (guard : ClockGuard) (values : Nat → ℝ)
    (reference : values 0 = 0) :
    guard.holdsAt values ↔ ∀ line ∈ lines guard.toDBMFormat, SatisfiesLine values line :=
  (guard.holdsAt_iff reference).trans guard.satisfiesLines_iff.symm

/-- `x = 5` in a clock list that starts with `x`, at the time five. -/
theorem toDBMFormat_satisfied_five : ∃ guard : ClockGuard,
    guard.toDBMFormat = "1 0 5 1\n0 1 -5 1\n" ∧
      (guard.holdsAt (fun number => 5 * number) ↔
        ∀ line ∈ lines guard.toDBMFormat, SatisfiesLine (fun number => 5 * number) line) := by
  let guard : ClockGuard := ⟨[⟨1, "x", .equal, "5", by decide, by decide⟩]⟩
  exact ⟨guard, by decide, toDBMFormat_satisfied_iff guard _ (by norm_num)⟩

/-- The values of numbered clocks; the numbers are the positions in the list. -/
def valuesIn (allClocks : List String) (clocks : String → ℝ) : Nat → ℝ
  | 0 => 0
  | position + 1 => (allClocks[position]?).elim 0 clocks

theorem holdsAt_valuesIn {allClocks : List String} {guard : ClockGuard}
    (numbered : guard.IsNumberedBy allClocks) (clocks : String → ℝ) :
    guard.holdsAt (valuesIn allClocks clocks) ↔ guard.holds clocks := by
  apply forall₂_congr
  intro simple member
  obtain ⟨declared, clockId⟩ := numbered simple member
  have value : valuesIn allClocks clocks simple.clockId = clocks simple.clock := by
    rw [clockId, valuesIn, List.getElem?_idxOf declared]
    rfl
  rw [SimpleClockGuard.holdsAt, value]
  rfl

/-- The zone tool cuts with the guard that the model means. -/
theorem satisfiesLines_valuesIn {allClocks : List String} {guard : ClockGuard}
    (numbered : guard.IsNumberedBy allClocks) (clocks : String → ℝ) :
    (∀ line ∈ lines guard.toDBMFormat, SatisfiesLine (valuesIn allClocks clocks) line) ↔
      guard.holds clocks := by
  rw [guard.satisfiesLines_iff, ← guard.holdsAt_iff rfl]
  exact holdsAt_valuesIn numbered clocks

end ClockGuard

end Symbolrt
