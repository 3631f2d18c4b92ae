import Symbolrt.Base.TIOSTS

/-!
# Copies of clock guards

Models are copied by printing their clock guards and reading the texts against the
clock list of the copy, or by cloning the guards one by one.  A guard that is numbered
against the clock list comes back as it was on both ways.
-/

namespace Symbolrt

namespace SimpleClockGuard

/-- All four fields are compared, the relation as a text. -/
def equals (guard other : SimpleClockGuard) : Bool :=
  guard.clockId == other.clockId && guard.clock == other.clock &&
    guard.relation.text == other.relation.text &&
    guard.integerConstant == other.integerConstant

/-- A new object with the same four fields. -/
def clone (guard : SimpleClockGuard) : SimpleClockGuard :=
  ⟨guard.clockId, guard.clock, guard.relation, guard.integerConstant, guard.clock_isName,
    guard.integerConstant_isNumeral⟩

theorem equals_iff {guard other : SimpleClockGuard} :
    guard.equals other = true ↔ guard = other := by
  obtain ⟨clockId, clock, relation, constant, isName, isNumeral⟩ := guard
  obtain ⟨otherId, otherClock, otherRelation, otherConstant, _, _⟩ := other
  constructor
  · intro equal
    simp only [equals, Bool.and_eq_true, beq_iff_eq] at equal
    obtain ⟨⟨⟨sameId, sameClock⟩, sameText⟩, sameConstant⟩ := equal
    have sameRelation : some relation = some otherRelation := by
      rw [← Relation.ofText_text relation, sameText, Relation.ofText_text]
    cases sameRelation
    subst sameId sameClock sameConstant
    rfl
  · intro same
    cases same
    simp [equals]

end SimpleClockGuard

namespace ClockGuard

/-- The constraints are compared one by one, in their order. -/
def equals (guard other : ClockGuard) : Bool :=
  Location.equalLists SimpleClockGuard.equals guard.clockGuard other.clockGuard

/-- Appends a constraint. -/
def addSimpleClockGuard (simple : SimpleClockGuard) (guard : ClockGuard) : ClockGuard :=
  ⟨guard.clockGuard ++ [simple]⟩

/-- Copies the constraints into a new guard. -/
def clone (guard : ClockGuard) : ClockGuard :=
  guard.clockGuard.foldl (fun clone simple => clone.addSimpleClockGuard simple.clone) empty

/-- The clocks are in the list, and each is numbered by its position. -/
def IsNumberedBy (allClocks : List String) (guard : ClockGuard) : Prop :=
  ∀ simple ∈ guard.clockGuard,
    simple.clock ∈ allClocks ∧ simple.clockId = allClocks.idxOf simple.clock + 1

theorem equals_iff {guard other : ClockGuard} : guard.equals other = true ↔ guard = other := by
  obtain ⟨guards⟩ := guard
  obtain ⟨others⟩ := other
  rw [equals, mk.injEq]
  induction guards generalizing others with
  | nil => cases others <;> simp [Location.equalLists]
  | cons first rest induction =>
      cases others with
      | nil => simp [Location.equalLists]
      | cons other others =>
          rw [Location.equalLists, Bool.and_eq_true, SimpleClockGuard.equals_iff, induction,
            List.cons.injEq]

theorem foldl_clone (guards : List SimpleClockGuard) (copied : ClockGuard) :
    guards.foldl (fun clone simple => clone.addSimpleClockGuard simple.clone) copied =
      ⟨copied.clockGuard ++ guards⟩ := by
  induction guards generalizing copied with
  | nil => exact congrArg mk (List.append_nil _).symm
  | cons first rest induction =>
      refine (induction _).trans ?_
      exact congrArg mk (List.append_assoc _ [first] rest)

theorem clone_eq (guard : ClockGuard) : guard.clone = guard := foldl_clone guard.clockGuard empty

theorem IsNumberedBy.renumber_eq {allClocks : List String} {guard : ClockGuard}
    (numbered : guard.IsNumberedBy allClocks) : guard.renumber allClocks = guard := by
  apply renumber_eq_self
  intro simple member
  obtain ⟨declared, clockId⟩ := numbered simple member
  exact clockId.trans (if_pos declared).symm

end ClockGuard

/-- A guard that is numbered against a clock list is read back from its text, and its
clone is equal to it; the guard without constraints is the constant. -/
theorem ClockGuard.copies_equal {allClocks : List String} {guard : ClockGuard}
    (numbered : guard.IsNumberedBy allClocks) :
    (∃ parsed, ofString guard.toString allClocks = some parsed ∧ parsed.equals guard = true) ∧
      (toString empty = "TRUE" ∧ ofString "TRUE" allClocks = some empty) ∧
      guard.clone.equals guard = true := by
  refine ⟨⟨guard, ?_, equals_iff.mpr rfl⟩, ⟨rfl, rfl⟩, equals_iff.mpr guard.clone_eq⟩
  rw [ofString_toString, numbered.renumber_eq]

theorem ClockGuard.copies_equal_two : ∃ guard : ClockGuard,
    guard.toString = "x <= 10 AND y > 3" ∧
      (∃ parsed, ofString guard.toString ["x", "y"] = some parsed ∧
        parsed.equals guard = true) ∧ guard.clone.equals guard = true := by
  let first : SimpleClockGuard := ⟨1, "x", .leq, "10", by decide, by decide⟩
  let second : SimpleClockGuard := ⟨2, "y", .gt, "3", by decide, by decide⟩
  have numbered : IsNumberedBy ["x", "y"] ⟨[first, second]⟩ := by
    intro simple member
    rcases List.mem_cons.mp member with rfl | last
    · exact ⟨by decide, by decide⟩
    · rw [List.mem_singleton.mp last]
      exact ⟨by decide, by decide⟩
  obtain ⟨parsed, _, cloned⟩ := copies_equal numbered
  exact ⟨⟨[first, second]⟩, by decide, parsed, cloned⟩

end Symbolrt
