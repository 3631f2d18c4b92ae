import Mathlib.Data.List.AList

/-!
# Tables that keep the last entry of a key

Entries are put into a table one after the other, those with an admitted key only.
What the table holds for a key afterwards is the last entry of that key, or what it
held before.
-/

namespace LastEntry

variable {Key Value : Type} [DecidableEq Key]

/-- The value of the last entry of a key. -/
def last (key : Key) : List (Key × Value) → Option Value
  | [] => none
  | entry :: entries => (last key entries).or (if entry.1 = key then some entry.2 else none)

theorem isSome_last_iff {key : Key} {entries : List (Key × Value)} :
    (last key entries).isSome = true ↔ key ∈ entries.map Prod.fst := by
  induction entries with
  | nil => exact iff_of_false Bool.false_ne_true List.not_mem_nil
  | cons entry entries induction =>
      rw [last, Option.isSome_or, Bool.or_eq_true, induction, List.map_cons, List.mem_cons,
        or_comm]
      apply or_congr_left
      split
      · rename_i same
        exact iff_of_true rfl same.symm
      · rename_i different
        exact iff_of_false Bool.false_ne_true (fun same => different same.symm)

variable (admitted : Key → Prop) [DecidablePred admitted]

def enter (table : AList (fun _ : Key => Value)) (entry : Key × Value) :
    AList (fun _ : Key => Value) :=
  if admitted entry.1 then table.insert entry.1 entry.2 else table

theorem lookup_enter (table : AList (fun _ : Key => Value)) (entry : Key × Value) {key : Key}
    (isAdmitted : admitted key) : (enter admitted table entry).lookup key =
      (if entry.1 = key then some entry.2 else none).or (table.lookup key) := by
  by_cases same : entry.1 = key
  · obtain ⟨first, value⟩ := entry
    cases same
    rw [enter, if_pos isAdmitted, if_pos rfl]
    exact AList.lookup_insert table
  · rw [if_neg same, Option.none_or, enter]
    split
    · exact AList.lookup_insert_ne (fun equal => same equal.symm)
    · rfl

theorem lookup_enter_of_not (table : AList (fun _ : Key => Value)) (entry : Key × Value)
    {key : Key} (notAdmitted : ¬ admitted key) :
    (enter admitted table entry).lookup key = table.lookup key := by
  rw [enter]
  split
  · rename_i isAdmitted
    apply AList.lookup_insert_ne
    intro same
    exact notAdmitted (same ▸ isAdmitted)
  · rfl

/-- What the table holds after all entries. -/
theorem lookup_enterAll (entries : List (Key × Value)) (table : AList (fun _ : Key => Value))
    {key : Key} (isAdmitted : admitted key) :
    (entries.foldl (enter admitted) table).lookup key =
      (last key entries).or (table.lookup key) := by
  induction entries generalizing table with
  | nil => rfl
  | cons entry entries induction =>
      rw [List.foldl_cons, induction, lookup_enter admitted table entry isAdmitted, last,
        Option.or_assoc]

theorem lookup_enterAll_of_not (entries : List (Key × Value))
    (table : AList (fun _ : Key => Value)) {key : Key} (notAdmitted : ¬ admitted key) :
    (entries.foldl (enter admitted) table).lookup key = table.lookup key := by
  induction entries generalizing table with
  | nil => rfl
  | cons entry entries induction =>
      rw [List.foldl_cons, induction, lookup_enter_of_not admitted table entry notAdmitted]

end LastEntry
