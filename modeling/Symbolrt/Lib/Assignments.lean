import Mathlib.Data.Finmap
import Mathlib.Data.List.Perm.Basic

/-!
# Sequences of assignments

Assignments are carried out one after the other, so a right-hand side sees the values of
the targets assigned to before it.  If no right-hand side mentions another target, every
order gives each target its right-hand side under the values before all of them.
-/

namespace Assignments

section Values

variable {K V E : Type} [DecidableEq K] (eval : E → Finmap (fun _ : K => V) → V)

/-- Carries out one assignment. -/
def assign (values : Finmap (fun _ : K => V)) (assignment : K × E) : Finmap (fun _ : K => V) :=
  values.insert assignment.1 (eval assignment.2 values)

/-- Every target has the value of its right-hand side under the values before, and nothing
else has changed. -/
structure IsSimultaneous (assignments : List (K × E)) (values next : Finmap (fun _ : K => V)) :
    Prop where
  targets : ∀ assignment ∈ assignments,
    next.lookup assignment.1 = some (eval assignment.2 values)
  others : ∀ key, key ∉ assignments.map Prod.fst → next.lookup key = values.lookup key

/-- The right-hand sides mention no targets but their own. -/
def Independent (Mentions : E → K → Prop) (assignments : List (K × E)) : Prop :=
  ∀ assignment ∈ assignments, ∀ other ∈ assignments, other.1 ≠ assignment.1 →
    ¬ Mentions assignment.2 other.1

variable {eval}

/-- There is only one result of assigning at once. -/
theorem IsSimultaneous.unique {assignments : List (K × E)}
    {values next other : Finmap (fun _ : K => V)}
    (first : IsSimultaneous eval assignments values next)
    (second : IsSimultaneous eval assignments values other) : next = other := by
  apply Finmap.ext_lookup
  intro key
  by_cases listed : key ∈ assignments.map Prod.fst
  · obtain ⟨assignment, member, rfl⟩ := List.mem_map.mp listed
    rw [first.targets assignment member, second.targets assignment member]
  · rw [first.others key listed, second.others key listed]

theorem IsSimultaneous.perm {assignments others : List (K × E)}
    {values next : Finmap (fun _ : K => V)}
    (simultaneous : IsSimultaneous eval assignments values next)
    (permutation : assignments.Perm others) : IsSimultaneous eval others values next := by
  constructor
  · exact fun assignment member =>
      simultaneous.targets assignment (permutation.mem_iff.mpr member)
  · intro key absent
    apply simultaneous.others
    rw [(permutation.map Prod.fst).mem_iff]
    exact absent

/-- Independent assignments to distinct targets have the same result as at once. -/
theorem isSimultaneous_of_independent {Mentions : E → K → Prop}
    (unaffected : ∀ expression key value values, ¬ Mentions expression key →
      eval expression (Finmap.insert key value values) = eval expression values)
    {assignments : List (K × E)} (distinct : (assignments.map Prod.fst).Nodup)
    (independent : Independent Mentions assignments) (values : Finmap (fun _ : K => V)) :
    IsSimultaneous eval assignments values (assignments.foldl (assign eval) values) := by
  induction assignments generalizing values with
  | nil => exact ⟨by simp, fun _ _ => rfl⟩
  | cons first rest induction =>
      obtain ⟨fresh, distinct⟩ := List.nodup_cons.mp distinct
      have later := induction distinct (fun assignment member other otherMember =>
        independent assignment (List.mem_cons_of_mem _ member) other
          (List.mem_cons_of_mem _ otherMember)) (assign eval values first)
      constructor
      · intro assignment member
        rcases List.mem_cons.mp member with rfl | behind
        · exact (later.others _ fresh).trans (Finmap.lookup_insert _)
        · have different : first.1 ≠ assignment.1 := by
            intro same
            apply fresh
            rw [same]
            exact List.mem_map_of_mem behind
          have kept : eval assignment.2 (assign eval values first) = eval assignment.2 values :=
            unaffected _ _ _ _ (independent assignment member first List.mem_cons_self different)
          rw [← kept]
          exact later.targets assignment behind
      · intro key absent
        rw [List.map_cons, List.mem_cons, not_or] at absent
        exact (later.others key absent.2).trans (Finmap.lookup_insert_of_ne _ absent.1)

end Values

end Assignments
