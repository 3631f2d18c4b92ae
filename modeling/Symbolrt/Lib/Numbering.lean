import Mathlib.Data.List.Basic
import Mathlib.Data.Set.Function

/-!
# Numbered identifiers

Identifiers are issued for keys, one after the other.  Every key has its own counter,
which starts at one; the identifier is made of the key and the number.
-/

namespace Numbering

variable {Key Id : Type*} [DecidableEq Key] {issue : Key → Nat → Id}

/-- The identifiers issued for a key, in order. -/
def idsOf (key : Key) (issued : List (Key × Id)) : List Id :=
  (issued.filter (fun entry => entry.1 = key)).map Prod.snd

/-- The number of identifiers issued for a key. -/
def count (key : Key) (issued : List (Key × Id)) : Nat := (idsOf key issued).length

/-- Every identifier is made of its key and the next number of the key. -/
inductive IsNumbered (issue : Key → Nat → Id) : List (Key × Id) → Prop where
  | start : IsNumbered issue []
  | next {issued : List (Key × Id)} (key : Key) :
      IsNumbered issue issued →
      IsNumbered issue (issued ++ [(key, issue key (count key issued + 1))])

theorem idsOf_concat (key other : Key) (id : Id) (issued : List (Key × Id)) :
    idsOf key (issued ++ [(other, id)]) =
      if other = key then idsOf key issued ++ [id] else idsOf key issued := by
  unfold idsOf
  by_cases same : other = key <;> simp [same]

theorem count_concat (key other : Key) (id : Id) (issued : List (Key × Id)) :
    count key (issued ++ [(other, id)]) =
      if other = key then count key issued + 1 else count key issued := by
  unfold count
  rw [idsOf_concat]
  split
  · exact List.length_append
  · rfl

theorem count_le_length (key : Key) (issued : List (Key × Id)) :
    count key issued ≤ issued.length := by
  unfold count idsOf
  rw [List.length_map]
  exact List.length_filter_le _ _

/-- A key gets the identifiers with the numbers one, two, three and so on. -/
theorem IsNumbered.idsOf_eq {issued : List (Key × Id)} (numbered : IsNumbered issue issued)
    (key : Key) :
    idsOf key issued = (List.range (count key issued)).map
      (fun before => issue key (before + 1)) := by
  induction numbered with
  | start => rfl
  | next other _ induction =>
      rw [idsOf_concat, count_concat]
      split
      · rename_i same
        subst same
        rw [List.range_succ, List.map_append, ← induction]
        rfl
      · exact induction

theorem IsNumbered.exists_number {issued : List (Key × Id)} (numbered : IsNumbered issue issued)
    {key : Key} {id : Id} (member : (key, id) ∈ issued) :
    ∃ before < count key issued, id = issue key (before + 1) := by
  have listed : id ∈ idsOf key issued :=
    List.mem_map_of_mem (f := Prod.snd) (List.mem_filter.mpr ⟨member, by simp⟩)
  rw [numbered.idsOf_eq key] at listed
  obtain ⟨before, inside, same⟩ := List.mem_map.mp listed
  exact ⟨before, List.mem_range.mp inside, same.symm⟩

/-- As long as keys and numbers can be told from the identifiers, no identifier is issued
twice. -/
theorem IsNumbered.nodup {issued : List (Key × Id)} (numbered : IsNumbered issue issued)
    {used : Set (Key × Nat)} (injective : Set.InjOn (Function.uncurry issue) used)
    (inside : ∀ key id, (key, id) ∈ issued → ∀ number ≤ count key issued, (key, number) ∈ used) :
    (issued.map Prod.snd).Nodup := by
  induction numbered with
  | start => exact List.nodup_nil
  | @next issued key earlier induction =>
      have grows : ∀ other, count other issued ≤
          count other (issued ++ [(key, issue key (count key issued + 1))]) := by
        intro other
        rw [count_concat]
        split
        · exact Nat.le_succ _
        · exact Nat.le_refl _
      have here : (key, count key issued + 1) ∈ used := by
        apply inside key (issue key (count key issued + 1)) (by simp)
        rw [count_concat, if_pos rfl]
      have before : ∀ other id, (other, id) ∈ issued → ∀ number ≤ count other issued,
          (other, number) ∈ used := fun other id member number small =>
        inside other id (List.mem_append_left _ member) number (Nat.le_trans small (grows other))
      rw [List.map_append, List.nodup_append]
      refine ⟨induction before, List.pairwise_singleton _ _, ?_⟩
      intro id member last isLast same
      obtain ⟨⟨other, _⟩, listed, rfl⟩ := List.mem_map.mp member
      obtain ⟨number, small, idEq⟩ := earlier.exists_number listed
      have known := before other _ listed (number + 1) small
      have pair := injective known here
        ((idEq.symm.trans same).trans (List.mem_singleton.mp isLast))
      obtain ⟨keyEq, numberEq⟩ := Prod.mk.inj pair
      subst keyEq
      omega

/-- Nor is the identifier with the number zero. -/
theorem IsNumbered.zero_not_mem {issued : List (Key × Id)} (numbered : IsNumbered issue issued)
    {used : Set (Key × Nat)} (injective : Set.InjOn (Function.uncurry issue) used)
    (inside : ∀ key id, (key, id) ∈ issued → ∀ number ≤ count key issued, (key, number) ∈ used)
    {key : Key} (zero : (key, 0) ∈ used) : issue key 0 ∉ issued.map Prod.snd := by
  intro member
  obtain ⟨⟨other, _⟩, listed, same⟩ := List.mem_map.mp member
  obtain ⟨number, small, idEq⟩ := numbered.exists_number listed
  have pair := injective (inside other _ listed (number + 1) small) zero (idEq.symm.trans same)
  exact absurd (Prod.mk.inj pair).2 (Nat.succ_ne_zero number)

end Numbering
