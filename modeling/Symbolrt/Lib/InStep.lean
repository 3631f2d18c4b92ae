import Mathlib.Data.List.Forall2

/-!
# Lists in step

Two lists whose items are related place by place.
-/

namespace InStep

variable {α β γ : Type} {R : α → β → Prop} {items : List α} {others : List β}

/-- Lists with the same values are related when items with the same value are. -/
theorem of_map_eq {f : α → γ} {g : β → γ} (same : items.map f = others.map g)
    (related : ∀ item ∈ items, ∀ other ∈ others, f item = g other → R item other) :
    List.Forall₂ R items others := by
  induction items generalizing others with
  | nil =>
      cases others with
      | nil => exact List.Forall₂.nil
      | cons other others => cases same
  | cons item items induction =>
      cases others with
      | nil => cases same
      | cons other others =>
          obtain ⟨first, rest⟩ := List.cons.inj same
          refine List.Forall₂.cons (related _ List.mem_cons_self _ List.mem_cons_self first)
            (induction rest ?_)
          exact fun item member other otherMember =>
            related item (List.mem_cons_of_mem _ member) other (List.mem_cons_of_mem _ otherMember)

theorem exists_right (all : List.Forall₂ R items others) {item : α} (member : item ∈ items) :
    ∃ other ∈ others, R item other := by
  induction all with
  | nil => cases member
  | cons related _ induction =>
      rcases List.mem_cons.mp member with rfl | later
      · exact ⟨_, List.mem_cons_self, related⟩
      · obtain ⟨other, among, found⟩ := induction later
        exact ⟨other, List.mem_cons_of_mem _ among, found⟩

theorem exists_left (all : List.Forall₂ R items others) {other : β} (member : other ∈ others) :
    ∃ item ∈ items, R item other :=
  exists_right all.flip member

theorem related_at (all : List.Forall₂ R items others) {position : Nat} {item : α} {other : β}
    (found : items[position]? = some item) (otherFound : others[position]? = some other) :
    R item other := by
  induction all generalizing position with
  | nil => cases found
  | cons related _ induction =>
      cases position with
      | zero =>
          cases found
          cases otherFound
          exact related
      | succ position => exact induction found otherFound

end InStep
