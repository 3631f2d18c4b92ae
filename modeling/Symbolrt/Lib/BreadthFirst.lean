import Mathlib.Data.List.Shortlex

/-!
# Breadth-first numberings

The vertices of an ordered tree are numbered from the root, and every vertex carries the
choices that lead to it.  If parents ascend with their children and siblings with their
choices, then the numbering follows the shortlex order of the choices.
-/

namespace BreadthFirst

variable {Choice : Type} {order : Choice → Choice → Prop}

theorem shortlex_append_singleton {word other : List Choice} {choice last : Choice}
    (smaller : List.Shortlex order word other) :
    List.Shortlex order (word ++ [choice]) (other ++ [last]) := by
  rcases List.shortlex_def.mp smaller with shorter | ⟨same, lexicographic⟩
  · apply List.Shortlex.of_length_lt
    simpa using shorter
  · apply List.Shortlex.of_lex
    · simp [same]
    · clear smaller
      induction lexicographic with
      | nil => cases same
      | rel first => exact List.Lex.rel first
      | cons _ induction => exact List.Lex.cons (induction (Nat.succ.inj same))

/-- The vertices below a bound, each behind its parent. -/
structure Numbering (order : Choice → Choice → Prop) (size : Nat) (parent : Nat → Nat)
    (choices : Nat → List Choice) : Prop where
  root : choices 0 = []
  child : ∀ vertex < size, vertex ≠ 0 → parent vertex < vertex ∧
    ∃ choice, choices vertex = choices (parent vertex) ++ [choice]
  parents : ∀ vertex other, vertex ≠ 0 → vertex < other → other < size →
    parent vertex ≤ parent other
  siblings : ∀ vertex other, vertex ≠ 0 → vertex < other → other < size →
    parent vertex = parent other → List.Shortlex order (choices vertex) (choices other)

variable {size : Nat} {parent : Nat → Nat} {choices : Nat → List Choice}

/-- Later vertices have larger choices. -/
theorem Numbering.shortlex (numbering : Numbering order size parent choices)
    {vertex other : Nat} (before : vertex < other) (inside : other < size) :
    List.Shortlex order (choices vertex) (choices other) := by
  induction other using Nat.strong_induction_on generalizing vertex with
  | _ other induction =>
      obtain ⟨above, last, otherEq⟩ := numbering.child other inside (Nat.ne_zero_of_lt before)
      by_cases isRoot : vertex = 0
      · subst isRoot
        apply List.Shortlex.of_length_lt
        rw [numbering.root, otherEq]
        simp
      · obtain ⟨_, choice, vertexEq⟩ := numbering.child vertex (by omega) isRoot
        rcases Nat.lt_or_eq_of_le (numbering.parents vertex other isRoot before inside)
          with earlier | same
        · rw [vertexEq, otherEq]
          exact shortlex_append_singleton (induction _ above earlier (by omega))
        · exact numbering.siblings vertex other isRoot before inside same

/-- The numbering is the shortlex order of the choices. -/
theorem Numbering.lt_iff [Std.Asymm order] (numbering : Numbering order size parent choices)
    {vertex other : Nat} (vertexInside : vertex < size) (otherInside : other < size) :
    vertex < other ↔ List.Shortlex order (choices vertex) (choices other) := by
  constructor
  · exact fun before => numbering.shortlex before otherInside
  · intro smaller
    rcases Nat.lt_trichotomy vertex other with before | rfl | behind
    · exact before
    · exact absurd smaller (Std.Asymm.asymm _ _ smaller)
    · exact absurd smaller (Std.Asymm.asymm _ _ (numbering.shortlex behind vertexInside))

end BreadthFirst
