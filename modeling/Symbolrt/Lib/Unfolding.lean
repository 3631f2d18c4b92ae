import Mathlib.Data.Set.Finite.List
import Mathlib.Algebra.BigOperators.Group.Finset.Basic
import Mathlib.Algebra.Order.BigOperators.Group.Finset

/-!
# Bounded unfoldings

A node with a history is extended by numbered choices.  If every node carries one
of finitely many labels, no label occurs more often than a bound allows and the
choices are bounded, then there are only finitely many sequences of choices.
-/

namespace Unfolding

variable {Node : Type}

/-- The sequences of choices with the histories they lead to, the newest node
first. -/
inductive Run (root : Node) (next : List Node → Nat → Option Node) :
    List Nat → List Node → Prop where
  | start : Run root next [] [root]
  | extend {choices : List Nat} {history : List Node} {choice : Nat} {node : Node} :
      Run root next choices history → next history choice = some node →
      Run root next (choices ++ [choice]) (node :: history)

section Runs

variable {root : Node} {next : List Node → Nat → Option Node} {choices : List Nat}
  {history : List Node}

theorem Run.length (run : Run root next choices history) :
    history.length = choices.length + 1 := by
  induction run with
  | start => rfl
  | extend _ _ induction => simp [induction]

end Runs

section Bounded

variable {Label : Type} [DecidableEq Label]

/-- What bounds the runs. -/
structure IsBounded (root : Node) (next : List Node → Nat → Option Node)
    (label : Node → Label) (labels : Finset Label) (occurrences width : Nat) : Prop where
  positive : 0 < occurrences
  root_mem : label root ∈ labels
  node_mem : ∀ choices history choice node, Run root next choices history →
    next history choice = some node → label node ∈ labels
  bounded : ∀ choices history choice node, Run root next choices history →
    next history choice = some node → (history.map label).count (label node) < occurrences
  narrow : ∀ choices history choice node, Run root next choices history →
    next history choice = some node → choice < width

variable {root : Node} {next : List Node → Nat → Option Node} {label : Node → Label}
  {labels : Finset Label} {occurrences width : Nat} {choices : List Nat}
  {history : List Node}

theorem Run.count_le (isBounded : IsBounded root next label labels occurrences width)
    (run : Run root next choices history) (key : Label) :
    (history.map label).count key ≤ occurrences := by
  induction run with
  | start =>
      have once : ([root].map label).count key ≤ 1 := List.count_le_length
      have positive := isBounded.positive
      omega
  | @extend choices history choice node earlier step induction =>
      rw [List.map_cons, List.count_cons]
      split
      · rename_i same
        have fewer := isBounded.bounded choices history choice node earlier step
        rw [beq_iff_eq.mp same] at fewer
        omega
      · omega

theorem Run.labels_mem (isBounded : IsBounded root next label labels occurrences width)
    (run : Run root next choices history) : ∀ key ∈ history.map label, key ∈ labels := by
  induction run with
  | start =>
      intro key member
      rw [List.mem_singleton.mp member]
      exact isBounded.root_mem
  | @extend choices history choice node earlier step induction =>
      intro key member
      rcases List.mem_cons.mp member with rfl | old
      · exact isBounded.node_mem choices history choice node earlier step
      · exact induction key old

/-- No run is longer than the labels and their occurrences allow. -/
theorem Run.length_le (isBounded : IsBounded root next label labels occurrences width)
    (run : Run root next choices history) :
    history.length ≤ occurrences * labels.card := by
  have subset : (history.map label).toFinset ⊆ labels := by
    intro key member
    exact run.labels_mem isBounded key (List.mem_toFinset.mp member)
  calc history.length = (history.map label).length := (List.length_map label).symm
    _ = ∑ key ∈ (history.map label).toFinset, (history.map label).count key :=
        (List.sum_toFinset_count_eq_length _).symm
    _ ≤ ∑ _key ∈ (history.map label).toFinset, occurrences :=
        Finset.sum_le_sum (fun key _ => run.count_le isBounded key)
    _ = (history.map label).toFinset.card * occurrences :=
        Finset.sum_const_nat (fun _ _ => rfl)
    _ ≤ labels.card * occurrences :=
        Nat.mul_le_mul_right _ (Finset.card_le_card subset)
    _ = occurrences * labels.card := Nat.mul_comm _ _

theorem Run.narrow (isBounded : IsBounded root next label labels occurrences width)
    (run : Run root next choices history) : ∀ choice ∈ choices, choice < width := by
  induction run with
  | start => simp
  | @extend choices history choice node earlier step induction =>
      intro other member
      rcases List.mem_append.mp member with old | new
      · exact induction other old
      · rw [List.mem_singleton.mp new]
        exact isBounded.narrow choices history choice node earlier step

/-- Bounded runs are finitely many. -/
theorem finite_runs (isBounded : IsBounded root next label labels occurrences width) :
    {choices | ∃ history, Run root next choices history}.Finite := by
  have short := List.finite_length_le (Fin width) (occurrences * labels.card)
  apply (short.image (List.map Fin.val)).subset
  rintro choices ⟨history, run⟩
  have inside := run.narrow isBounded
  refine ⟨choices.attach.map (fun choice => ⟨choice.1, inside choice.1 choice.2⟩), ?_, ?_⟩
  · have length := run.length
    have bound := run.length_le isBounded
    change (choices.attach.map _).length ≤ occurrences * labels.card
    simp only [List.length_map, List.length_attach]
    omega
  · rw [List.map_map]
    exact List.attach_map_subtype_val choices

end Bounded

end Unfolding
