import Symbolrt.Lib.Precedence

/-!
# Values of regrouped trees

The levels of the operators may group the text of a tree in another way than the tree
itself.  The value stays the same if only operators have changed places that may do so.
-/

namespace Precedence

variable {S I P W V : Type} {grammar : Grammar S I P}

/-- What words and operators stand for. -/
structure Meaning (I P W V : Type) where
  word : W → V
  unary : P → V → V
  binary : I → V → V → V

def Meaning.value (meaning : Meaning I P W V) : Tree I P W → V
  | .word w => meaning.word w
  | .group tree => meaning.value tree
  | .unary operator tree => meaning.unary operator (meaning.value tree)
  | .binary operator left right =>
      meaning.binary operator (meaning.value left) (meaning.value right)

/-- Operators that may change places do so without changing the value. -/
structure Exchange.Sound (exchange : Exchange I P) (meaning : Meaning I P W V) : Prop where
  binary : ∀ operator other, exchange.binary operator other = true → ∀ a b c,
    meaning.binary operator a (meaning.binary other b c) =
      meaning.binary other (meaning.binary operator a b) c
  unary : ∀ operator other, exchange.unary operator other = true → ∀ b c,
    meaning.unary operator (meaning.binary other b c) =
      meaning.binary other (meaning.unary operator b) c

variable (grammar) in
/-- Puts something in front of the part of a tree that an operator of the level takes. -/
def attach (level : Nat) (put : Tree I P W → Tree I P W) : Tree I P W → Tree I P W
  | .binary operator left right =>
      if level < grammar.binaryLevel operator then put (.binary operator left right)
      else .binary operator (attach level put left) right
  | tree => put tree

section Attach

variable {level : Nat} {put : Tree I P W → Tree I P W}

theorem print_attach {front : List (Token S W)}
    (printed : ∀ tree, print grammar (put tree) = front ++ print grammar tree)
    (tree : Tree I P W) :
    print grammar (attach grammar level put tree) = front ++ print grammar tree := by
  induction tree with
  | word w => exact printed _
  | group tree induction => exact printed _
  | unary operator tree induction => exact printed _
  | binary operator left right leftInduction rightInduction =>
      rw [attach]
      split
      · exact printed _
      · rw [print, leftInduction, print, List.append_assoc]

theorem endsAbove_attach {lower : Nat}
    (putEnds : ∀ tree, EndsAbove grammar lower (put tree) ↔
      lower ≤ level ∧ EndsAbove grammar lower tree) (tree : Tree I P W) :
    EndsAbove grammar lower (attach grammar level put tree) ↔
      lower ≤ level ∧ EndsAbove grammar lower tree := by
  induction tree with
  | word w => exact putEnds _
  | group tree induction => exact putEnds _
  | unary operator tree induction => exact putEnds _
  | binary operator left right leftInduction rightInduction =>
      rw [attach]
      split
      · exact putEnds _
      · rename_i taken
        constructor
        · intro ends
          have below := ends.1
          exact ⟨by omega, ends⟩
        · exact fun both => both.2

theorem attach_grouped {tree : Tree I P W}
    (putGrouped : ∀ tree, Grouped grammar tree → StartsAbove grammar level tree →
      Grouped grammar (put tree))
    (putEnds : ∀ lower tree, EndsAbove grammar lower (put tree) ↔
      lower ≤ level ∧ EndsAbove grammar lower tree)
    (grouped : Grouped grammar tree) : Grouped grammar (attach grammar level put tree) := by
  induction tree with
  | word w => exact putGrouped _ grouped (by simp [StartsAbove, leading])
  | group tree induction => exact putGrouped _ grouped (by simp [StartsAbove, leading])
  | unary operator tree induction => exact putGrouped _ grouped grouped.startsAbove_unary
  | binary operator left right leftInduction rightInduction =>
      rw [attach]
      split
      · rename_i below
        exact putGrouped _ grouped (grouped.startsAbove_root below)
      · rename_i taken
        obtain ⟨leftGrouped, rightGrouped, leftEnds, rightStarts⟩ := grouped_binary.mp grouped
        apply grouped_binary.mpr
        refine ⟨leftInduction leftGrouped, rightGrouped, ?_, rightStarts⟩
        exact (endsAbove_attach (putEnds _) left).mpr ⟨Nat.le_of_not_lt taken, leftEnds⟩

theorem leading_attach {tail : List I} {tree : Tree I P W}
    (putLeading : ∀ tree, StartsAbove grammar level tree → leading grammar (put tree) = tail)
    (grouped : Grouped grammar tree) :
    leading grammar (attach grammar level put tree) =
      (leading grammar tree).filter (fun other => grammar.binaryLevel other ≤ level) ++ tail := by
  have outside : ∀ tree, StartsAbove grammar level tree → leading grammar (put tree) =
      (leading grammar tree).filter (fun other => grammar.binaryLevel other ≤ level) ++ tail := by
    intro tree starts
    rw [putLeading tree starts, List.filter_eq_nil_iff.mpr]
    · rfl
    · intro other listed
      have above := starts other listed
      simpa using above
  induction tree with
  | word w => exact outside _ (by simp [StartsAbove, leading])
  | group tree induction => exact outside _ (by simp [StartsAbove, leading])
  | unary operator tree induction => exact outside _ grouped.startsAbove_unary
  | binary operator left right leftInduction rightInduction =>
      rw [attach]
      split
      · rename_i below
        exact outside _ (grouped.startsAbove_root below)
      · rename_i taken
        obtain ⟨leftGrouped, _, _, rightStarts⟩ := grouped_binary.mp grouped
        have none : (leading grammar right).filter (fun other =>
            grammar.binaryLevel other ≤ grammar.binaryLevel operator) = [] := by
          rw [List.filter_eq_nil_iff]
          intro other listed
          have above := rightStarts other listed
          simpa using above
        have kept : grammar.binaryLevel operator ≤ level := Nat.le_of_not_lt taken
        rw [leading, leading, none, leftInduction leftGrouped]
        simp [kept]

variable {meaning : Meaning I P W V}

theorem value_attach (act : V → V) {tree : Tree I P W}
    (putValue : ∀ tree, meaning.value (put tree) = act (meaning.value tree))
    (moves : ∀ other ∈ leading grammar tree, level < grammar.binaryLevel other ∨
      ∀ b c, act (meaning.binary other b c) = meaning.binary other (act b) c) :
    meaning.value (attach grammar level put tree) = act (meaning.value tree) := by
  induction tree with
  | word w => exact putValue _
  | group tree induction => exact putValue _
  | unary operator tree induction => exact putValue _
  | binary operator left right leftInduction rightInduction =>
      rw [attach]
      split
      · exact putValue _
      · rename_i taken
        have moved := (moves operator (by simp [leading])).resolve_left taken
        have inside := leftInduction (fun other listed => moves other (by simp [leading, listed]))
        rw [Meaning.value, inside, Meaning.value, moved]

end Attach

theorem unaryPrinted (operator : P) (tree : Tree I P W) :
    print grammar (.unary operator tree) =
      [.symbol (grammar.unarySymbol operator)] ++ print grammar tree := rfl

theorem regroup_unary (operator : P) (tree : Tree I P W) :
    regroup grammar (.unary operator tree) =
      attach grammar (grammar.unaryLevel operator) (.unary operator) (regroup grammar tree) := by
  have printed : print grammar (attach grammar (grammar.unaryLevel operator) (.unary operator)
      (regroup grammar tree)) = print grammar (.unary operator tree) := by
    rw [print_attach (unaryPrinted operator),
      print_regroup]
    rfl
  have grouped : Grouped grammar (attach grammar (grammar.unaryLevel operator)
      (.unary operator) (regroup grammar tree)) := by
    apply attach_grouped
    · exact fun _ treeGrouped starts => grouped_unary.mpr ⟨treeGrouped, starts⟩
    · exact fun _ _ => Iff.rfl
    · exact grouped_regroup tree
  rw [← regroup_eq_of_print printed, grouped.regroup_eq]

theorem regroup_binary {operator : I} {left : Tree I P W} (right : Tree I P W)
    (ends : EndsAbove grammar (grammar.binaryLevel operator) (regroup grammar left)) :
    regroup grammar (.binary operator left right) =
      attach grammar (grammar.binaryLevel operator) (.binary operator (regroup grammar left))
        (regroup grammar right) := by
  have putPrinted : ∀ tree, print grammar (.binary operator (regroup grammar left) tree) =
      (print grammar left ++ [.symbol (grammar.binarySymbol operator)]) ++
        print grammar tree := by
    intro tree
    rw [print, print_regroup]
    simp
  have printed : print grammar (attach grammar (grammar.binaryLevel operator)
      (.binary operator (regroup grammar left)) (regroup grammar right)) =
      print grammar (.binary operator left right) := by
    rw [print_attach putPrinted, print_regroup, print]
    simp
  have grouped : Grouped grammar (attach grammar (grammar.binaryLevel operator)
      (.binary operator (regroup grammar left)) (regroup grammar right)) := by
    apply attach_grouped
    · intro tree treeGrouped starts
      exact grouped_binary.mpr ⟨grouped_regroup left, treeGrouped, ends, starts⟩
    · exact fun _ _ => Iff.rfl
    · exact grouped_regroup right
  rw [← regroup_eq_of_print printed, grouped.regroup_eq]

theorem leading_unary_of {operator : P} {tree : Tree I P W}
    (starts : StartsAbove grammar (grammar.unaryLevel operator) tree) :
    leading grammar (.unary operator tree) = [] := by
  rw [leading, List.filter_eq_nil_iff]
  intro other listed
  have above := starts other listed
  simpa using above

theorem leading_binary_of {operator : I} {left right : Tree I P W}
    (starts : StartsAbove grammar (grammar.binaryLevel operator) right) :
    leading grammar (.binary operator left right) = operator :: leading grammar left := by
  rw [leading, List.filter_eq_nil_iff.mpr]
  · rfl
  · intro other listed
    have above := starts other listed
    simpa using above

/-- Regrouping keeps the operators at both ends. -/
theorem Fits.ends_eq {exchange : Exchange I P} {tree : Tree I P W}
    (fits : Fits grammar exchange tree) :
    leading grammar (regroup grammar tree) = leading grammar tree ∧
      ∀ level, EndsAbove grammar level (regroup grammar tree) ↔
        EndsAbove grammar level tree := by
  induction tree with
  | word w => exact ⟨rfl, fun _ => Iff.rfl⟩
  | group tree induction => exact ⟨rfl, fun _ => Iff.rfl⟩
  | unary operator tree induction =>
      obtain ⟨treeLeading, treeEnds⟩ := induction fits.1
      rw [regroup_unary]
      constructor
      · rw [leading_attach (fun _ starts => leading_unary_of starts) (grouped_regroup tree),
          treeLeading, List.append_nil]
        rfl
      · intro level
        rw [endsAbove_attach (fun _ => Iff.rfl), treeEnds]
        rfl
  | binary operator left right leftInduction rightInduction =>
      obtain ⟨leftFits, rightFits, leftAbove, _⟩ := fits
      obtain ⟨leftLeading, leftEnds⟩ := leftInduction leftFits
      obtain ⟨rightLeading, rightEnds⟩ := rightInduction rightFits
      rw [regroup_binary right ((leftEnds _).mpr leftAbove)]
      constructor
      · rw [leading_attach (fun _ starts => leading_binary_of starts) (grouped_regroup right),
          rightLeading, leftLeading]
        rfl
      · intro level
        rw [endsAbove_attach (fun _ => Iff.rfl), rightEnds]
        rfl

theorem value_regroup {exchange : Exchange I P} {meaning : Meaning I P W V}
    (sound : exchange.Sound meaning) {tree : Tree I P W} (fits : Fits grammar exchange tree) :
    meaning.value (regroup grammar tree) = meaning.value tree := by
  induction tree with
  | word w => rfl
  | group tree induction => exact induction fits
  | unary operator tree induction =>
      obtain ⟨treeFits, moves⟩ := fits
      rw [regroup_unary, value_attach (meaning.unary operator) (fun _ => rfl) (by
        intro other listed
        rw [treeFits.ends_eq.1] at listed
        exact (moves other listed).imp_right (sound.unary operator other)), induction treeFits]
      rfl
  | binary operator left right leftInduction rightInduction =>
      obtain ⟨leftFits, rightFits, leftAbove, moves⟩ := fits
      rw [regroup_binary right ((leftFits.ends_eq.2 _).mpr leftAbove),
        value_attach (meaning.binary operator (meaning.value (regroup grammar left)))
          (fun _ => rfl) (by
            intro other listed
            rw [rightFits.ends_eq.1] at listed
            refine (moves other listed).imp_right ?_
            intro exchanged b c
            exact sound.binary operator other exchanged _ b c),
        leftInduction leftFits, rightInduction rightFits]
      rfl

/-- Puts a tree in for every word. -/
def Tree.bind (replace : W → Tree I P W) : Tree I P W → Tree I P W
  | .word w => replace w
  | .group tree => .group (tree.bind replace)
  | .unary operator tree => .unary operator (tree.bind replace)
  | .binary operator left right => .binary operator (left.bind replace) (right.bind replace)

def Tree.words : Tree I P W → List W
  | .word w => [w]
  | .group tree => tree.words
  | .unary _ tree => tree.words
  | .binary _ left right => left.words ++ right.words

theorem mem_words_of_print {tree : Tree I P W} {w : W}
    (member : .word w ∈ print grammar tree) : w ∈ tree.words := by
  induction tree with
  | word other => simpa [print, Tree.words] using member
  | group tree induction => exact induction (by simpa [print] using member)
  | unary operator tree induction => exact induction (by simpa [print] using member)
  | binary operator left right leftInduction rightInduction =>
      have inside : .word w ∈ print grammar left ∨ .word w ∈ print grammar right := by
        simpa [print] using member
      exact List.mem_append.mpr (inside.imp leftInduction rightInduction)

/-- The text of the tree with another text for every word. -/
def replaceWords (replace : W → List (Token S W)) : Token S W → List (Token S W)
  | .word w => replace w
  | token => [token]

theorem print_bind (replace : W → Tree I P W) (tree : Tree I P W) :
    print grammar (tree.bind replace) =
      (print grammar tree).flatMap (replaceWords (fun w => print grammar (replace w))) := by
  induction tree with
  | word w => simp [Tree.bind, print, replaceWords]
  | group tree induction => simp [Tree.bind, print, replaceWords, induction]
  | unary operator tree induction => simp [Tree.bind, print, replaceWords, induction]
  | binary operator left right leftInduction rightInduction =>
      simp [Tree.bind, print, replaceWords, leftInduction, rightInduction]

/-- The words get the values of what was put in for them. -/
def Meaning.store (meaning : Meaning I P W V) (replace : W → Tree I P W) : Meaning I P W V :=
  { meaning with word := fun w => meaning.value (replace w) }

theorem value_bind (meaning : Meaning I P W V) (replace : W → Tree I P W)
    (tree : Tree I P W) :
    meaning.value (tree.bind replace) = (meaning.store replace).value tree := by
  induction tree with
  | word w => rfl
  | group tree induction => exact induction
  | unary operator tree induction => exact congrArg (meaning.unary operator) induction
  | binary operator left right leftInduction rightInduction =>
      exact congrArg₂ (meaning.binary operator) leftInduction rightInduction

section Words

variable {replace : W → Tree I P W} (words : ∀ w, ∃ other, replace w = .word other)

include words

theorem leading_bind_words (tree : Tree I P W) :
    leading grammar (tree.bind replace) = leading grammar tree := by
  induction tree with
  | word w =>
      obtain ⟨other, same⟩ := words w
      simp only [Tree.bind, same, leading]
  | group tree induction => rfl
  | unary operator tree induction => simp only [Tree.bind, leading, induction]
  | binary operator left right leftInduction rightInduction =>
      simp only [Tree.bind, leading, leftInduction, rightInduction]

theorem startsAbove_bind_words (level : Nat) (tree : Tree I P W) :
    StartsAbove grammar level (tree.bind replace) ↔ StartsAbove grammar level tree := by
  simp only [StartsAbove, leading_bind_words words]

theorem endsAbove_bind_words (level : Nat) (tree : Tree I P W) :
    EndsAbove grammar level (tree.bind replace) ↔ EndsAbove grammar level tree := by
  induction tree with
  | word w =>
      obtain ⟨other, same⟩ := words w
      simp only [Tree.bind, same, EndsAbove]
  | group tree induction => rfl
  | unary operator tree induction => simp only [Tree.bind, EndsAbove, induction]
  | binary operator left right leftInduction rightInduction =>
      simp only [Tree.bind, EndsAbove, rightInduction]

/-- Other words do not change how the levels group a tree. -/
theorem grouped_bind_words (tree : Tree I P W) :
    Grouped grammar (tree.bind replace) ↔ Grouped grammar tree := by
  induction tree with
  | word w =>
      obtain ⟨other, same⟩ := words w
      simp only [Tree.bind, same, Grouped, Fits]
  | group tree induction => exact induction
  | unary operator tree induction =>
      simp only [Tree.bind, grouped_unary, induction, startsAbove_bind_words words]
  | binary operator left right leftInduction rightInduction =>
      simp only [Tree.bind, grouped_binary, leftInduction, rightInduction,
        endsAbove_bind_words words, startsAbove_bind_words words]

end Words

end Precedence
