import Mathlib.Data.List.Basic

/-!
# Reading expressions by operator precedence

A text of words, operators and parentheses is read from left to right: an operator
takes as its left operand as much of the tree read so far as its level lets it take.
Every tree has a text; reading it gives the tree back exactly if the levels of its
operators group it that way.
-/

namespace Precedence

/-- Words, operator symbols and parentheses. -/
inductive Token (S W : Type) where
  | word : W → Token S W
  | symbol : S → Token S W
  | opening : Token S W
  | closing : Token S W
  deriving DecidableEq

/-- The operators with their symbols and levels; a higher level binds tighter. -/
structure Grammar (S I P : Type) where
  asBinary : S → Option I
  asUnary : S → Option P
  binarySymbol : I → S
  unarySymbol : P → S
  binaryLevel : I → Nat
  unaryLevel : P → Nat
  asBinary_iff : ∀ symbol operator, asBinary symbol = some operator ↔
    binarySymbol operator = symbol
  asUnary_iff : ∀ symbol operator, asUnary symbol = some operator ↔
    unarySymbol operator = symbol

/-- Expressions over binary operators `I`, unary operators `P` and words `W`. -/
inductive Tree (I P W : Type) where
  | word : W → Tree I P W
  | group : Tree I P W → Tree I P W
  | unary : P → Tree I P W → Tree I P W
  | binary : I → Tree I P W → Tree I P W → Tree I P W
  deriving DecidableEq

variable {S I P W : Type} (grammar : Grammar S I P)

/-- The tokens of a tree. Parentheses stand at groups and nowhere else. -/
def print : Tree I P W → List (Token S W)
  | .word w => [.word w]
  | .group tree => .opening :: (print tree ++ [.closing])
  | .unary operator tree => .symbol (grammar.unarySymbol operator) :: print tree
  | .binary operator left right =>
      print left ++ .symbol (grammar.binarySymbol operator) :: print right

/-- The operators before whose left operands something can be put: none to the left of
them has a lower level. -/
def leading : Tree I P W → List I
  | .word _ => []
  | .group _ => []
  | .unary operator tree =>
      (leading tree).filter (fun other => grammar.binaryLevel other ≤ grammar.unaryLevel operator)
  | .binary operator left right =>
      (leading right).filter
          (fun other => grammar.binaryLevel other ≤ grammar.binaryLevel operator) ++
        operator :: leading left

/-- No operator at the right end has a lower level. -/
def EndsAbove (level : Nat) : Tree I P W → Prop
  | .word _ => True
  | .group _ => True
  | .unary operator tree => level ≤ grammar.unaryLevel operator ∧ EndsAbove level tree
  | .binary operator _ right => level ≤ grammar.binaryLevel operator ∧ EndsAbove level right

instance decidableEndsAbove (level : Nat) : (tree : Tree I P W) →
    Decidable (EndsAbove grammar level tree)
  | .word _ => inferInstanceAs (Decidable True)
  | .group _ => inferInstanceAs (Decidable True)
  | .unary _ tree =>
      have := decidableEndsAbove level tree
      inferInstanceAs (Decidable (_ ∧ _))
  | .binary _ _ right =>
      have := decidableEndsAbove level right
      inferInstanceAs (Decidable (_ ∧ _))

/-- The pairs of operators that may change places: what stands on the left of the first
operator and the first operand of the second may be put together first. -/
structure Exchange (I P : Type) where
  binary : I → I → Bool
  unary : P → I → Bool

def Exchange.never : Exchange I P := ⟨fun _ _ => false, fun _ _ => false⟩

/-- Where the levels do not group the tree as it is, operators may change places. -/
def Fits (exchange : Exchange I P) : Tree I P W → Prop
  | .word _ => True
  | .group tree => Fits exchange tree
  | .unary operator tree => Fits exchange tree ∧
      ∀ other ∈ leading grammar tree,
        grammar.unaryLevel operator < grammar.binaryLevel other ∨
          exchange.unary operator other = true
  | .binary operator left right => Fits exchange left ∧ Fits exchange right ∧
      EndsAbove grammar (grammar.binaryLevel operator) left ∧
      ∀ other ∈ leading grammar right,
        grammar.binaryLevel operator < grammar.binaryLevel other ∨
          exchange.binary operator other = true

instance decidableFits (exchange : Exchange I P) : (tree : Tree I P W) →
    Decidable (Fits grammar exchange tree)
  | .word _ => inferInstanceAs (Decidable True)
  | .group tree => decidableFits exchange tree
  | .unary _ tree =>
      have := decidableFits exchange tree
      inferInstanceAs (Decidable (_ ∧ _))
  | .binary _ left right =>
      have := decidableFits exchange left
      have := decidableFits exchange right
      inferInstanceAs (Decidable (_ ∧ _))

/-- The levels of the operators group the tree as it is. -/
def Grouped (tree : Tree I P W) : Prop := Fits grammar Exchange.never tree

instance (tree : Tree I P W) : Decidable (Grouped grammar tree) :=
  inferInstanceAs (Decidable (Fits _ _ _))

/-- Each of these operators binds tighter than the level. -/
def StartsAbove (level : Nat) (tree : Tree I P W) : Prop :=
  ∀ operator ∈ leading grammar tree, level < grammar.binaryLevel operator

/-- Puts an operator and its right operand behind a tree. -/
def insert (operator : I) (operand : Tree I P W) : Tree I P W → Tree I P W
  | .word w => .binary operator (.word w) operand
  | .group tree => .binary operator (.group tree) operand
  | .unary other tree =>
      if EndsAbove grammar (grammar.binaryLevel operator) (.unary other tree) then
        .binary operator (.unary other tree) operand
      else
        .unary other (insert operator operand tree)
  | .binary other left right =>
      if EndsAbove grammar (grammar.binaryLevel operator) (.binary other left right) then
        .binary operator (.binary other left right) operand
      else
        .binary other left (insert operator operand right)

/-- What has been read in front of an operand; the last unary operator comes first. -/
structure Frame (I P W : Type) where
  left : Option (Tree I P W × I)
  unaries : List P

/-- Nothing is read yet. -/
def Frame.start : Frame I P W := ⟨none, []⟩

/-- A left operand and its operator wait for the right one. -/
def Frame.behind (left : Tree I P W) (operator : I) : Frame I P W := ⟨some (left, operator), []⟩

/-- A further operator in front of the operand to come. -/
def Frame.push (frame : Frame I P W) (operator : P) : Frame I P W :=
  ⟨frame.left, operator :: frame.unaries⟩

/-- Puts unary operators in front of a tree, the first one next to it. -/
def wrap (unaries : List P) (tree : Tree I P W) : Tree I P W :=
  unaries.foldl (fun tree operator => .unary operator tree) tree

/-- The operand closes the frame, with the operators in front of it. -/
def Frame.complete (frame : Frame I P W) (operand : Tree I P W) : Tree I P W :=
  match frame.left with
  | none => wrap frame.unaries operand
  | some (left, operator) => insert grammar operator (wrap frame.unaries operand) left

/-- Before an operand or behind one, with the frames of the open parentheses. -/
inductive State (I P W : Type) where
  | before : Frame I P W → List (Frame I P W) → State I P W
  | behind : Tree I P W → List (Frame I P W) → State I P W

/-- One step of the reader, and `none` where the token cannot stand. -/
def advance : State I P W → Token S W → Option (State I P W)
  | .before frame frames, .word w => some (.behind (frame.complete grammar (.word w)) frames)
  | .before frame frames, .opening => some (.before Frame.start (frame :: frames))
  | .before frame frames, .symbol symbol =>
      (grammar.asUnary symbol).map (fun operator => .before (frame.push operator) frames)
  | .before _ _, .closing => none
  | .behind tree frames, .symbol symbol =>
      (grammar.asBinary symbol).map (fun operator => .before (Frame.behind tree operator) frames)
  | .behind tree (frame :: frames), .closing =>
      some (.behind (frame.complete grammar (.group tree)) frames)
  | .behind _ [], .closing => none
  | .behind _ _, .word _ => none
  | .behind _ _, .opening => none

/-- The tree read, when nothing is open. -/
def State.finished : State I P W → Option (Tree I P W)
  | .behind tree [] => some tree
  | _ => none

/-- Reads a text. -/
def read (tokens : List (Token S W)) : Option (Tree I P W) :=
  (tokens.foldlM (advance grammar) (.before Frame.start [])).bind State.finished

variable {grammar}

variable (grammar) in
/-- The tree that reading the text of a tree behind a frame leads to. -/
def glue (frame : Frame I P W) : Tree I P W → Tree I P W
  | .word w => frame.complete grammar (.word w)
  | .group tree => frame.complete grammar (.group (glue Frame.start tree))
  | .unary operator tree => glue (frame.push operator) tree
  | .binary operator left right => glue (Frame.behind (glue frame left) operator) right

variable (grammar) in
/-- The tree that the levels of the operators make of the text of a tree. -/
def regroup (tree : Tree I P W) : Tree I P W := glue grammar Frame.start tree

theorem advance_print (frame : Frame I P W) (frames : List (Frame I P W)) (tree : Tree I P W) :
    (print grammar tree).foldlM (advance grammar) (.before frame frames) =
      some (.behind (glue grammar frame tree) frames) := by
  induction tree generalizing frame frames with
  | word w => rfl
  | group tree induction =>
      rw [print, List.foldlM_cons, advance, Option.bind_eq_bind, Option.bind_some,
        List.foldlM_append, induction]
      rfl
  | unary operator tree induction =>
      have known := (grammar.asUnary_iff (grammar.unarySymbol operator) operator).mpr rfl
      rw [print, List.foldlM_cons, advance, known, Option.map_some, Option.bind_eq_bind,
        Option.bind_some, induction]
      rfl
  | binary operator left right leftInduction rightInduction =>
      have known := (grammar.asBinary_iff (grammar.binarySymbol operator) operator).mpr rfl
      rw [print, List.foldlM_append, leftInduction, Option.bind_eq_bind, Option.bind_some,
        List.foldlM_cons, advance, known, Option.map_some, Option.bind_eq_bind,
        Option.bind_some, rightInduction]
      rfl

theorem read_print (tree : Tree I P W) :
    read grammar (print grammar tree) = some (regroup grammar tree) := by
  rw [read, advance_print]
  rfl

/-- Trees with one text are regrouped in one way. -/
theorem regroup_eq_of_print {tree other : Tree I P W}
    (same : print grammar tree = print grammar other) :
    regroup grammar tree = regroup grammar other := by
  have read := @read_print _ _ _ _ grammar tree
  rw [same, read_print] at read
  exact (Option.some.inj read).symm

theorem print_insert (operator : I) (operand tree : Tree I P W) :
    print grammar (insert grammar operator operand tree) =
      print grammar tree ++ .symbol (grammar.binarySymbol operator) ::
        print grammar operand := by
  induction tree with
  | word w => rfl
  | group tree induction => rfl
  | unary other tree induction =>
      rw [insert]
      split
      · rfl
      · rw [print, induction]
        rfl
  | binary other left right leftInduction rightInduction =>
      rw [insert]
      split
      · rfl
      · rw [print, rightInduction, print]
        simp

theorem print_wrap (unaries : List P) (tree : Tree I P W) :
    print grammar (wrap unaries tree) =
      (unaries.reverse.map (fun operator => .symbol (grammar.unarySymbol operator))) ++
        print grammar tree := by
  induction unaries generalizing tree with
  | nil => rfl
  | cons operator unaries induction =>
      have whole : wrap (operator :: unaries) tree = wrap unaries (.unary operator tree) := rfl
      rw [whole, induction, print]
      simp

variable (grammar) in
/-- The text in front of an operand. -/
def Frame.text (frame : Frame I P W) : List (Token S W) :=
  (match frame.left with
    | none => []
    | some (left, operator) =>
        print grammar left ++ [.symbol (grammar.binarySymbol operator)]) ++
  frame.unaries.reverse.map (fun operator => .symbol (grammar.unarySymbol operator))

theorem print_complete (frame : Frame I P W) (operand : Tree I P W) :
    print grammar (frame.complete grammar operand) =
      frame.text grammar ++ print grammar operand := by
  obtain ⟨left, unaries⟩ := frame
  cases left with
  | none =>
      rw [Frame.complete, print_wrap]
      rfl
  | some pending =>
      obtain ⟨left, operator⟩ := pending
      rw [Frame.complete, print_insert, print_wrap]
      simp [Frame.text]

variable (grammar) in
/-- The text of the frames of the open parentheses, the innermost first. -/
def openText : List (Frame I P W) → List (Token S W)
  | [] => []
  | frame :: frames => openText frames ++ (frame.text grammar ++ [.opening])

variable (grammar) in
/-- The tokens that lead to the state. -/
def State.text : State I P W → List (Token S W)
  | .before frame frames => openText grammar frames ++ frame.text grammar
  | .behind tree frames => openText grammar frames ++ print grammar tree

theorem text_advance {state next : State I P W} {token : Token S W}
    (stepped : advance grammar state token = some next) :
    next.text grammar = state.text grammar ++ [token] := by
  cases state with
  | before frame frames =>
      cases token with
      | word w =>
          obtain rfl := Option.some.inj stepped
          simp only [State.text, print_complete, print, List.append_assoc]
      | symbol symbol =>
          obtain ⟨operator, known, rfl⟩ := Option.map_eq_some_iff.mp stepped
          have same := (grammar.asUnary_iff symbol operator).mp known
          simp [State.text, Frame.text, Frame.push, same]
      | opening =>
          obtain rfl := Option.some.inj stepped
          simp [State.text, openText, Frame.text, Frame.start]
      | closing => cases stepped
  | behind tree frames =>
      cases token with
      | word w => cases frames <;> cases stepped
      | symbol symbol =>
          have stepped : (grammar.asBinary symbol).map (fun operator =>
              State.before (Frame.behind tree operator) frames) = some next := by
            cases frames <;> exact stepped
          obtain ⟨operator, known, rfl⟩ := Option.map_eq_some_iff.mp stepped
          have same := (grammar.asBinary_iff symbol operator).mp known
          simp [State.text, Frame.text, Frame.behind, same]
      | opening => cases frames <;> cases stepped
      | closing =>
          cases frames with
          | nil => cases stepped
          | cons frame frames =>
              obtain rfl := Option.some.inj stepped
              simp [State.text, openText, print_complete, print]

theorem text_run {state last : State I P W} {tokens : List (Token S W)}
    (run : tokens.foldlM (advance grammar) state = some last) :
    last.text grammar = state.text grammar ++ tokens := by
  induction tokens generalizing state with
  | nil =>
      obtain rfl := Option.some.inj run
      simp
  | cons token tokens induction =>
      obtain ⟨next, stepped, run⟩ := Option.bind_eq_some_iff.mp run
      rw [induction run, text_advance stepped]
      simp

theorem exists_run_of_read {tokens : List (Token S W)} {tree : Tree I P W}
    (isRead : read grammar tokens = some tree) :
    tokens.foldlM (advance grammar) (.before Frame.start []) = some (.behind tree []) := by
  obtain ⟨last, run, finished⟩ := Option.bind_eq_some_iff.mp isRead
  cases last with
  | before frame frames => cases finished
  | behind tree frames =>
      cases frames with
      | nil =>
          obtain rfl := Option.some.inj finished
          exact run
      | cons frame frames => cases finished

theorem print_of_read {tokens : List (Token S W)} {tree : Tree I P W}
    (isRead : read grammar tokens = some tree) : print grammar tree = tokens := by
  have text := text_run (exists_run_of_read isRead)
  simpa [State.text, openText, Frame.text, Frame.start] using text

theorem grouped_unary {operator : P} {tree : Tree I P W} :
    Grouped grammar (.unary operator tree) ↔
      Grouped grammar tree ∧ StartsAbove grammar (grammar.unaryLevel operator) tree := by
  simp [Grouped, Fits, StartsAbove, Exchange.never]

theorem grouped_binary {operator : I} {left right : Tree I P W} :
    Grouped grammar (.binary operator left right) ↔
      Grouped grammar left ∧ Grouped grammar right ∧
        EndsAbove grammar (grammar.binaryLevel operator) left ∧
        StartsAbove grammar (grammar.binaryLevel operator) right := by
  simp [Grouped, Fits, StartsAbove, Exchange.never]

theorem startsAbove_unary {level : Nat} {operator : P} {tree : Tree I P W} :
    StartsAbove grammar level (.unary operator tree) ↔
      ∀ other ∈ leading grammar tree,
        grammar.binaryLevel other ≤ grammar.unaryLevel operator →
          level < grammar.binaryLevel other := by
  simp [StartsAbove, leading]

theorem startsAbove_binary {level : Nat} {operator : I} {left right : Tree I P W} :
    StartsAbove grammar level (.binary operator left right) ↔
      (∀ other ∈ leading grammar right,
        grammar.binaryLevel other ≤ grammar.binaryLevel operator →
          level < grammar.binaryLevel other) ∧
      level < grammar.binaryLevel operator ∧ StartsAbove grammar level left := by
  simp only [StartsAbove, leading, List.mem_append, List.mem_cons, List.mem_filter,
    decide_eq_true_eq, or_imp, forall_and, forall_eq, and_imp]

theorem startsAbove_unary_of {level : Nat} {operator : P} {tree : Tree I P W}
    (starts : StartsAbove grammar (grammar.unaryLevel operator) tree) :
    StartsAbove grammar level (.unary operator tree) := by
  rw [startsAbove_unary]
  intro other listed low
  have high := starts other listed
  omega

theorem startsAbove_binary_of {level : Nat} {operator : I} {left right : Tree I P W}
    (starts : StartsAbove grammar (grammar.binaryLevel operator) right) :
    StartsAbove grammar level (.binary operator left right) ↔
      level < grammar.binaryLevel operator ∧ StartsAbove grammar level left := by
  rw [startsAbove_binary]
  apply and_iff_right
  intro other listed low
  have high := starts other listed
  omega

theorem StartsAbove.weaken {level lower : Nat} {tree : Tree I P W}
    (starts : StartsAbove grammar level tree) (below : lower ≤ level) :
    StartsAbove grammar lower tree := fun operator listed =>
  Nat.lt_of_le_of_lt below (starts operator listed)

/-- The right end of a grouped tree bounds its left end. -/
theorem Grouped.startsAbove {level lower : Nat} {tree : Tree I P W}
    (grouped : Grouped grammar tree) (ends : EndsAbove grammar level tree)
    (below : lower < level) : StartsAbove grammar lower tree := by
  induction tree generalizing level with
  | word w => exact fun operator listed => absurd listed (by simp [leading])
  | group tree induction => exact fun operator listed => absurd listed (by simp [leading])
  | unary operator tree induction =>
      rw [startsAbove_unary]
      intro other listed low
      have high := (grouped_unary.mp grouped).2 other listed
      omega
  | binary operator left right leftInduction rightInduction =>
      obtain ⟨leftGrouped, _, leftEnds, rightStarts⟩ := grouped_binary.mp grouped
      have above : lower < grammar.binaryLevel operator := Nat.lt_of_lt_of_le below ends.1
      rw [startsAbove_binary]
      refine ⟨?_, above, leftInduction leftGrouped leftEnds above⟩
      intro other listed low
      have high := rightStarts other listed
      omega

theorem Grouped.startsAbove_root {level : Nat} {operator : I} {left right : Tree I P W}
    (grouped : Grouped grammar (.binary operator left right))
    (below : level < grammar.binaryLevel operator) :
    StartsAbove grammar level (.binary operator left right) := by
  obtain ⟨leftGrouped, _, leftEnds, rightStarts⟩ := grouped_binary.mp grouped
  exact (startsAbove_binary_of rightStarts).mpr
    ⟨below, leftGrouped.startsAbove leftEnds below⟩

theorem Grouped.startsAbove_unary {level : Nat} {operator : P} {tree : Tree I P W}
    (grouped : Grouped grammar (.unary operator tree)) :
    StartsAbove grammar level (.unary operator tree) :=
  startsAbove_unary_of (grouped_unary.mp grouped).2

/-- What keeps the left end of a grouped tree down is the operator at its root. -/
theorem Grouped.exists_root {level : Nat} {tree : Tree I P W} (grouped : Grouped grammar tree)
    (low : ¬ StartsAbove grammar level tree) :
    ∃ operator left right, tree = .binary operator left right ∧
      grammar.binaryLevel operator ≤ level := by
  cases tree with
  | word w => exact absurd (by simp [StartsAbove, leading]) low
  | group tree => exact absurd (by simp [StartsAbove, leading]) low
  | unary operator tree => exact absurd grouped.startsAbove_unary low
  | binary operator left right =>
      refine ⟨operator, left, right, rfl, ?_⟩
      by_contra above
      exact low (grouped.startsAbove_root (Nat.lt_of_not_le above))

/-- The left end of a grouped tree bounds its right end, if unary operators do not. -/
theorem Grouped.endsAbove {level : Nat} {tree : Tree I P W} (grouped : Grouped grammar tree)
    (starts : StartsAbove grammar level tree)
    (unaries : ∀ operator, level < grammar.unaryLevel operator) :
    EndsAbove grammar (level + 1) tree := by
  induction tree with
  | word w => exact trivial
  | group tree induction => exact trivial
  | unary operator tree induction =>
      obtain ⟨treeGrouped, treeStarts⟩ := grouped_unary.mp grouped
      have above := unaries operator
      exact ⟨above, induction treeGrouped (treeStarts.weaken (Nat.le_of_lt above))⟩
  | binary operator left right leftInduction rightInduction =>
      obtain ⟨_, rightGrouped, _, rightStarts⟩ := grouped_binary.mp grouped
      have above : level < grammar.binaryLevel operator :=
        ((startsAbove_binary_of rightStarts).mp starts).1
      exact ⟨above, rightInduction rightGrouped (rightStarts.weaken (Nat.le_of_lt above))⟩

/-- Inserting keeps a tree grouped, and its left end as high as the operator allows. -/
theorem insert_grouped {operator : I} {operand tree : Tree I P W}
    (grouped : Grouped grammar tree) (operandGrouped : Grouped grammar operand)
    (operandStarts : StartsAbove grammar (grammar.binaryLevel operator) operand) :
    Grouped grammar (insert grammar operator operand tree) ∧
      ∀ level, StartsAbove grammar level tree →
        (EndsAbove grammar (grammar.binaryLevel operator) tree →
          level < grammar.binaryLevel operator) →
        StartsAbove grammar level (insert grammar operator operand tree) := by
  have attached : ∀ tree, Grouped grammar tree →
      EndsAbove grammar (grammar.binaryLevel operator) tree →
      Grouped grammar (.binary operator tree operand) ∧
        ∀ level, StartsAbove grammar level tree →
          (EndsAbove grammar (grammar.binaryLevel operator) tree →
            level < grammar.binaryLevel operator) →
          StartsAbove grammar level (.binary operator tree operand) := by
    intro tree grouped ends
    constructor
    · exact grouped_binary.mpr ⟨grouped, operandGrouped, ends, operandStarts⟩
    · intro level starts above
      exact (startsAbove_binary_of operandStarts).mpr ⟨above ends, starts⟩
  induction tree with
  | word w => exact attached _ grouped trivial
  | group tree induction => exact attached _ grouped trivial
  | unary other tree induction =>
      rw [insert]
      split
      · rename_i ends
        exact attached _ grouped ends
      · rename_i lower
        obtain ⟨treeGrouped, treeStarts⟩ := grouped_unary.mp grouped
        obtain ⟨inserted, insertedStarts⟩ := induction treeGrouped
        have starts := insertedStarts _ treeStarts (by
          intro ends
          by_contra low
          exact lower ⟨Nat.le_of_not_lt low, ends⟩)
        constructor
        · exact grouped_unary.mpr ⟨inserted, starts⟩
        · intro level _ _
          exact startsAbove_unary_of starts
  | binary other left right leftInduction rightInduction =>
      rw [insert]
      split
      · rename_i ends
        exact attached _ grouped ends
      · rename_i lower
        obtain ⟨leftGrouped, rightGrouped, leftEnds, rightStarts⟩ := grouped_binary.mp grouped
        obtain ⟨inserted, insertedStarts⟩ := rightInduction rightGrouped
        have starts := insertedStarts _ rightStarts (by
          intro ends
          by_contra low
          exact lower ⟨Nat.le_of_not_lt low, ends⟩)
        constructor
        · exact grouped_binary.mpr ⟨leftGrouped, inserted, leftEnds, starts⟩
        · intro level treeStarts _
          rw [startsAbove_binary_of rightStarts] at treeStarts
          exact (startsAbove_binary_of starts).mpr treeStarts

theorem not_endsAbove_insert {level : Nat} {operator : I} {operand : Tree I P W}
    (lower : ¬ (level ≤ grammar.binaryLevel operator ∧ EndsAbove grammar level operand))
    (tree : Tree I P W) : ¬ EndsAbove grammar level (insert grammar operator operand tree) := by
  induction tree with
  | word w => exact lower
  | group tree induction => exact lower
  | unary other tree induction =>
      rw [insert]
      split
      · exact lower
      · exact fun ends => induction ends.2
  | binary other left right leftInduction rightInduction =>
      rw [insert]
      split
      · exact lower
      · exact fun ends => rightInduction ends.2

/-- An operator that an operand does not keep out goes into that operand. -/
theorem insert_insert {operator other : I} {operand otherOperand : Tree I P W}
    (lower : ¬ (grammar.binaryLevel other ≤ grammar.binaryLevel operator ∧
      EndsAbove grammar (grammar.binaryLevel other) operand)) (tree : Tree I P W) :
    insert grammar other otherOperand (insert grammar operator operand tree) =
      insert grammar operator (insert grammar other otherOperand operand) tree := by
  have attached : ∀ tree, insert grammar other otherOperand (.binary operator tree operand) =
      .binary operator tree (insert grammar other otherOperand operand) := by
    intro tree
    exact if_neg lower
  induction tree with
  | word w => exact attached _
  | group tree induction => exact attached _
  | unary unaryOperator tree induction =>
      rw [insert, insert]
      split
      · exact attached _
      · rw [insert, if_neg (fun ends => not_endsAbove_insert lower tree ends.2), induction]
  | binary binaryOperator left right leftInduction rightInduction =>
      rw [insert, insert]
      split
      · exact attached _
      · rw [insert, if_neg (fun ends => not_endsAbove_insert lower right ends.2),
          rightInduction]

theorem insert_of_endsAbove {operator : I} {operand tree : Tree I P W}
    (ends : EndsAbove grammar (grammar.binaryLevel operator) tree) :
    insert grammar operator operand tree = .binary operator tree operand := by
  cases tree with
  | word w => rfl
  | group tree => rfl
  | unary other tree => rw [insert, if_pos ends]
  | binary other left right => rw [insert, if_pos ends]

theorem insert_wrap {operator : I} {operand tree : Tree I P W} (unaries : List P)
    (lower : ¬ EndsAbove grammar (grammar.binaryLevel operator) tree) :
    insert grammar operator operand (wrap unaries tree) =
      wrap unaries (insert grammar operator operand tree) := by
  induction unaries generalizing tree with
  | nil => rfl
  | cons unaryOperator unaries induction =>
      have stays : insert grammar operator operand (.unary unaryOperator tree) =
          .unary unaryOperator (insert grammar operator operand tree) := by
        rw [insert, if_neg (fun ends => lower ends.2)]
      have whole : ∀ tree : Tree I P W, wrap (unaryOperator :: unaries) tree =
          wrap unaries (.unary unaryOperator tree) := fun _ => rfl
      have lowerUnary : ¬ EndsAbove grammar (grammar.binaryLevel operator)
          (.unary unaryOperator tree) := fun ends => lower ends.2
      rw [whole, whole, induction lowerUnary, stays]

theorem not_endsAbove_wrap {level : Nat} {tree : Tree I P W} (unaries : List P)
    (lower : ¬ EndsAbove grammar level tree) : ¬ EndsAbove grammar level (wrap unaries tree) := by
  induction unaries generalizing tree with
  | nil => exact lower
  | cons operator unaries induction => exact induction (fun ends => lower ends.2)

variable (grammar) in
/-- The level of the last operator that waits for an operand. -/
def Frame.level (frame : Frame I P W) : Option Nat :=
  match frame.unaries with
  | operator :: _ => some (grammar.unaryLevel operator)
  | [] => frame.left.map (fun pending => grammar.binaryLevel pending.2)

/-- Behind an operand that the operator takes, the operator goes to the operand. -/
theorem insert_complete {frame : Frame I P W} {operator : I} {left right : Tree I P W}
    (below : ∀ level ∈ frame.level grammar, level < grammar.binaryLevel operator)
    (ends : EndsAbove grammar (grammar.binaryLevel operator) left) :
    insert grammar operator right (frame.complete grammar left) =
      frame.complete grammar (.binary operator left right) := by
  have taken := @insert_of_endsAbove _ _ _ _ grammar operator right left ends
  obtain ⟨pending, unaries⟩ := frame
  have wrapped : unaries ≠ [] → insert grammar operator right (wrap unaries left) =
      wrap unaries (.binary operator left right) ∧
      ¬ EndsAbove grammar (grammar.binaryLevel operator) (wrap unaries left) := by
    intro nonempty
    obtain ⟨first, others, rfl⟩ := List.exists_cons_of_ne_nil nonempty
    have low : grammar.unaryLevel first < grammar.binaryLevel operator := below _ rfl
    have lower : ¬ EndsAbove grammar (grammar.binaryLevel operator) (.unary first left) :=
      fun ends => absurd ends.1 (by omega)
    constructor
    · have inside : insert grammar operator right (.unary first left) =
          .unary first (.binary operator left right) := by
        rw [insert, if_neg lower, taken]
      have stays := @insert_wrap _ _ _ _ grammar operator right _ others lower
      rw [inside] at stays
      exact stays
    · exact not_endsAbove_wrap others lower
  cases pending with
  | none =>
      cases unaries with
      | nil => exact taken
      | cons first others => exact (wrapped (by simp)).1
  | some pending =>
      obtain ⟨tree, other⟩ := pending
      cases unaries with
      | nil =>
          have low : grammar.binaryLevel other < grammar.binaryLevel operator := below _ rfl
          have lower : ¬ (grammar.binaryLevel operator ≤ grammar.binaryLevel other ∧
              EndsAbove grammar (grammar.binaryLevel operator) left) := by omega
          refine (insert_insert lower tree).trans ?_
          rw [taken]
          rfl
      | cons first others =>
          obtain ⟨inside, lower⟩ := wrapped (by simp)
          refine (insert_insert (fun both => lower both.2) tree).trans ?_
          rw [inside]
          rfl

/-- A grouped tree is read as one operand. -/
theorem Grouped.glue_eq {frame : Frame I P W} {tree : Tree I P W}
    (grouped : Grouped grammar tree)
    (admits : ∀ level ∈ frame.level grammar, StartsAbove grammar level tree) :
    glue grammar frame tree = frame.complete grammar tree := by
  induction tree generalizing frame with
  | word w => rfl
  | group tree induction =>
      have inside : glue grammar Frame.start tree = tree :=
        induction grouped (fun level impossible => by cases impossible)
      rw [glue, inside]
  | unary operator tree induction =>
      obtain ⟨treeGrouped, starts⟩ := grouped_unary.mp grouped
      apply induction treeGrouped
      intro level last
      rw [← Option.some.inj last]
      exact starts
  | binary operator left right leftInduction rightInduction =>
      obtain ⟨leftGrouped, rightGrouped, leftEnds, rightStarts⟩ := grouped_binary.mp grouped
      have leftAdmits : ∀ level ∈ frame.level grammar,
          level < grammar.binaryLevel operator ∧ StartsAbove grammar level left :=
        fun level last => (startsAbove_binary_of rightStarts).mp (admits level last)
      have leftGlued := leftInduction leftGrouped (fun level last => (leftAdmits level last).2)
      have rightGlued := @rightInduction (Frame.behind (frame.complete grammar left)
        operator) rightGrouped (by
          intro level last
          rw [← Option.some.inj last]
          exact rightStarts)
      rw [glue, leftGlued, rightGlued]
      exact insert_complete (fun level last => (leftAdmits level last).1) leftEnds

theorem Grouped.regroup_eq {tree : Tree I P W} (grouped : Grouped grammar tree) :
    regroup grammar tree = tree :=
  @Grouped.glue_eq _ _ _ _ grammar Frame.start _ grouped
    (fun level impossible => by cases impossible)

/-- Behind an operator, a grouped tree whose operators all bind tighter is its operand. -/
theorem glue_behind_of_startsAbove {operator : I} {left right : Tree I P W}
    (grouped : Grouped grammar right)
    (starts : StartsAbove grammar (grammar.binaryLevel operator) right) :
    glue grammar (Frame.behind left operator) right = insert grammar operator right left := by
  have whole := @Grouped.glue_eq _ _ _ _ grammar (Frame.behind left operator) right grouped (by
    intro level last
    rw [← Option.some.inj last]
    exact starts)
  exact whole

/-- Behind an operator, the operands of a grouped tree are inserted one by one. -/
theorem glue_behind_binary {operator other : I} {left first second : Tree I P W}
    (grouped : Grouped grammar (.binary other first second)) :
    glue grammar (Frame.behind left operator) (.binary other first second) =
      insert grammar other second (glue grammar (Frame.behind left operator) first) := by
  obtain ⟨_, secondGrouped, _, starts⟩ := grouped_binary.mp grouped
  exact glue_behind_of_startsAbove secondGrouped starts

theorem grouped_wrap {unaries : List P} {tree : Tree I P W} (grouped : Grouped grammar tree)
    (starts : ∀ level, StartsAbove grammar level tree) :
    Grouped grammar (wrap unaries tree) ∧
      ∀ level, StartsAbove grammar level (wrap unaries tree) := by
  induction unaries generalizing tree with
  | nil => exact ⟨grouped, starts⟩
  | cons operator unaries induction =>
      apply induction
      · exact grouped_unary.mpr ⟨grouped, starts _⟩
      · exact fun level => startsAbove_unary_of (starts _)

variable (grammar) in
def Frame.IsGrouped (frame : Frame I P W) : Prop :=
  ∀ pending ∈ frame.left, Grouped grammar pending.1

theorem Frame.IsGrouped.complete {frame : Frame I P W} {operand : Tree I P W}
    (isGrouped : frame.IsGrouped grammar) (grouped : Grouped grammar operand)
    (starts : ∀ level, StartsAbove grammar level operand) :
    Grouped grammar (frame.complete grammar operand) := by
  obtain ⟨wrapped, wrappedStarts⟩ := @grouped_wrap _ _ _ _ grammar frame.unaries _ grouped starts
  obtain ⟨left, unaries⟩ := frame
  cases left with
  | none => exact wrapped
  | some pending => exact (insert_grouped (isGrouped pending rfl) wrapped (wrappedStarts _)).1

theorem grouped_glue {frame : Frame I P W} (isGrouped : frame.IsGrouped grammar)
    (tree : Tree I P W) : Grouped grammar (glue grammar frame tree) := by
  have leaf : ∀ {tree : Tree I P W}, leading grammar tree = [] →
      ∀ level, StartsAbove grammar level tree := by
    intro tree empty level operator listed
    rw [empty] at listed
    cases listed
  induction tree generalizing frame with
  | word w => exact isGrouped.complete trivial (leaf rfl)
  | group tree induction =>
      apply isGrouped.complete
      · exact induction (fun pending impossible => by cases impossible)
      · exact leaf rfl
  | unary operator tree induction => exact induction isGrouped
  | binary operator left right leftInduction rightInduction =>
      apply rightInduction
      intro pending last
      rw [← Option.some.inj last]
      exact leftInduction isGrouped

theorem grouped_regroup (tree : Tree I P W) : Grouped grammar (regroup grammar tree) :=
  grouped_glue (fun pending impossible => by cases impossible) tree

theorem print_regroup (tree : Tree I P W) :
    print grammar (regroup grammar tree) = print grammar tree :=
  print_of_read (read_print tree)

theorem grouped_of_read {tokens : List (Token S W)} {tree : Tree I P W}
    (isRead : read grammar tokens = some tree) : Grouped grammar tree := by
  have again := @read_print _ _ _ _ grammar tree
  rw [print_of_read isRead, isRead] at again
  rw [Option.some.inj again]
  exact grouped_regroup tree

end Precedence
