import Symbolrt.Lib.Substitution

/-!
# Reading texts as logical formulas

A text is read as a disjunction of conjunctions of literals, so that AND binds
tighter than OR.  A literal is TRUE, a negated literal, a formula in parentheses
or anything else, which counts as an atomic formula.  Which atomic formulas hold
is a parameter: it stands for a valuation.
-/

namespace Formula

/-- What ends a word. -/
def isDelimiter (c : Char) : Bool := Text.isBlank c || c == '(' || c == ')'

/-- A run that holds nothing but separates. -/
def isBlankRun (run : List Char) : Bool := run.any Text.isBlank

/-- Words and parentheses; blanks only separate them. -/
def tokens (text : String) : List String :=
  ((Text.tokenRuns isDelimiter text.toList).filter (fun run => !isBlankRun run)).map
    String.ofList

/-- The depth of parentheses behind a token. -/
def depthBehind (depth : Nat) (token : String) : Nat :=
  if token = "(" then depth + 1 else if token = ")" then depth - 1 else depth

/-- How many parentheses are open behind the items. -/
def depthAfter (depth : Nat) (items : List String) : Nat := items.foldl depthBehind depth

theorem depthAfter_cons (depth : Nat) (token : String) (items : List String) :
    depthAfter depth (token :: items) = depthAfter (depthBehind depth token) items := rfl

/-- No parenthesis closes without having been opened. -/
def NeverNegative : Nat → List String → Prop
  | _, [] => True
  | depth, token :: rest =>
      (token = ")" → 0 < depth) ∧ NeverNegative (depthBehind depth token) rest

instance : (depth : Nat) → (items : List String) → Decidable (NeverNegative depth items)
  | _, [] => inferInstanceAs (Decidable True)
  | depth, token :: rest =>
      have : Decidable (NeverNegative (depthBehind depth token) rest) :=
        instDecidableNeverNegative _ rest
      inferInstanceAs (Decidable ((token = ")" → 0 < depth) ∧ _))

/-- Every parenthesis is closed, and none before it is opened. -/
def Balanced (items : List String) : Prop :=
  NeverNegative 0 items ∧ depthAfter 0 items = 0

instance (items : List String) : Decidable (Balanced items) :=
  inferInstanceAs (Decidable (_ ∧ _))

/-- Puts a token in front of the first piece. -/
def consHead (token : String) : List (List String) → List (List String)
  | [] => [[token]]
  | piece :: pieces => (token :: piece) :: pieces

/-- The pieces between the separators that stand outside of all parentheses. -/
def splitTop (separator : String) : Nat → List String → List (List String)
  | _, [] => [[]]
  | depth, token :: rest =>
      if token = separator ∧ depth = 0 then
        [] :: splitTop separator 0 rest
      else
        consHead token (splitTop separator (depthBehind depth token) rest)

/-- Glues the last piece of one list to the first piece of another. -/
def joinPieces : List (List String) → List (List String) → List (List String)
  | [], others => others
  | [piece], [] => [piece]
  | [piece], other :: others => (piece ++ other) :: others
  | piece :: next :: pieces, others => piece :: joinPieces (next :: pieces) others

section Truth

variable (atom : List String → Prop)

/-- Truth of a literal; the fuel bounds its nesting. -/
def literalHolds : Nat → List String → Prop
  | 0, _ => False
  | _ + 1, [] => atom []
  | fuel + 1, token :: rest =>
      if token = "TRUE" ∧ rest = [] then
        True
      else if token = "FALSE" ∧ rest = [] then
        False
      else if token = "NOT" then
        ¬ literalHolds fuel rest
      else if token = "(" ∧ rest.getLast? = some ")" ∧ Balanced rest.dropLast then
        ∃ disjunct ∈ splitTop "OR" 0 rest.dropLast,
          ∀ conjunct ∈ splitTop "AND" 0 disjunct, literalHolds fuel conjunct
      else
        atom (token :: rest)

/-- Every conjunct outside parentheses holds. -/
def conjunctionHolds (items : List String) : Prop :=
  ∀ conjunct ∈ splitTop "AND" 0 items, literalHolds atom (conjunct.length + 1) conjunct

/-- Some disjunct outside parentheses holds. -/
def tokensHold (items : List String) : Prop :=
  ∃ disjunct ∈ splitTop "OR" 0 items, conjunctionHolds atom disjunct

/-- A text holds as a formula. -/
def holds (text : String) : Prop := tokensHold atom (tokens text)

variable {atom}

/-- Over decidable atomic formulas the truth of a literal can be computed. -/
def decideLiteral [DecidablePred atom] :
    ∀ fuel items, Decidable (literalHolds atom fuel items)
  | 0, _ => isFalse id
  | _ + 1, [] => inferInstanceAs (Decidable (atom []))
  | fuel + 1, token :: rest =>
      have (items : List String) : Decidable (literalHolds atom fuel items) :=
        decideLiteral fuel items
      inferInstanceAs (Decidable (
        if token = "TRUE" ∧ rest = [] then
          True
        else if token = "FALSE" ∧ rest = [] then
          False
        else if token = "NOT" then
          ¬ literalHolds atom fuel rest
        else if token = "(" ∧ rest.getLast? = some ")" ∧ Balanced rest.dropLast then
          ∃ disjunct ∈ splitTop "OR" 0 rest.dropLast,
            ∀ conjunct ∈ splitTop "AND" 0 disjunct, literalHolds atom fuel conjunct
        else
          atom (token :: rest)))

instance [DecidablePred atom] (fuel : Nat) (items : List String) :
    Decidable (literalHolds atom fuel items) := decideLiteral fuel items

instance [DecidablePred atom] (items : List String) : Decidable (conjunctionHolds atom items) :=
  inferInstanceAs (Decidable (∀ conjunct ∈ splitTop "AND" 0 items, _))

instance [DecidablePred atom] (text : String) : Decidable (holds atom text) :=
  inferInstanceAs (Decidable (∃ disjunct ∈ splitTop "OR" 0 (tokens text), _))

example : ¬ holds (fun items => items = ["y", "<", "0"]) "x > 1 AND y < 0 OR NOT (y < 0)" := by
  decide

end Truth

/-- The parentheses of a text match. -/
def BalancedText (text : String) : Prop := Balanced (tokens text)

instance (text : String) : Decidable (BalancedText text) :=
  inferInstanceAs (Decidable (Balanced _))

/-- The words and parentheses of a text, without the blanks. -/
def tokensOfChars (chars : List Char) : List String :=
  ((Text.tokenRuns isDelimiter chars).filter (fun run => !isBlankRun run)).map String.ofList

theorem tokensOfChars_blank (left right : List Char) :
    tokensOfChars (left ++ ' ' :: right) = tokensOfChars left ++ tokensOfChars right := by
  have blank : isBlankRun [' '] = true := by decide
  rw [tokensOfChars, Text.tokenRuns_append_delimiter (by decide), List.filter_append,
    List.filter_cons, blank, List.map_append]
  rfl

theorem tokensOfChars_parenthesis {c : Char} (parenthesis : c = '(' ∨ c = ')')
    (left right : List Char) :
    tokensOfChars (left ++ c :: right) =
      tokensOfChars left ++ String.ofList [c] :: tokensOfChars right := by
  have delimiter : isDelimiter c = true := by rcases parenthesis with rfl | rfl <;> decide
  have notBlank : isBlankRun [c] = false := by rcases parenthesis with rfl | rfl <;> decide
  rw [tokensOfChars, Text.tokenRuns_append_delimiter delimiter, List.filter_append,
    List.filter_cons, notBlank, List.map_append]
  rfl

def andChars : List Char := ['A', 'N', 'D']

theorem tokens_conjunction (left right : String) :
    tokens (left ++ " " ++ "AND" ++ " " ++ right) =
      tokens left ++ "AND" :: tokens right := by
  have chars : (left ++ " " ++ "AND" ++ " " ++ right).toList =
      left.toList ++ ' ' :: (andChars ++ ' ' :: right.toList) := by
    simp [andChars]
  have andToken : tokensOfChars andChars = ["AND"] := by decide
  rw [tokens, chars]
  refine (tokensOfChars_blank left.toList _).trans ?_
  rw [tokensOfChars_blank, andToken]
  rfl

def notChars : List Char := ['N', 'O', 'T']

theorem tokens_negation (text : String) :
    tokens ("NOT" ++ " (" ++ text ++ ")") = "NOT" :: "(" :: (tokens text ++ [")"]) := by
  have chars : ("NOT" ++ " (" ++ text ++ ")").toList =
      notChars ++ ' ' :: ([] ++ '(' :: (text.toList ++ ')' :: [])) := by
    simp [notChars]
  have notToken : tokensOfChars notChars = ["NOT"] := by decide
  rw [tokens, chars]
  refine (tokensOfChars_blank notChars _).trans ?_
  rw [tokensOfChars_parenthesis (Or.inl rfl), tokensOfChars_parenthesis (Or.inr rfl),
    notToken]
  rfl

theorem splitTop_ne_nil (separator : String) (depth : Nat) (items : List String) :
    splitTop separator depth items ≠ [] := by
  cases items with
  | nil => simp [splitTop]
  | cons token rest =>
      rw [splitTop]
      split
      · simp
      · cases splitTop separator (depthBehind depth token) rest <;> simp [consHead]

theorem joinPieces_consHead (token : String) {pieces : List (List String)}
    (nonempty : pieces ≠ []) (others : List (List String)) :
    joinPieces (consHead token pieces) others = consHead token (joinPieces pieces others) := by
  obtain ⟨piece, rest, rfl⟩ := List.exists_cons_of_ne_nil nonempty
  cases rest with
  | nil => cases others <;> rfl
  | cons next rest => rfl

/-- Splitting a concatenation splits both parts and glues the pieces that meet. -/
theorem splitTop_append {separator : String} (connective : separator ≠ "(") (depth : Nat)
    (left right : List String) :
    splitTop separator depth (left ++ right) =
      joinPieces (splitTop separator depth left)
        (splitTop separator (depthAfter depth left) right) := by
  induction left generalizing depth with
  | nil =>
      obtain ⟨piece, rest, pieces⟩ := List.exists_cons_of_ne_nil
        (splitTop_ne_nil separator (depthAfter depth []) right)
      rw [pieces]
      simpa [splitTop, joinPieces, depthAfter] using pieces
  | cons token left induction =>
      rw [List.cons_append, splitTop, splitTop]
      split
      · rename_i atTop
        obtain ⟨rfl, rfl⟩ := atTop
        have unchanged : depthBehind 0 token = 0 := by
          unfold depthBehind
          rw [if_neg connective]
          split <;> rfl
        obtain ⟨piece, rest, pieces⟩ := List.exists_cons_of_ne_nil
          (splitTop_ne_nil token 0 left)
        have behind : depthAfter 0 (token :: left) = depthAfter 0 left := by
          rw [depthAfter_cons, unchanged]
        rw [induction, pieces, joinPieces, behind]
      · rw [induction, joinPieces_consHead _ (splitTop_ne_nil _ _ _)]
        rfl

theorem joinPieces_empty {pieces : List (List String)} (nonempty : pieces ≠ [])
    (others : List (List String)) :
    joinPieces pieces ([] :: others) = pieces ++ others := by
  induction pieces with
  | nil => exact absurd rfl nonempty
  | cons piece pieces induction =>
      cases pieces with
      | nil => simp [joinPieces]
      | cons next pieces =>
          rw [joinPieces, induction (by simp)]
          rfl

theorem joinPieces_append (before : List (List String)) (last first : List String)
    (others : List (List String)) :
    joinPieces (before ++ [last]) (first :: others) =
      before ++ (last ++ first) :: others := by
  induction before with
  | nil => rfl
  | cons piece before induction =>
      cases before with
      | nil => rfl
      | cons next before =>
          rw [List.cons_append, List.cons_append, joinPieces, ← List.cons_append, induction]
          rfl

theorem length_le_of_mem_splitTop {separator : String} {depth : Nat}
    {items piece : List String} (member : piece ∈ splitTop separator depth items) :
    piece.length ≤ items.length := by
  induction items generalizing depth piece with
  | nil =>
      simp only [splitTop, List.mem_singleton] at member
      simp [member]
  | cons token items induction =>
      rw [splitTop] at member
      split at member
      · rcases List.mem_cons.mp member with rfl | later
        · simp
        · have shorter := induction later
          simp only [List.length_cons]
          omega
      · obtain ⟨first, others, pieces⟩ := List.exists_cons_of_ne_nil
          (splitTop_ne_nil separator (depthBehind depth token) items)
        rw [pieces, consHead] at member
        rcases List.mem_cons.mp member with rfl | later
        · have inSplit : first ∈ splitTop separator (depthBehind depth token) items := by
            simp [pieces]
          have shorter := induction inSplit
          simp only [List.length_cons]
          omega
        · have inSplit : piece ∈ splitTop separator (depthBehind depth token) items := by
            simp [pieces, later]
          have shorter := induction inSplit
          simp only [List.length_cons]
          omega

/-- The depth behind the last piece is the depth behind the whole list. -/
theorem depthAfter_last {separator : String} (connective : separator ≠ "(") {depth : Nat}
    {items last : List String} {before : List (List String)}
    (pieces : splitTop separator depth items = before ++ [last]) :
    depthAfter (if before = [] then depth else 0) last = depthAfter depth items := by
  induction items generalizing depth before last with
  | nil =>
      cases before with
      | nil =>
          have same : last = [] := by simpa [splitTop] using pieces.symm
          rw [same]
          rfl
      | cons piece before => simp [splitTop] at pieces
  | cons token items induction =>
      rw [splitTop] at pieces
      split at pieces
      · rename_i atTop
        obtain ⟨rfl, rfl⟩ := atTop
        have unchanged : depthBehind 0 token = 0 := by
          unfold depthBehind
          rw [if_neg connective]
          split <;> rfl
        cases before with
        | nil =>
            have empty : splitTop token 0 items = [] := by simpa using (List.cons.inj pieces).2
            exact absurd empty (splitTop_ne_nil token 0 items)
        | cons piece before =>
            have later := induction (List.cons.inj pieces).2
            rw [depthAfter_cons, unchanged]
            simpa using later
      · obtain ⟨first, others, split⟩ := List.exists_cons_of_ne_nil
          (splitTop_ne_nil separator (depthBehind depth token) items)
        rw [split, consHead] at pieces
        cases before with
        | nil =>
            obtain ⟨rfl, rfl⟩ : token :: first = last ∧ others = [] := by
              simpa using pieces
            have alone : splitTop separator (depthBehind depth token) items =
                [] ++ [first] := split
            exact induction alone
        | cons piece before =>
            obtain ⟨_, rfl⟩ : token :: first = piece ∧ others = before ++ [last] := by
              simpa using pieces
            have longer : splitTop separator (depthBehind depth token) items =
                (first :: before) ++ [last] := split
            have later := induction longer
            rw [depthAfter_cons]
            simpa using later

/-- Behind a parenthesis that stays open nothing is split. -/
theorem splitTop_inside (separator : String) {depth : Nat} {items : List String}
    (neverNegative : NeverNegative depth items) :
    splitTop separator (depth + 1) items = [items] ∧
      depthAfter (depth + 1) items = depthAfter depth items + 1 := by
  induction items generalizing depth with
  | nil => exact ⟨rfl, rfl⟩
  | cons token items induction =>
      obtain ⟨closes, later⟩ := neverNegative
      have deeper : depthBehind (depth + 1) token = depthBehind depth token + 1 := by
        unfold depthBehind
        split
        · rfl
        · split
          · rename_i closing
            have positive := closes closing
            omega
          · rfl
      obtain ⟨pieces, depths⟩ := induction later
      constructor
      · rw [splitTop, if_neg (by omega), deeper, pieces]
        rfl
      · rw [depthAfter_cons, deeper]
        exact depths

/-- The text is a single disjunct: OR stands only in parentheses. -/
def IsDisjunct (text : String) : Prop := splitTop "OR" 0 (tokens text) = [tokens text]

instance (text : String) : Decidable (IsDisjunct text) :=
  inferInstanceAs (Decidable (splitTop "OR" 0 (tokens text) = [tokens text]))

theorem IsDisjunct.conjunction {left right : String} (leftDisjunct : IsDisjunct left)
    (leftClosed : depthAfter 0 (tokens left) = 0) (rightDisjunct : IsDisjunct right) :
    IsDisjunct (left ++ " " ++ "AND" ++ " " ++ right) := by
  have here : splitTop "OR" 0 ("AND" :: tokens right) = ["AND" :: tokens right] := by
    have unchanged : depthBehind 0 "AND" = 0 := by decide
    rw [splitTop, if_neg (by decide), unchanged, rightDisjunct]
    rfl
  rw [IsDisjunct, tokens_conjunction, splitTop_append (by decide), leftClosed, leftDisjunct,
    here]
  rfl

section Composed

variable {atom : List String → Prop}

/-- More fuel than the length of a literal changes nothing. -/
theorem literalHolds_stable {fuel other : Nat} {items : List String}
    (enough : items.length < fuel) (otherEnough : items.length < other) :
    literalHolds atom fuel items ↔ literalHolds atom other items := by
  induction fuel generalizing other items with
  | zero => omega
  | succ fuel induction =>
      obtain ⟨other, rfl⟩ : ∃ smaller, other = smaller + 1 := ⟨other - 1, by omega⟩
      cases items with
      | nil => rfl
      | cons token rest =>
          simp only [List.length_cons] at enough otherEnough
          rw [literalHolds, literalHolds]
          split
          · rfl
          split
          · rfl
          split
          · exact not_congr (induction (by omega) (by omega))
          split
          · rename_i parenthesized
            have shorter : rest.dropLast.length ≤ rest.length := by simp
            apply exists_congr
            intro disjunct
            refine and_congr_right fun inSplit => ?_
            apply forall₂_congr
            intro conjunct inDisjunct
            have disjunctLength := length_le_of_mem_splitTop inSplit
            have conjunctLength := length_le_of_mem_splitTop inDisjunct
            exact induction (by omega) (by omega)
          · rfl

theorem holds_true : holds atom "TRUE" := by
  have read : tokens "TRUE" = ["TRUE"] := by decide
  have disjuncts : splitTop "OR" 0 ["TRUE"] = [["TRUE"]] := by decide
  have conjuncts : splitTop "AND" 0 ["TRUE"] = [["TRUE"]] := by decide
  rw [holds, read, tokensHold, disjuncts]
  refine ⟨["TRUE"], by simp, ?_⟩
  rw [conjunctionHolds, conjuncts]
  intro conjunct member
  rw [List.mem_singleton.mp member]
  exact trivial

theorem conjunctionHolds_append {left right : List String}
    (closed : depthAfter 0 left = 0) :
    conjunctionHolds atom (left ++ "AND" :: right) ↔
      conjunctionHolds atom left ∧ conjunctionHolds atom right := by
  have pieces : splitTop "AND" 0 (left ++ "AND" :: right) =
      splitTop "AND" 0 left ++ splitTop "AND" 0 right := by
    have here : splitTop "AND" 0 ("AND" :: right) = [] :: splitTop "AND" 0 right := by
      rw [splitTop, if_pos ⟨rfl, rfl⟩]
    rw [splitTop_append (by decide), closed, here,
      joinPieces_empty (splitTop_ne_nil _ _ _)]
  unfold conjunctionHolds
  rw [pieces]
  simp only [List.mem_append, or_imp, forall_and]

/-- Two formulas that hold make their conjunction hold, even though OR inside them is
not put in parentheses. -/
theorem holds_conjunction {left right : String} (leftBalanced : BalancedText left)
    (leftHolds : holds atom left) (rightHolds : holds atom right) :
    holds atom (left ++ " " ++ "AND" ++ " " ++ right) := by
  obtain ⟨leftPiece, inLeft, leftTrue⟩ := leftHolds
  obtain ⟨rightPiece, inRight, rightTrue⟩ := rightHolds
  have leftPieces := (List.dropLast_append_getLast
    (splitTop_ne_nil "OR" 0 (tokens left))).symm
  generalize (splitTop "OR" 0 (tokens left)).dropLast = before at leftPieces
  generalize (splitTop "OR" 0 (tokens left)).getLast _ = last at leftPieces
  obtain ⟨first, others, rightPieces⟩ := List.exists_cons_of_ne_nil
    (splitTop_ne_nil "OR" 0 (tokens right))
  have closed : depthAfter 0 last = 0 := by
    have depths := depthAfter_last (by decide) leftPieces
    rw [leftBalanced.2] at depths
    rwa [ite_self] at depths
  have pieces : splitTop "OR" 0 (tokens (left ++ " " ++ "AND" ++ " " ++ right)) =
      before ++ (last ++ "AND" :: first) :: others := by
    have here : splitTop "OR" 0 ("AND" :: tokens right) = ("AND" :: first) :: others := by
      rw [splitTop, if_neg (by decide)]
      have unchanged : depthBehind 0 "AND" = 0 := by decide
      rw [unchanged, rightPieces]
      rfl
    rw [tokens_conjunction, splitTop_append (by decide), leftBalanced.2, here, leftPieces,
      joinPieces_append]
  rw [leftPieces] at inLeft
  rw [rightPieces] at inRight
  unfold holds tokensHold
  rw [pieces]
  rcases List.mem_append.mp inLeft with inBefore | isLast
  · exact ⟨leftPiece, by simp [inBefore], leftTrue⟩
  · rcases List.mem_cons.mp inRight with isFirst | inOthers
    · refine ⟨last ++ "AND" :: first, by simp, ?_⟩
      rw [conjunctionHolds_append closed, ← isFirst, ← List.mem_singleton.mp isLast]
      exact ⟨leftTrue, rightTrue⟩
    · exact ⟨rightPiece, by simp [inOthers], rightTrue⟩

/-- The negation of a text in parentheses is its negation. -/
theorem holds_negation {text : String} (balanced : BalancedText text) :
    holds atom ("NOT" ++ " (" ++ text ++ ")") ↔ ¬ holds atom text := by
  have whole : ∀ separator : String, separator ≠ "NOT" → separator ≠ "(" →
      splitTop separator 0 ("NOT" :: "(" :: (tokens text ++ [")"])) =
        ["NOT" :: "(" :: (tokens text ++ [")"])] := by
    intro separator notNot notParenthesis
    obtain ⟨inside, depths⟩ := splitTop_inside separator balanced.1
    have closing : splitTop separator 1 [")"] = [[")"]] := by
      rw [splitTop, if_neg (by omega)]
      rfl
    have behindNot : depthBehind 0 "NOT" = 0 := by decide
    have behindOpen : depthBehind 0 "(" = 1 := by decide
    rw [splitTop, if_neg (fun atTop => notNot atTop.1.symm), behindNot, splitTop,
      if_neg (fun atTop => notParenthesis atTop.1.symm), behindOpen,
      splitTop_append notParenthesis, inside, depths, balanced.2, closing]
    rfl
  have disjuncts := whole "OR" (by decide) (by decide)
  have conjuncts := whole "AND" (by decide) (by decide)
  have outer : holds atom ("NOT" ++ " (" ++ text ++ ")") ↔
      ¬ literalHolds atom ((tokens text).length + 3) ("(" :: (tokens text ++ [")"])) := by
    rw [holds, tokens_negation, tokensHold, disjuncts]
    simp only [List.mem_singleton, exists_eq_left, conjunctionHolds, conjuncts, forall_eq]
    rw [literalHolds, if_neg (by simp), if_neg (by simp), if_pos rfl]
    simp
  have inner : literalHolds atom ((tokens text).length + 3)
      ("(" :: (tokens text ++ [")"])) ↔ holds atom text := by
    have parenthesized : ("(" : String) = "(" ∧
        (tokens text ++ [")"]).getLast? = some ")" ∧
        Balanced (tokens text ++ [")"]).dropLast := by
      refine ⟨rfl, by simp, ?_⟩
      rw [List.dropLast_concat]
      exact balanced
    rw [literalHolds, if_neg (by simp), if_neg (by simp), if_neg (by decide),
      if_pos parenthesized,
      List.dropLast_concat]
    unfold holds tokensHold conjunctionHolds
    apply exists_congr
    intro disjunct
    refine and_congr_right fun inSplit => ?_
    apply forall₂_congr
    intro conjunct inDisjunct
    have disjunctLength := length_le_of_mem_splitTop inSplit
    have conjunctLength := length_le_of_mem_splitTop inDisjunct
    exact literalHolds_stable (by omega) (by omega)
  rw [outer, inner]

/-- A conjunction of single disjuncts holds exactly if both of its parts do. -/
theorem holds_conjunction_iff {left right : String} (leftDisjunct : IsDisjunct left)
    (leftClosed : depthAfter 0 (tokens left) = 0) (rightDisjunct : IsDisjunct right) :
    holds atom (left ++ " " ++ "AND" ++ " " ++ right) ↔
      holds atom left ∧ holds atom right := by
  have whole := leftDisjunct.conjunction leftClosed rightDisjunct
  unfold holds tokensHold
  rw [whole, leftDisjunct, rightDisjunct]
  simp only [List.mem_singleton, exists_eq_left, tokens_conjunction]
  exact conjunctionHolds_append leftClosed

end Composed

/-- Around the words the depth of the parentheses is the same, and they do not close more
than they open. -/
def IsNeutral (items : List String) : Prop :=
  ∀ depth, depthAfter depth items = depth ∧
    ∀ rest, NeverNegative depth (items ++ rest) ↔ NeverNegative depth rest

theorem IsNeutral.append {items others : List String} (neutral : IsNeutral items)
    (otherNeutral : IsNeutral others) : IsNeutral (items ++ others) := by
  intro depth
  constructor
  · rw [depthAfter, List.foldl_append]
    exact (congrArg (fun depth => depthAfter depth others) (neutral depth).1).trans
      (otherNeutral depth).1
  · intro rest
    rw [List.append_assoc, (neutral depth).2, (otherNeutral depth).2]

theorem IsNeutral.nil : IsNeutral [] := fun _ => ⟨rfl, fun _ => Iff.rfl⟩

theorem IsNeutral.word {item : String} (notOpening : item ≠ "(") (notClosing : item ≠ ")") :
    IsNeutral [item] := by
  intro depth
  have same : depthBehind depth item = depth := by
    rw [depthBehind, if_neg notOpening, if_neg notClosing]
  refine ⟨same, fun rest => ?_⟩
  rw [List.singleton_append, NeverNegative, same]
  exact and_iff_right (fun closing => absurd closing notClosing)

theorem IsNeutral.words {items : List String}
    (plain : ∀ item ∈ items, item ≠ "(" ∧ item ≠ ")") : IsNeutral items := by
  induction items with
  | nil => exact IsNeutral.nil
  | cons item items induction =>
      obtain ⟨notOpening, notClosing⟩ := plain item List.mem_cons_self
      exact (IsNeutral.word notOpening notClosing).append
        (induction (fun other member => plain other (List.mem_cons_of_mem _ member)))

theorem IsNeutral.enclosed {items : List String} (neutral : IsNeutral items) :
    IsNeutral ("(" :: (items ++ [")"])) := by
  intro depth
  have deeper : depthBehind depth "(" = depth + 1 := if_pos rfl
  constructor
  · rw [depthAfter_cons, deeper, depthAfter, List.foldl_append]
    exact congrArg (fun depth => depthBehind depth ")") (neutral (depth + 1)).1
  · intro rest
    have inside := (neutral (depth + 1)).2 (")" :: rest)
    have closed : NeverNegative (depth + 1) (")" :: rest) ↔ NeverNegative depth rest :=
      and_iff_right (fun _ => Nat.succ_pos depth)
    rw [List.cons_append, List.append_assoc, NeverNegative, deeper]
    exact (and_iff_right (fun opening => absurd opening (by decide))).trans (inside.trans closed)

theorem IsNeutral.balanced {items : List String} (neutral : IsNeutral items) : Balanced items := by
  refine ⟨?_, (neutral 0).1⟩
  have whole := (neutral 0).2 []
  rw [List.append_nil] at whole
  exact whole.mpr trivial

end Formula
