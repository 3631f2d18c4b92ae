import Symbolrt.Lib.Formula

/-!
# Conjunctions written without blanks

When nothing stands between a connective and its two formulas, it is a word of its own
exactly if the formulas are delimited where they meet it.
-/

namespace Formula

/-- The text is empty or ends with a delimiter. -/
def EndsDelimited (text : String) : Prop := ∀ c ∈ text.toList.getLast?, isDelimiter c = true

/-- The text is empty or starts with a delimiter. -/
def StartsDelimited (text : String) : Prop := ∀ c ∈ text.toList.head?, isDelimiter c = true

instance (text : String) : Decidable (EndsDelimited text) :=
  inferInstanceAs (Decidable (∀ c ∈ text.toList.getLast?, isDelimiter c = true))

instance (text : String) : Decidable (StartsDelimited text) :=
  inferInstanceAs (Decidable (∀ c ∈ text.toList.head?, isDelimiter c = true))

/-- The two texts, joined by a connective of its own, are their conjunction. -/
def Joins (left right : String) : Prop :=
  ∀ atom : List String → Prop,
    tokensHold atom (tokens left ++ "AND" :: tokens right) ↔ holds atom left ∧ holds atom right

/-- The texts with AND between them. -/
def joined : List String → String
  | [] => "TRUE"
  | first :: rest => rest.foldl (fun text next => text ++ " " ++ "AND" ++ " " ++ next) first

/-- Joined by AND, the texts mean the conjunction of the parts. -/
def Means (texts parts : List String) : Prop :=
  ∀ atom : List String → Prop, holds atom (joined texts) ↔ ∀ part ∈ parts, holds atom part

theorem joined_append {texts : List String} (nonempty : texts ≠ []) (last : String) :
    joined (texts ++ [last]) = joined texts ++ " " ++ "AND" ++ " " ++ last := by
  cases texts with
  | nil => exact absurd rfl nonempty
  | cons first rest => exact List.foldl_append

theorem means_singleton (text : String) : Means [text] [text] := by
  intro atom
  rw [List.forall_mem_singleton]
  rfl

/-- Two texts mean their conjunction exactly if a connective of its own joins them. -/
theorem means_pair_iff (left right : String) : Means [left, right] [left, right] ↔
    Joins left right := by
  apply forall_congr'
  intro atom
  have pair : joined [left, right] = left ++ " " ++ "AND" ++ " " ++ right := rfl
  rw [pair, holds, tokens_conjunction, List.forall_mem_cons, List.forall_mem_singleton]

/-- Texts with matching parentheses and OR only inside them mean their conjunction. -/
theorem means_of_plain {texts : List String} (balanced : ∀ text ∈ texts, BalancedText text)
    (plain : ∀ text ∈ texts, IsDisjunct text) : Means texts texts := by
  have each : ∀ texts : List String, (∀ text ∈ texts, BalancedText text) →
      (∀ text ∈ texts, IsDisjunct text) →
      (IsDisjunct (joined texts) ∧ depthAfter 0 (tokens (joined texts)) = 0) ∧
        Means texts texts := by
    intro texts
    induction texts using List.reverseRecOn with
    | nil =>
        intro _ _
        refine ⟨by decide, fun atom => ?_⟩
        exact iff_of_true holds_true (fun part impossible => absurd impossible List.not_mem_nil)
    | append_singleton texts last induction =>
        intro balanced plain
        obtain ⟨balancedBefore, balancedLast⟩ := List.forall_mem_append.mp balanced
        obtain ⟨plainBefore, plainLast⟩ := List.forall_mem_append.mp plain
        rw [List.forall_mem_singleton] at balancedLast plainLast
        by_cases empty : texts = []
        · rw [empty]
          exact ⟨⟨plainLast, balancedLast.2⟩, means_singleton last⟩
        · obtain ⟨⟨plainJoined, closed⟩, means⟩ := induction balancedBefore plainBefore
          rw [joined_append empty]
          refine ⟨⟨plainJoined.conjunction closed plainLast, ?_⟩, ?_⟩
          · have behind : depthAfter 0 (tokens (joined texts) ++ "AND" :: tokens last) =
                depthAfter (depthAfter 0 (tokens (joined texts))) ("AND" :: tokens last) :=
              List.foldl_append
            rw [tokens_conjunction, behind, closed]
            exact balancedLast.2
          · intro atom
            rw [joined_append empty, holds_conjunction_iff plainJoined closed plainLast, means,
              List.forall_mem_append, List.forall_mem_singleton]
  exact (each texts balanced plain).2

theorem tokensOfChars_append_of_ends {left : List Char}
    (ends : ∀ c ∈ left.getLast?, isDelimiter c = true) (right : List Char) :
    tokensOfChars (left ++ right) = tokensOfChars left ++ tokensOfChars right := by
  rcases List.eq_nil_or_concat' left with rfl | ⟨before, last, rfl⟩
  · rfl
  · have delimiter : isDelimiter last = true := ends last (by simp)
    have whole : (before ++ [last]) ++ right = before ++ last :: right := by simp
    rw [whole, tokensOfChars, tokensOfChars, tokensOfChars,
      Text.tokenRuns_append_delimiter delimiter, Text.tokenRuns_append_delimiter delimiter,
      ← List.map_append, ← List.filter_append]
    simp

theorem tokensOfChars_word {word : List Char} (nonempty : word ≠ [])
    (ordinary : ∀ c ∈ word, isDelimiter c = false) {rest : List Char}
    (starts : ∀ c ∈ rest.head?, isDelimiter c = true) :
    tokensOfChars (word ++ rest) = String.ofList word :: tokensOfChars rest := by
  have visible : isBlankRun word = false := by
    rw [isBlankRun, List.any_eq_false]
    intro c member blank
    have plain := ordinary c member
    simp [isDelimiter, blank] at plain
  rw [tokensOfChars, Text.tokenRuns_word nonempty ordinary rest starts, List.filter_cons,
    visible]
  rfl

/-- The word a text ends with, which may be empty. -/
theorem exists_last_word (chars : List Char) : ∃ before word, chars = before ++ word ∧
    (∀ c ∈ before.getLast?, isDelimiter c = true) ∧ ∀ c ∈ word, isDelimiter c = false := by
  induction chars using List.reverseRecOn with
  | nil => exact ⟨[], [], rfl, by simp, by simp⟩
  | append_singleton chars last induction =>
      obtain ⟨before, word, whole, ends, ordinary⟩ := induction
      by_cases delimiter : isDelimiter last = true
      · refine ⟨chars ++ [last], [], by simp, ?_, by simp⟩
        intro c isLast
        rw [List.getLast?_append] at isLast
        have same : last = c := by simpa using isLast
        rw [← same]
        exact delimiter
      · refine ⟨before, word ++ [last], by simp [whole], ends, ?_⟩
        intro c member
        rcases List.mem_append.mp member with old | new
        · exact ordinary c old
        · rw [List.mem_singleton.mp new]
          simpa using delimiter

/-- The word a text starts with, which may be empty. -/
theorem exists_first_word (chars : List Char) : ∃ word rest, chars = word ++ rest ∧
    (∀ c ∈ word, isDelimiter c = false) ∧ ∀ c ∈ rest.head?, isDelimiter c = true := by
  induction chars with
  | nil => exact ⟨[], [], rfl, by simp, by simp⟩
  | cons first chars induction =>
      obtain ⟨word, rest, whole, ordinary, starts⟩ := induction
      by_cases delimiter : isDelimiter first = true
      · refine ⟨[], first :: chars, rfl, by simp, ?_⟩
        intro c isFirst
        have same : first = c := by simpa using isFirst
        rw [← same]
        exact delimiter
      · refine ⟨first :: word, rest, by simp [whole], ?_, starts⟩
        intro c member
        rcases List.mem_cons.mp member with rfl | later
        · simpa using delimiter
        · exact ordinary c later

/-- The tokens of a word, which may be empty. -/
theorem tokensOfChars_word_eq {word : List Char}
    (ordinary : ∀ c ∈ word, isDelimiter c = false) :
    tokensOfChars word = if word = [] then [] else [String.ofList word] := by
  split
  · rename_i empty
    rw [empty]
    rfl
  · rename_i nonempty
    have alone : tokensOfChars (word ++ []) = String.ofList word :: tokensOfChars [] :=
      tokensOfChars_word nonempty ordinary (by simp)
    rw [List.append_nil] at alone
    exact alone

theorem tokens_glued_iff (left right : String) :
    tokens (left ++ "AND" ++ right) = tokens left ++ "AND" :: tokens right ↔
      EndsDelimited left ∧ StartsDelimited right := by
  obtain ⟨before, last, leftWhole, ends, lastOrdinary⟩ := exists_last_word left.toList
  obtain ⟨first, rest, rightWhole, firstOrdinary, starts⟩ := exists_first_word right.toList
  have andOrdinary : ∀ c ∈ andChars, isDelimiter c = false := by decide
  have glued : tokens (left ++ "AND" ++ right) =
      tokensOfChars before ++
        String.ofList (last ++ andChars ++ first) :: tokensOfChars rest := by
    have chars : (left ++ "AND" ++ right).toList =
        before ++ ((last ++ andChars ++ first) ++ rest) := by
      simp [leftWhole, rightWhole, andChars]
    have nonempty : last ++ andChars ++ first ≠ [] := by simp [andChars]
    have ordinary : ∀ c ∈ last ++ andChars ++ first, isDelimiter c = false := by
      intro c member
      rcases List.mem_append.mp member with front | behind
      · rcases List.mem_append.mp front with inLast | inAnd
        · exact lastOrdinary c inLast
        · exact andOrdinary c inAnd
      · exact firstOrdinary c behind
    rw [tokens, chars]
    refine (tokensOfChars_append_of_ends ends _).trans ?_
    rw [tokensOfChars_word nonempty ordinary starts]
  have leftTokens : tokens left = tokensOfChars before ++ tokensOfChars last := by
    rw [tokens, leftWhole]
    exact tokensOfChars_append_of_ends ends last
  have rightTokens : tokens right = tokensOfChars first ++ tokensOfChars rest := by
    rw [tokens, rightWhole]
    by_cases empty : first = []
    · rw [empty]
      rfl
    · rw [tokensOfChars_word_eq firstOrdinary, if_neg empty]
      exact tokensOfChars_word empty firstOrdinary starts
  rw [glued, leftTokens, rightTokens, tokensOfChars_word_eq lastOrdinary,
    tokensOfChars_word_eq firstOrdinary]
  constructor
  · intro same
    have lengths := congrArg List.length same
    simp only [List.length_append, List.length_cons] at lengths
    have lastEmpty : last = [] := by
      by_contra nonempty
      rw [if_neg nonempty] at lengths
      simp only [List.length_cons, List.length_nil] at lengths
      omega
    have firstEmpty : first = [] := by
      by_contra nonempty
      rw [if_neg nonempty] at lengths
      simp only [List.length_cons, List.length_nil] at lengths
      omega
    constructor
    · rw [EndsDelimited, leftWhole, lastEmpty, List.append_nil]
      exact ends
    · rw [StartsDelimited, rightWhole, firstEmpty, List.nil_append]
      exact starts
  · rintro ⟨leftEnds, rightStarts⟩
    have lastEmpty : last = [] := by
      by_contra nonempty
      have member := List.getLast_mem nonempty
      have delimiter := leftEnds (last.getLast nonempty) (by
        rw [leftWhole, List.getLast?_append, List.getLast?_eq_some_getLast nonempty]
        rfl)
      rw [lastOrdinary _ member] at delimiter
      cases delimiter
    have firstEmpty : first = [] := by
      by_contra nonempty
      obtain ⟨c, others, whole⟩ := List.exists_cons_of_ne_nil nonempty
      have delimiter := rightStarts c (by
        rw [rightWhole, whole]
        rfl)
      rw [firstOrdinary c (by simp [whole])] at delimiter
      cases delimiter
    have andToken : String.ofList andChars = "AND" := by decide
    simp [lastEmpty, firstEmpty, andToken]

/-- Token by token, the text is the conjunction of the two. -/
def IsConjunction (text left right : String) : Prop :=
  tokens text = tokens left ++ "AND" :: tokens right ∧
    ∀ atom : List String → Prop, holds atom text ↔ holds atom left ∧ holds atom right

theorem isConjunction_glued_iff (left right : String) :
    IsConjunction (left ++ "AND" ++ right) left right ↔
      EndsDelimited left ∧ StartsDelimited right ∧ Joins left right := by
  rw [IsConjunction, tokens_glued_iff, and_assoc]
  apply and_congr_right
  intro ends
  apply and_congr_right
  intro starts
  apply forall_congr'
  intro atom
  rw [holds, (tokens_glued_iff left right).mpr ⟨ends, starts⟩]

end Formula
