import Symbolrt.Lib.Text

/-!
# Substituting words in a text

A text is taken apart into words and delimiters, the words are replaced and the
results are put together again.  The words of the new text are the words of the
replacements, because delimiters keep them apart.
-/

namespace Text

section Runs

variable {isDelimiter : Char → Bool}

/-- A delimiter separates the tokens before it from those behind it. -/
theorem tokenRuns_append_delimiter {c : Char} (delimiter : isDelimiter c = true)
    (left right : List Char) :
    tokenRuns isDelimiter (left ++ c :: right) =
      tokenRuns isDelimiter left ++ [c] :: tokenRuns isDelimiter right := by
  induction left with
  | nil => simp [tokenRuns_delimiter delimiter]
  | cons first left induction =>
      rw [List.cons_append, tokenRuns, tokenRuns]
      by_cases firstDelimiter : isDelimiter first = true
      · rw [if_pos firstDelimiter, if_pos firstDelimiter, induction]
        rfl
      · rw [if_neg firstDelimiter, if_neg firstDelimiter, induction]
        cases runs : tokenRuns isDelimiter left with
        | nil => simp [delimiter]
        | cons run others => by_cases mixed : run.any isDelimiter = true <;> simp [mixed]

/-- A text is empty, starts with a delimiter or starts with a word. -/
theorem induction_on_runs (isDelimiter : Char → Bool) {motive : List Char → Prop}
    (nil : motive [])
    (delimiter : ∀ c rest, isDelimiter c = true → motive rest → motive (c :: rest))
    (word : ∀ word rest, word ≠ [] → (∀ c ∈ word, isDelimiter c = false) →
      (∀ c ∈ rest.head?, isDelimiter c = true) → motive rest → motive (word ++ rest))
    (chars : List Char) : motive chars := by
  induction length : chars.length using Nat.strong_induction_on generalizing chars with
  | _ bound induction =>
      cases chars with
      | nil => exact nil
      | cons c rest =>
          by_cases isDelim : isDelimiter c = true
          · apply delimiter c rest isDelim
            exact induction rest.length (by simp [← length]) rest rfl
          · have parts := (List.takeWhile_append_dropWhile
              (p := fun c => !isDelimiter c) (l := c :: rest)).symm
            have nonempty : (c :: rest).takeWhile (fun c => !isDelimiter c) ≠ [] := by
              simp [isDelim]
            rw [parts]
            apply word _ _ nonempty
            · intro other member
              have kept := List.all_eq_true.mp List.all_takeWhile other member
              simpa using kept
            · intro other member
              have stopped := List.head?_dropWhile_not (fun c => !isDelimiter c) (c :: rest)
              rw [Option.mem_def] at member
              rw [member] at stopped
              simpa using stopped
            · apply induction _ ?_ _ rfl
              have positive := List.length_pos_of_ne_nil nonempty
              have total := congrArg List.length parts
              rw [List.length_append] at total
              omega

/-- The tokens that are not delimiters. -/
def wordRuns (isDelimiter : Char → Bool) (chars : List Char) : List (List Char) :=
  (tokenRuns isDelimiter chars).filter (fun run => !run.any isDelimiter)

theorem wordRuns_append_delimiter {c : Char} (delimiter : isDelimiter c = true)
    (left right : List Char) :
    wordRuns isDelimiter (left ++ c :: right) =
      wordRuns isDelimiter left ++ wordRuns isDelimiter right := by
  unfold wordRuns
  rw [tokenRuns_append_delimiter delimiter, List.filter_append, List.filter_cons]
  simp [delimiter]

theorem wordRuns_delimiter {c : Char} (delimiter : isDelimiter c = true)
    (rest : List Char) : wordRuns isDelimiter (c :: rest) = wordRuns isDelimiter rest :=
  wordRuns_append_delimiter delimiter [] rest

theorem wordRuns_word {word : List Char} (nonempty : word ≠ [])
    (ordinary : ∀ c ∈ word, isDelimiter c = false) (rest : List Char)
    (stop : ∀ c ∈ rest.head?, isDelimiter c = true) :
    wordRuns isDelimiter (word ++ rest) = word :: wordRuns isDelimiter rest := by
  have plain : word.any isDelimiter = false := by simpa using ordinary
  unfold wordRuns
  rw [tokenRuns_word nonempty ordinary rest stop, List.filter_cons]
  simp [plain]

theorem wordRuns_single {word : List Char} (nonempty : word ≠ [])
    (ordinary : ∀ c ∈ word, isDelimiter c = false) :
    wordRuns isDelimiter word = [word] := by
  have whole := wordRuns_word nonempty ordinary [] (by simp)
  rw [List.append_nil] at whole
  exact whole

/-- A word is a part of its text. -/
theorem mem_of_mem_tokenRuns {chars run : List Char} (member : run ∈ tokenRuns isDelimiter chars)
    {c : Char} (inRun : c ∈ run) : c ∈ chars := by
  induction chars using induction_on_runs isDelimiter with
  | nil => cases member
  | delimiter first rest isDelim induction =>
      rw [tokenRuns_delimiter isDelim] at member
      rcases List.mem_cons.mp member with rfl | later
      · rw [List.mem_singleton.mp inRun]
        exact List.mem_cons_self
      · exact List.mem_cons_of_mem _ (induction later)
  | word word rest nonempty ordinary stop induction =>
      rw [tokenRuns_word nonempty ordinary rest stop] at member
      rcases List.mem_cons.mp member with rfl | later
      · exact List.mem_append_left _ inRun
      · exact List.mem_append_right _ (induction later)

/-- Replaces the tokens of a text. -/
def substitute (isDelimiter : Char → Bool) (replace : List Char → List Char)
    (chars : List Char) : List Char :=
  (tokenRuns isDelimiter chars).flatMap replace

variable {replace : List Char → List Char}

theorem substitute_delimiter (fixed : ∀ c, isDelimiter c = true → replace [c] = [c]) {c : Char}
    (delimiter : isDelimiter c = true) (rest : List Char) :
    substitute isDelimiter replace (c :: rest) = c :: substitute isDelimiter replace rest := by
  unfold substitute
  rw [tokenRuns_delimiter delimiter, List.flatMap_cons, fixed c delimiter]
  rfl

theorem substitute_word {word : List Char} (nonempty : word ≠ [])
    (ordinary : ∀ c ∈ word, isDelimiter c = false) (rest : List Char)
    (stop : ∀ c ∈ rest.head?, isDelimiter c = true) :
    substitute isDelimiter replace (word ++ rest) =
      replace word ++ substitute isDelimiter replace rest := by
  unfold substitute
  rw [tokenRuns_word nonempty ordinary rest stop, List.flatMap_cons]

/-- The words of the new text are the words of the replacements. -/
theorem wordRuns_substitute (fixed : ∀ c, isDelimiter c = true → replace [c] = [c])
    (chars : List Char) :
    wordRuns isDelimiter (substitute isDelimiter replace chars) =
      (wordRuns isDelimiter chars).flatMap (fun word => wordRuns isDelimiter (replace word)) := by
  induction chars using induction_on_runs isDelimiter with
  | nil => rfl
  | delimiter c rest isDelim induction =>
      rw [substitute_delimiter fixed isDelim, wordRuns_delimiter isDelim,
        wordRuns_delimiter isDelim, induction]
  | word word rest nonempty ordinary stop induction =>
      rw [substitute_word nonempty ordinary rest stop,
        wordRuns_word nonempty ordinary rest stop, List.flatMap_cons, ← induction]
      cases rest with
      | nil =>
          change wordRuns isDelimiter (replace word ++ []) =
            wordRuns isDelimiter (replace word) ++ []
          rw [List.append_nil, List.append_nil]
      | cons c rest =>
          have isDelim : isDelimiter c = true := stop c (by simp)
          rw [substitute_delimiter fixed isDelim, wordRuns_append_delimiter isDelim,
            wordRuns_delimiter isDelim]

end Runs

end Text
