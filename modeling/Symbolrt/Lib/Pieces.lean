import Mathlib.Data.List.TakeWhile
import Symbolrt.Lib.Items
import Symbolrt.Lib.Substitution

/-!
# The pieces at a single character

When the separator is one character, a text is cut at its first occurrence and the rest
in the same way.  A text that does not end with the separator has no empty last piece.
-/

namespace Text

variable {separator : Char}

theorem noMatchIn_single {word : List Char} (absent : separator ∉ word) (rest : List Char) :
    NoMatchIn [separator] word rest := by
  have whole := (noMatchIn_nil [separator] rest).word absent
  rwa [List.append_nil] at whole

theorem pieces_single {word : List Char} (absent : separator ∉ word) :
    pieces [separator] 0 [] word = [word] :=
  pieces_last (noMatchIn_single absent [])

theorem pieces_cut {word : List Char} (absent : separator ∉ word) (rest : List Char) :
    pieces [separator] 0 [] (word ++ separator :: rest) =
      word :: pieces [separator] 0 [] rest :=
  pieces_cons (by simp) (noMatchIn_single absent _)

/-- A text that does not end with the separator has none of it or is cut at the first. -/
theorem cut_cases {text : List Char} (ends : text.getLast? ≠ some separator) :
    separator ∉ text ∨ ∃ word rest, text = word ++ separator :: rest ∧ separator ∉ word ∧
      rest ≠ [] ∧ rest.getLast? ≠ some separator := by
  by_cases occurs : separator ∈ text
  · obtain ⟨word, rest, cut, absent⟩ := List.eq_append_cons_of_mem occurs
    subst cut
    refine Or.inr ⟨word, rest, rfl, absent, ?_, ?_⟩
    · intro empty
      subst empty
      exact ends (by simp)
    · intro last
      exact ends (by simp [List.getLast?_append, List.getLast?_cons, last])
  · exact Or.inl occurs

/-- Its last piece is not empty. -/
theorem exists_last_piece {text : List Char} (nonempty : text ≠ [])
    (ends : text.getLast? ≠ some separator) :
    ∃ earlier last, pieces [separator] 0 [] text = earlier ++ [last] ∧ last ≠ [] := by
  generalize size : text.length = length
  induction length using Nat.strong_induction_on generalizing text with
  | _ length induction =>
      rcases cut_cases ends with absent | ⟨word, rest, cut, absent, restNonempty, restEnds⟩
      · exact ⟨[], text, by rw [pieces_single absent]; rfl, nonempty⟩
      · subst cut
        rw [List.length_append, List.length_cons] at size
        obtain ⟨earlier, last, piecesEq, lastNonempty⟩ :=
          induction rest.length (by omega) restNonempty restEnds rfl
        refine ⟨word :: earlier, last, ?_, lastNonempty⟩
        rw [pieces_cut absent, piecesEq]
        rfl

theorem dropTrailingEmpty_of_last (earlier : List (List Char)) {last : List Char}
    (nonempty : last ≠ []) : dropTrailingEmpty (earlier ++ [last]) = earlier ++ [last] := by
  unfold dropTrailingEmpty
  rw [List.reverse_append, List.reverse_singleton, List.singleton_append,
    List.dropWhile_cons_of_neg (by simpa using nonempty)]
  simp

theorem split_ne_nil {text pattern : String} (single : pattern.toList = [separator])
    (nonempty : text.toList ≠ []) (ends : text.toList.getLast? ≠ some separator) :
    split pattern text ≠ [] := by
  obtain ⟨earlier, last, piecesEq, lastNonempty⟩ := exists_last_piece nonempty ends
  unfold split
  rw [single, piecesEq]
  split
  · exact List.cons_ne_nil _ _
  · intro none
    have dropped := dropTrailingEmpty_of_last earlier lastNonempty
    rw [List.map_eq_nil_iff.mp none] at dropped
    exact List.append_ne_nil_of_right_ne_nil earlier (List.cons_ne_nil last []) dropped.symm

/-- It is split into two parts only if the separator occurs once. -/
theorem split_eq_pair {text first second pattern : String} (single : pattern.toList = [separator])
    (ends : text.toList.getLast? ≠ some separator)
    (parts : split pattern text = [first, second]) :
    separator ∉ first.toList ∧ separator ∉ second.toList ∧
      text.toList = first.toList ++ separator :: second.toList := by
  unfold split at parts
  rw [single] at parts
  rcases cut_cases ends with none | ⟨word, rest, cut, absent, restNonempty, restEnds⟩
  · rw [pieces_single none] at parts
    cases parts
  · rcases cut_cases restEnds with none | ⟨next, behind, cutAgain, nextAbsent, more, behindEnds⟩
    · have dropped : dropTrailingEmpty [word, rest] = [word, rest] :=
        dropTrailingEmpty_of_last [word] restNonempty
      rw [cut, pieces_cut absent, pieces_single none] at parts
      simp only [dropped, List.map_cons, List.map_nil, List.cons.injEq, and_true] at parts
      rw [← parts.1, ← parts.2, String.toList_ofList, String.toList_ofList]
      exact ⟨absent, none, cut⟩
    · obtain ⟨earlier, last, piecesEq, lastNonempty⟩ := exists_last_piece more behindEnds
      have dropped : dropTrailingEmpty (word :: next :: (earlier ++ [last])) =
          word :: next :: (earlier ++ [last]) :=
        dropTrailingEmpty_of_last (word :: next :: earlier) lastNonempty
      rw [cut, cutAgain, pieces_cut absent, pieces_cut nextAbsent, piecesEq] at parts
      simp only [dropped] at parts
      have lengths := congrArg List.length parts
      simp at lengths

theorem dropTrailingEmpty_prefix (items : List (List Char)) :
    dropTrailingEmpty items <+: items := by
  have suffix := List.dropWhile_suffix (l := items.reverse) List.isEmpty
  rw [← List.reverse_prefix, List.reverse_reverse] at suffix
  exact suffix

/-- If there are parts, the first is what stands before the separator. -/
theorem split_first {text pattern : String} (single : pattern.toList = [separator])
    {word rest : List Char} (cut : text.toList = word ++ separator :: rest)
    (absent : separator ∉ word) :
    split pattern text = [] ∧ word = [] ∨
      ∃ others, split pattern text = String.ofList word :: others := by
  obtain ⟨next, behind, more⟩ := List.exists_cons_of_ne_nil (pieces_ne_nil separator [] rest)
  have parts : split pattern text =
      (dropTrailingEmpty (word :: next :: behind)).map String.ofList := by
    unfold split
    rw [single, cut, pieces_cut absent, more]
  rw [parts]
  cases dropped : dropTrailingEmpty (word :: next :: behind) with
  | nil =>
      refine Or.inl ⟨rfl, ?_⟩
      by_contra nonempty
      have kept : dropTrailingEmpty (word :: next :: behind) ≠ [] := by
        unfold dropTrailingEmpty
        intro empty
        have all := List.dropWhile_eq_nil_iff.mp (List.reverse_eq_nil_iff.mp empty) word (by simp)
        exact nonempty (List.isEmpty_iff.mp all)
      exact kept dropped
  | cons first others =>
      have starts := dropTrailingEmpty_prefix (word :: next :: behind)
      rw [dropped] at starts
      rw [(List.cons_prefix_cons.mp starts).1]
      exact Or.inr ⟨_, rfl⟩

section Words

variable {isDelimiter : Char → Bool}

/-- The longest end of a text without delimiters. -/
def lastRun (isDelimiter : Char → Bool) (text : List Char) : List Char :=
  (text.reverse.takeWhile (fun c => !isDelimiter c)).reverse

/-- Only one word holds a character that is no delimiter and occurs once, and it begins
with what stands directly before the character. -/
theorem wordRuns_around {c : Char} (ordinary : isDelimiter c = false) {before after : List Char}
    (absentBefore : c ∉ before) (absentAfter : c ∉ after) :
    ∃ behind, c ∉ behind ∧
      (wordRuns isDelimiter (before ++ c :: after)).filter (fun word => c ∈ word) =
        [lastRun isDelimiter before ++ c :: behind] := by
  have none : ∀ text : List Char, c ∉ text →
      (wordRuns isDelimiter text).filter (fun word => c ∈ word) = [] := by
    intro text absent
    rw [List.filter_eq_nil_iff]
    intro word member inWord
    exact absent (mem_of_mem_tokenRuns (List.mem_filter.mp member).1 (of_decide_eq_true inWord))
  have afterSplit := List.takeWhile_append_dropWhile (p := fun c => !isDelimiter c) (l := after)
  have word : ∀ start : List Char, (∀ d ∈ start, isDelimiter d = false) → c ∉ start →
      (wordRuns isDelimiter (start ++ c :: after)).filter (fun word => c ∈ word) =
        [start ++ c :: after.takeWhile (fun c => !isDelimiter c)] := by
    intro start plain absentStart
    have parts : start ++ c :: after = (start ++ c :: after.takeWhile (fun c => !isDelimiter c)) ++
        after.dropWhile (fun c => !isDelimiter c) := by
      rw [List.append_assoc, List.cons_append, afterSplit]
    rw [parts, wordRuns_word (by simp)]
    · rw [List.filter_cons_of_pos (by simp), none]
      intro member
      exact absentAfter ((List.dropWhile_suffix _).subset member)
    · intro d member
      rcases List.mem_append.mp member with inStart | later
      · exact plain d inStart
      · rcases List.mem_cons.mp later with rfl | inAfter
        · exact ordinary
        · simpa using List.mem_takeWhile_imp inAfter
    · intro d member
      have stops := List.head?_dropWhile_not (fun c => !isDelimiter c) after
      rw [Option.mem_def.mp member] at stops
      simpa using stops
  refine ⟨after.takeWhile (fun c => !isDelimiter c), ?_, ?_⟩
  · exact fun member => absentAfter ((List.takeWhile_prefix _).subset member)
  · have beforeSplit : before = (before.reverse.dropWhile (fun c => !isDelimiter c)).reverse ++
        lastRun isDelimiter before := by
      have whole := congrArg List.reverse (List.takeWhile_append_dropWhile
        (p := fun c => !isDelimiter c) (l := before.reverse))
      rw [List.reverse_append, List.reverse_reverse] at whole
      exact whole.symm
    have plain : ∀ d ∈ lastRun isDelimiter before, isDelimiter d = false := by
      intro d member
      simpa using List.mem_takeWhile_imp (List.mem_reverse.mp member)
    have lastAbsent : c ∉ lastRun isDelimiter before := by
      intro member
      exact absentBefore (List.mem_reverse.mp
        ((List.takeWhile_prefix _).subset (List.mem_reverse.mp member)))
    cases dropped : before.reverse.dropWhile (fun c => !isDelimiter c) with
    | nil =>
        rw [dropped, List.reverse_nil, List.nil_append] at beforeSplit
        rw [← beforeSplit] at plain lastAbsent ⊢
        exact word _ plain lastAbsent
    | cons d rest =>
        have isDelim : isDelimiter d = true := by
          have stops := List.head?_dropWhile_not (fun c => !isDelimiter c) before.reverse
          rw [dropped] at stops
          simpa using stops
        rw [dropped, List.reverse_cons] at beforeSplit
        have parts : before ++ c :: after =
            rest.reverse ++ d :: (lastRun isDelimiter before ++ c :: after) := by
          conv => lhs; rw [beforeSplit]
          simp
        have restAbsent : c ∉ rest.reverse := by
          intro member
          rw [beforeSplit] at absentBefore
          exact absentBefore (by simp [List.mem_reverse.mp member])
        rw [parts, wordRuns_append_delimiter isDelim, List.filter_append, none _ restAbsent,
          word _ plain lastAbsent]
        rfl

/-- A token is a delimiter or a word. -/
theorem mem_tokenRuns_cases {chars run : List Char} (member : run ∈ tokenRuns isDelimiter chars) :
    (∃ c, isDelimiter c = true ∧ run = [c]) ∨
      run ≠ [] ∧ ∀ c ∈ run, isDelimiter c = false := by
  induction chars using induction_on_runs isDelimiter with
  | nil => cases member
  | delimiter c rest isDelim induction =>
      rw [tokenRuns_delimiter isDelim] at member
      rcases List.mem_cons.mp member with same | later
      · exact Or.inl ⟨c, isDelim, same⟩
      · exact induction later
  | word word rest nonempty ordinary stop induction =>
      rw [tokenRuns_word nonempty ordinary rest stop] at member
      rcases List.mem_cons.mp member with same | later
      · rw [same]
        exact Or.inr ⟨nonempty, ordinary⟩
      · exact induction later

/-- A character that ends no replaced piece does not end the text. -/
theorem getLast?_substitute_ne {replace : List Char → List Char} {c : Char} {chars : List Char}
    (pieces : ∀ run ∈ tokenRuns isDelimiter chars, (replace run).getLast? ≠ some c) :
    (substitute isDelimiter replace chars).getLast? ≠ some c := by
  have flattened : ∀ runs : List (List Char), (∀ run ∈ runs, (replace run).getLast? ≠ some c) →
      (runs.flatMap replace).getLast? ≠ some c := by
    intro runs
    induction runs with
    | nil => simp
    | cons run runs induction =>
        intro each last
        rw [List.flatMap_cons, List.getLast?_append] at last
        rcases Option.or_eq_some_iff.mp last with inRest | ⟨_, inRun⟩
        · exact induction (fun other member => each other (List.mem_cons_of_mem _ member)) inRest
        · exact each run List.mem_cons_self inRun
  exact flattened _ pieces

end Words

end Text
