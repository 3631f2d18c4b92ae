import Mathlib.Data.List.Infix

/-!
# Text primitives

Splitting at a literal separator, tokenizing at delimiter characters, trimming
and substring search, all computed on the characters of a string.  The splitting
functions follow the usual library conventions: a separator is matched from left
to right without overlaps, and empty pieces at the end are dropped unless the
separator does not occur at all.
-/

namespace Text

/-- What holds of every character of a text is decided along the text. -/
instance (priority := 2000) decidableForallMem {predicate : Char → Prop}
    [DecidablePred predicate] (chars : List Char) : Decidable (∀ c ∈ chars, predicate c) :=
  List.decidableBAll predicate chars

instance (priority := 2000) decidableForallMemOption {predicate : Char → Prop}
    [DecidablePred predicate] (char : Option Char) : Decidable (∀ c ∈ char, predicate c) :=
  Option.decidableForallMem char

instance (priority := 2000) decidableExistsMemOption {predicate : Char → Prop}
    [DecidablePred predicate] (char : Option Char) : Decidable (∃ c ∈ char, predicate c) :=
  Option.decidableExistsMem char

/-- Characters up to the space count as blank. -/
def isBlank (c : Char) : Bool := c.val ≤ 32

/-- The characters without the blanks on both sides. -/
def trimChars (chars : List Char) : List Char :=
  ((chars.dropWhile isBlank).reverse.dropWhile isBlank).reverse

def trim (text : String) : String := String.ofList (trimChars text.toList)

theorem dropWhile_eq_self {predicate : Char → Bool} {chars : List Char}
    (none : ∀ c ∈ chars, predicate c = false) :
    chars.dropWhile predicate = chars := by
  cases chars with
  | nil => rfl
  | cons head tail => simp [none head (by simp)]

theorem trimChars_eq_self {chars : List Char}
    (none : ∀ c ∈ chars, isBlank c = false) : trimChars chars = chars := by
  have reversed : ∀ c ∈ chars.reverse, isBlank c = false := by
    intro c member
    exact none c (List.mem_reverse.mp member)
  simp [trimChars, dropWhile_eq_self none, dropWhile_eq_self reversed]

/-- A text whose ends are not blank is not changed by trimming. -/
theorem trimChars_of_ends {first last : Char} {middle : List Char}
    (firstKept : isBlank first = false) (lastKept : isBlank last = false) :
    trimChars (first :: (middle ++ [last])) = first :: (middle ++ [last]) := by
  simp [trimChars, firstKept, lastKept]

theorem trimChars_append_blank {chars : List Char} {blank : Char}
    (isBlankChar : isBlank blank = true)
    (none : ∀ c ∈ chars, isBlank c = false) :
    trimChars (chars ++ [blank]) = chars := by
  have reversed : ∀ c ∈ chars.reverse, isBlank c = false := by
    intro c member
    exact none c (List.mem_reverse.mp member)
  cases chars with
  | nil => simp [trimChars, isBlankChar]
  | cons head tail =>
      have kept := dropWhile_eq_self reversed
      have headKept := none head (by simp)
      simp only [List.reverse_cons] at kept
      simp [trimChars, isBlankChar, headKept, kept]

/-- Trimming removes a blank behind a text whose ends are not blank. -/
theorem trimChars_padded {chars : List Char} {blank : Char} (isBlankChar : isBlank blank = true)
    (headKept : ∀ c ∈ chars.head?, isBlank c = false)
    (lastKept : ∀ c ∈ chars.getLast?, isBlank c = false) :
    trimChars (chars ++ [blank]) = chars := by
  have kept : ∀ {items : List Char}, (∀ c ∈ items.head?, isBlank c = false) →
      items.dropWhile isBlank = items := by
    intro items headKept
    cases items with
    | nil => rfl
    | cons head tail => simp [headKept head rfl]
  cases chars with
  | nil => simp [trimChars, isBlankChar]
  | cons head tail =>
      have front : (head :: tail ++ [blank]).dropWhile isBlank = head :: tail ++ [blank] :=
        kept (fun c member => headKept c member)
      have back : (head :: tail).reverse.dropWhile isBlank = (head :: tail).reverse := by
        apply kept
        intro c member
        rw [List.head?_reverse] at member
        exact lastKept c member
      rw [trimChars, front, List.reverse_append, List.reverse_singleton, List.singleton_append,
        List.dropWhile_cons_of_pos isBlankChar, back, List.reverse_reverse]

theorem trimChars_blank_append {blanks chars : List Char}
    (allBlank : ∀ c ∈ blanks, isBlank c = true) :
    trimChars (blanks ++ chars) = trimChars chars := by
  induction blanks with
  | nil => rfl
  | cons head tail induction =>
      have headBlank : isBlank head = true := allBlank head (by simp)
      have tailBlank := induction (fun c member => allBlank c (by simp [member]))
      simpa [trimChars, headBlank] using tailBlank

/-- Pieces of the text between matches of the separator.  `skip` counts the
characters of the current match still to be passed over, `current` holds the
open piece in reverse. -/
def pieces (separator : List Char) :
    Nat → List Char → List Char → List (List Char)
  | _, current, [] => [current.reverse]
  | skip + 1, current, _ :: rest => pieces separator skip current rest
  | 0, current, c :: rest =>
      if separator.isPrefixOf (c :: rest) then
        current.reverse :: pieces separator (separator.length - 1) [] rest
      else
        pieces separator 0 (c :: current) rest

/-- Empty pieces at the end are dropped, others are kept. -/
def dropTrailingEmpty (items : List (List Char)) : List (List Char) :=
  (items.reverse.dropWhile List.isEmpty).reverse

/-- Splitting at a literal separator, trailing empty pieces removed. -/
def split (separator text : String) : List String :=
  match pieces separator.toList 0 [] text.toList with
  | [_] => [text]
  | items => (dropTrailingEmpty items).map String.ofList

theorem pieces_skip (separator : List Char) (current passed rest : List Char) :
    pieces separator passed.length current (passed ++ rest) =
      pieces separator 0 current rest := by
  induction passed with
  | nil => rfl
  | cons head tail induction => simpa [pieces] using induction

/-- No match of the separator starts inside `piece` when `rest` follows it. -/
def NoMatchIn (separator piece rest : List Char) : Prop :=
  ∀ before after, piece = before ++ after → after ≠ [] →
    ¬ separator <+: after ++ rest

theorem NoMatchIn.tail {separator piece rest : List Char} {head : Char}
    (noMatch : NoMatchIn separator (head :: piece) rest) :
    NoMatchIn separator piece rest := by
  intro before after equality nonempty
  exact noMatch (head :: before) after (by simp [equality]) nonempty

theorem noMatchIn_nil (separator rest : List Char) :
    NoMatchIn separator [] rest := by
  intro before after equality nonempty
  exact absurd (List.append_eq_nil_iff.mp equality.symm).2 nonempty

theorem NoMatchIn.cons {separator piece rest : List Char} {head : Char}
    (here : ¬ separator <+: head :: (piece ++ rest))
    (noMatch : NoMatchIn separator piece rest) :
    NoMatchIn separator (head :: piece) rest := by
  intro before after equality nonempty
  cases before with
  | nil =>
      have same : after = head :: piece := equality.symm
      simpa [same] using here
  | cons first before =>
      exact noMatch before after (List.cons.inj equality).2 nonempty

/-- A word without the first character of the separator cannot start a match. -/
theorem NoMatchIn.word {separator piece rest word : List Char} {first : Char}
    (noMatch : NoMatchIn (first :: separator) piece rest)
    (absent : first ∉ word) :
    NoMatchIn (first :: separator) (word ++ piece) rest := by
  induction word with
  | nil => exact noMatch
  | cons head tail induction =>
      have different : first ≠ head := fun same => absent (by simp [same])
      have tailAbsent : first ∉ tail := fun member => absent (by simp [member])
      refine NoMatchIn.cons ?_ (induction tailAbsent)
      intro matched
      exact different (List.cons_prefix_cons.mp matched).1

theorem pieces_of_noMatch {separator : List Char} (current : List Char)
    {piece rest : List Char} (noMatch : NoMatchIn separator piece rest) :
    pieces separator 0 current (piece ++ rest) =
      pieces separator 0 (piece.reverse ++ current) rest := by
  induction piece generalizing current with
  | nil => rfl
  | cons head tail induction =>
      have here : ¬ separator <+: head :: (tail ++ rest) :=
        noMatch [] (head :: tail) rfl (by simp)
      have rejected : separator.isPrefixOf (head :: (tail ++ rest)) = false := by
        simpa [Bool.eq_false_iff, List.isPrefixOf_iff_prefix] using here
      simp [pieces, rejected, induction (head :: current) noMatch.tail]

theorem pieces_last {separator piece : List Char}
    (noMatch : NoMatchIn separator piece []) :
    pieces separator 0 [] piece = [piece] := by
  simpa [pieces] using pieces_of_noMatch [] noMatch

theorem pieces_cons {separator piece rest : List Char} (nonempty : separator ≠ [])
    (noMatch : NoMatchIn separator piece (separator ++ rest)) :
    pieces separator 0 [] (piece ++ (separator ++ rest)) =
      piece :: pieces separator 0 [] rest := by
  obtain ⟨head, tail, rfl⟩ := List.exists_cons_of_ne_nil nonempty
  have matched : (head :: tail).isPrefixOf (head :: (tail ++ rest)) = true := by
    simp [List.isPrefixOf_iff_prefix]
  rw [pieces_of_noMatch [] noMatch]
  simpa [pieces, matched] using pieces_skip (head :: tail) [] tail rest

/-- Splitting what was joined gives the items back. -/
theorem pieces_intercalate {separator : List Char} (nonempty : separator ≠ [])
    (first : List Char) (others : List (List Char))
    (noMatch : ∀ item ∈ first :: others, ∀ rest,
      rest = [] ∨ (∃ after, rest = separator ++ after) →
        NoMatchIn separator item rest) :
    pieces separator 0 [] (separator.intercalate (first :: others)) =
      first :: others := by
  induction others generalizing first with
  | nil =>
      have only := noMatch first (by simp) [] (Or.inl rfl)
      simpa [List.intercalate] using pieces_last only
  | cons second others induction =>
      have here := noMatch first (by simp)
        (separator ++ separator.intercalate (second :: others))
        (Or.inr ⟨_, rfl⟩)
      have later := induction second (fun item member =>
        noMatch item (by simp [List.mem_cons.mp member]))
      have unfolded : separator.intercalate (first :: second :: others) =
          first ++ (separator ++ separator.intercalate (second :: others)) := by
        simp [List.intercalate]
      rw [unfolded, pieces_cons nonempty here, later]

theorem dropTrailingEmpty_eq_self {items : List (List Char)}
    (nonempty : ∀ item ∈ items, item ≠ []) : dropTrailingEmpty items = items := by
  unfold dropTrailingEmpty
  cases reversed : items.reverse with
  | nil => simpa using reversed
  | cons last others =>
      have member : last ∈ items := by
        rw [← List.mem_reverse, reversed]
        simp
      have kept : last.isEmpty = false := by
        simpa using nonempty last member
      rw [List.dropWhile_cons_of_neg (by simp [kept]), ← reversed,
        List.reverse_reverse]

theorem split_of_pieces {separator text : String} {items : List (List Char)}
    (pieced : pieces separator.toList 0 [] text.toList = items)
    (single : ∀ item, items = [item] → item = text.toList)
    (nonempty : ∀ item ∈ items, item ≠ []) :
    split separator text = items.map String.ofList := by
  unfold split
  rw [pieced]
  match items, single, nonempty with
  | [item], single, _ => simp [single item rfl]
  | [], _, _ => rfl
  | first :: second :: others, _, nonempty =>
      simp [dropTrailingEmpty_eq_self nonempty]

theorem split_intercalate {separator text : String} (nonempty : separator.toList ≠ [])
    {first : List Char} {others : List (List Char)}
    (joined : text.toList = separator.toList.intercalate (first :: others))
    (noMatch : ∀ item ∈ first :: others, ∀ rest,
      rest = [] ∨ (∃ after, rest = separator.toList ++ after) →
        NoMatchIn separator.toList item rest)
    (itemsNonempty : ∀ item ∈ first :: others, item ≠ []) :
    split separator text = (first :: others).map String.ofList := by
  apply split_of_pieces
  · rw [joined]
    exact pieces_intercalate nonempty first others noMatch
  · intro item single
    have noOthers : others = [] := by simpa using (List.cons.inj single).2
    have same : first = item := (List.cons.inj single).1
    rw [joined, noOthers, same]
    simp [List.intercalate]
  · exact itemsNonempty

/-- Maximal runs of ordinary characters, each delimiter being a token of its
own. -/
def tokenRuns (isDelimiter : Char → Bool) : List Char → List (List Char)
  | [] => []
  | c :: rest =>
      if isDelimiter c then
        [c] :: tokenRuns isDelimiter rest
      else
        match tokenRuns isDelimiter rest with
        | [] => [[c]]
        | run :: runs =>
            if run.any isDelimiter then [c] :: run :: runs else (c :: run) :: runs

/-- Tokens of a text, delimiters included. -/
def tokensWithDelimiters (delimiters text : String) : List String :=
  (tokenRuns (delimiters.toList.contains ·) text.toList).map String.ofList

/-- Tokens of a text, delimiters left out. -/
def tokens (delimiters text : String) : List String :=
  ((tokenRuns (delimiters.toList.contains ·) text.toList).filter
    (fun run => !run.any (delimiters.toList.contains ·))).map String.ofList

section Runs

variable {isDelimiter : Char → Bool}

@[simp] theorem tokenRuns_nil : tokenRuns isDelimiter [] = [] := rfl

theorem tokenRuns_delimiter {c : Char} (delimiter : isDelimiter c = true)
    (rest : List Char) :
    tokenRuns isDelimiter (c :: rest) = [c] :: tokenRuns isDelimiter rest := by
  simp [tokenRuns, delimiter]

/-- A word in front of a delimiter, or at the end of the text, is one token. -/
theorem tokenRuns_word {word : List Char} (nonempty : word ≠ [])
    (ordinary : ∀ c ∈ word, isDelimiter c = false) (rest : List Char)
    (stop : ∀ c ∈ rest.head?, isDelimiter c = true) :
    tokenRuns isDelimiter (word ++ rest) = word :: tokenRuns isDelimiter rest := by
  induction word with
  | nil => exact absurd rfl nonempty
  | cons head tail induction =>
      have headOrdinary : isDelimiter head = false := ordinary head (by simp)
      have tailOrdinary : ∀ c ∈ tail, isDelimiter c = false :=
        fun c member => ordinary c (by simp [member])
      cases tail with
      | nil =>
          cases rest with
          | nil => simp [tokenRuns, headOrdinary]
          | cons next rest =>
              have nextDelimiter : isDelimiter next = true := stop next (by simp)
              simp [tokenRuns, headOrdinary, nextDelimiter]
      | cons second tail =>
          have later := induction (by simp) tailOrdinary
          have plain : (second :: tail).any isDelimiter = false := by
            simpa using tailOrdinary
          rw [List.cons_append, tokenRuns, later]
          simp [headOrdinary, plain]

end Runs

/-- The first occurrence of a separator splits a text in one way. -/
theorem append_cons_inj_left {α : Type} {separator : α} {left other right rest : List α}
    (absent : separator ∉ left) (otherAbsent : separator ∉ other)
    (same : left ++ separator :: right = other ++ separator :: rest) :
    left = other ∧ right = rest := by
  induction left generalizing other with
  | nil =>
      cases other with
      | nil => exact ⟨rfl, by simpa using same⟩
      | cons head tail =>
          have headEq : separator = head := by simpa using (List.cons.inj same).1
          exact absurd (by simp [headEq]) otherAbsent
  | cons first left induction =>
      cases other with
      | nil =>
          have headEq : first = separator := by simpa using (List.cons.inj same).1
          exact absurd (by simp [headEq]) absent
      | cons head tail =>
          obtain ⟨headEq, tailEq⟩ := List.cons.inj same
          obtain ⟨leftEq, rightEq⟩ := induction
            (fun member => absent (by simp [member]))
            (fun member => otherAbsent (by simp [member])) tailEq
          exact ⟨by rw [headEq, leftEq], rightEq⟩

/-- A text that goes on with a separator of two different characters where another ends with
one contains it. -/
theorem eq_nil_of_append_pair {α : Type} {first second : α} {left more right rest : List α}
    (different : first ≠ second) (absent : ¬ [first, second] <:+: left ++ more)
    (same : first :: second :: right = more ++ first :: second :: rest) : more = [] := by
  match more with
  | [] => rfl
  | [c] =>
      obtain ⟨_, tail⟩ := List.cons.inj same
      exact absurd (List.cons.inj tail).1.symm different
  | one :: two :: others =>
      obtain ⟨rfl, tail⟩ := List.cons.inj same
      obtain ⟨rfl, _⟩ := List.cons.inj tail
      exact absurd ⟨left, others, by simp⟩ absent

/-- The first occurrence of such a separator splits a text in one way, too. -/
theorem append_pair_inj_left {α : Type} {first second : α} {left other right rest : List α}
    (different : first ≠ second) (absent : ¬ [first, second] <:+: left)
    (otherAbsent : ¬ [first, second] <:+: other)
    (same : left ++ first :: second :: right = other ++ first :: second :: rest) :
    left = other ∧ right = rest := by
  rcases List.append_eq_append_iff.mp same with ⟨more, rfl, tail⟩ | ⟨more, rfl, tail⟩
  · obtain rfl := eq_nil_of_append_pair different otherAbsent tail
    exact ⟨(List.append_nil _).symm, (List.cons.inj (List.cons.inj tail).2).2⟩
  · obtain rfl := eq_nil_of_append_pair different absent tail
    exact ⟨List.append_nil _, (List.cons.inj (List.cons.inj tail).2).2.symm⟩

/-- The last occurrence of a separator splits a text in one way. -/
theorem append_cons_inj_right {α : Type} {separator : α} {left other right rest : List α}
    (absent : separator ∉ right) (restAbsent : separator ∉ rest)
    (same : left ++ separator :: right = other ++ separator :: rest) :
    left = other ∧ right = rest := by
  have reversed := congrArg List.reverse same
  simp only [List.reverse_append, List.reverse_cons, List.append_assoc,
    List.singleton_append] at reversed
  obtain ⟨rightEq, leftEq⟩ := append_cons_inj_left (by simpa using absent)
    (by simpa using restAbsent) reversed
  exact ⟨List.reverse_injective leftEq, List.reverse_injective rightEq⟩

def contains (text pattern : String) : Bool :=
  decide (pattern.toList <:+: text.toList)

def endsWith (text suffix : String) : Bool :=
  suffix.toList.isSuffixOf text.toList

/-- Position of the last occurrence of the pattern, if there is one. -/
def lastIndexOf (text pattern : String) : Option Nat :=
  (List.range (text.toList.length + 1)).reverse.find?
    (fun start => pattern.toList.isPrefixOf (text.toList.drop start))

/-- The first `stop` characters. -/
def takePrefix (text : String) (stop : Nat) : String :=
  String.ofList (text.toList.take stop)

/-- A pattern without the joining character occurs in a joined text exactly if it
occurs in one of the two parts. -/
theorem infix_join_iff {pattern left right : List Char} {joint : Char}
    (absent : joint ∉ pattern) (nonempty : pattern ≠ []) :
    pattern <:+: left ++ joint :: right ↔ pattern <:+: left ∨ pattern <:+: right := by
  constructor
  · rintro ⟨before, after, equality⟩
    rw [List.append_assoc] at equality
    rcases List.append_eq_append_iff.mp equality with
      ⟨middle, leftEq, rightEq⟩ | ⟨middle, beforeEq, rightEq⟩
    · rcases List.append_eq_append_iff.mp rightEq with
        ⟨inner, middleEq, _⟩ | ⟨inner, patternEq, tailEq⟩
      · exact Or.inl ⟨before, inner, by simp [leftEq, middleEq]⟩
      · cases inner with
        | nil => exact Or.inl ⟨before, [], by simp [leftEq, patternEq]⟩
        | cons first inner =>
            have same : joint = first := by
              simpa using (List.cons.inj tailEq).1
            exact absurd (by simp [patternEq, same]) absent
    · cases middle with
      | nil =>
          cases pattern with
          | nil => exact absurd rfl nonempty
          | cons first pattern =>
              have same : joint = first := by
                simpa using (List.cons.inj rightEq).1
              exact absurd (by simp [same]) absent
      | cons first middle =>
          have rest := (List.cons.inj rightEq).2
          exact Or.inr ⟨middle, after, by simpa using rest.symm⟩
  · rintro (⟨before, after, rfl⟩ | ⟨before, after, rfl⟩)
    · exact ⟨before, after ++ joint :: right, by simp⟩
    · exact ⟨left ++ joint :: before, after, by simp⟩

end Text
