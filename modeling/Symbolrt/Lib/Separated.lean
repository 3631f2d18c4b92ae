import Symbolrt.Lib.InStep
import Symbolrt.Lib.Layout

/-!
# Items between separators

A text holds items with a separating character between them and blanks around each.
Splitting the text at the separator and trimming the parts gives the items back, and two
such texts are joined by another separator.
-/

namespace Layout

open Text

/-- The item with blanks around it. -/
def IsPadded (item chars : List Char) : Prop :=
  ∃ before after, (∀ c ∈ before, isBlank c = true) ∧ (∀ c ∈ after, isBlank c = true) ∧
    chars = before ++ (item ++ after)

section Padding

variable {item chars : List Char}

theorem IsPadded.self (item : List Char) : IsPadded item item :=
  ⟨[], [], by simp, by simp, by simp⟩

theorem IsPadded.before (padded : IsPadded item chars) {blank : Char}
    (isBlankChar : isBlank blank = true) : IsPadded item (blank :: chars) := by
  obtain ⟨before, after, beforeBlank, afterBlank, rfl⟩ := padded
  exact ⟨blank :: before, after, by simpa [isBlankChar] using beforeBlank, afterBlank, rfl⟩

theorem IsPadded.behind (padded : IsPadded item chars) {blank : Char}
    (isBlankChar : isBlank blank = true) : IsPadded item (chars ++ [blank]) := by
  obtain ⟨before, after, beforeBlank, afterBlank, rfl⟩ := padded
  refine ⟨before, after ++ [blank], beforeBlank, ?_, by simp⟩
  intro c member
  rcases List.mem_append.mp member with earlier | last
  · exact afterBlank c earlier
  · rw [List.mem_singleton.mp last]
    exact isBlankChar

theorem IsPadded.not_mem (padded : IsPadded item chars) {c : Char}
    (notBlank : isBlank c = false) (absent : c ∉ item) : c ∉ chars := by
  obtain ⟨before, after, beforeBlank, afterBlank, rfl⟩ := padded
  intro member
  rcases List.mem_append.mp member with inBefore | later
  · rw [beforeBlank c inBefore] at notBlank
    cases notBlank
  · rcases List.mem_append.mp later with inItem | inAfter
    · exact absent inItem
    · rw [afterBlank c inAfter] at notBlank
      cases notBlank

theorem IsPadded.ne_nil (padded : IsPadded item chars) (nonempty : item ≠ []) : chars ≠ [] := by
  obtain ⟨before, after, _, _, rfl⟩ := padded
  simp [nonempty]

theorem dropWhile_append {blanks rest : List Char} (allBlank : ∀ c ∈ blanks, isBlank c = true)
    (kept : ∀ c ∈ rest.head?, isBlank c = false) : (blanks ++ rest).dropWhile isBlank = rest := by
  rw [List.dropWhile_append_of_pos allBlank]
  cases rest with
  | nil => rfl
  | cons c rest => exact List.dropWhile_cons_of_neg (by simp [kept c rfl])

/-- Trimming takes the blanks away. -/
theorem IsPadded.trim (padded : IsPadded item chars) (solid : IsSolid item) :
    trimChars chars = item := by
  obtain ⟨before, after, beforeBlank, afterBlank, rfl⟩ := padded
  have front : (before ++ (item ++ after)).dropWhile isBlank = item ++ after := by
    apply dropWhile_append beforeBlank
    intro c member
    rw [List.head?_append_of_ne_nil _ solid.nonempty] at member
    exact solid.headKept c member
  have back : (after.reverse ++ item.reverse).dropWhile isBlank = item.reverse := by
    apply dropWhile_append
    · exact fun c member => afterBlank c (List.mem_reverse.mp member)
    · intro c member
      rw [List.head?_reverse] at member
      exact solid.lastKept c member
  rw [trimChars, front, List.reverse_append, back, List.reverse_reverse]

end Padding

/-- The text holds the items with the separator between them. -/
inductive Separated (separator : Char) : List (List Char) → List Char → Prop where
  | single {item chars : List Char} : IsPadded item chars → Separated separator [item] chars
  | cons {item chars text : List Char} {items : List (List Char)} : IsPadded item chars →
      Separated separator items text →
      Separated separator (item :: items) (chars ++ separator :: text)

section Separating

variable {separator : Char} {items others : List (List Char)} {text further : List Char}

theorem Separated.before (separated : Separated separator items text) {blank : Char}
    (isBlankChar : isBlank blank = true) : Separated separator items (blank :: text) := by
  cases separated with
  | single padded => exact .single (padded.before isBlankChar)
  | cons padded later => exact .cons (padded.before isBlankChar) later

/-- Two texts are joined by a separator with a blank on either side. -/
theorem Separated.append (separated : Separated separator items text)
    (behind : Separated separator others further) :
    Separated separator (items ++ others) (text ++ ' ' :: separator :: ' ' :: further) := by
  have isBlankChar : isBlank ' ' = true := by decide
  induction separated with
  | @single item chars padded =>
      have whole := (Separated.cons (padded.behind isBlankChar) (behind.before isBlankChar))
      simpa using whole
  | @cons item chars text items padded later induction =>
      have whole := Separated.cons padded induction
      simpa using whole

theorem Separated.items_ne_nil (separated : Separated separator items text) : items ≠ [] := by
  cases separated with
  | single padded => exact List.cons_ne_nil _ _
  | cons padded later => exact List.cons_ne_nil _ _

/-- The parts between the separators are the items with blanks around them. -/
theorem Separated.pieces (separated : Separated separator items text)
    (notBlank : isBlank separator = false) (absent : ∀ item ∈ items, separator ∉ item) :
    ∃ parts, List.Forall₂ IsPadded items parts ∧ Text.pieces [separator] 0 [] text = parts ∧
      ∀ part, parts = [part] → part = text := by
  have plain : ∀ {word : List Char} (rest : List Char), separator ∉ word →
      NoMatchIn [separator] word rest := by
    intro word rest avoids
    have whole := (noMatchIn_nil [separator] rest).word avoids
    rwa [List.append_nil] at whole
  induction separated with
  | @single item chars padded =>
      have avoids := padded.not_mem notBlank (absent item List.mem_cons_self)
      refine ⟨[chars], .cons padded .nil, pieces_last (plain [] avoids), ?_⟩
      exact fun part only => (List.singleton_inj.mp only).symm
  | @cons item chars text items padded later induction =>
      obtain ⟨parts, matched, pieced, _⟩ :=
        induction (fun other member => absent other (List.mem_cons_of_mem _ member))
      refine ⟨chars :: parts, .cons padded matched, ?_, ?_⟩
      · have avoids := padded.not_mem notBlank (absent item List.mem_cons_self)
        have cut := @pieces_cons [separator] chars text (by simp) (plain _ avoids)
        rw [List.singleton_append] at cut
        rw [cut, pieced]
      · intro part only
        rw [(List.cons.inj only).2] at matched
        cases matched
        exact absurd rfl later.items_ne_nil

/-- Splitting gives the items back, with blanks around them. -/
theorem Separated.split {text : String} (separated : Separated separator items text.toList)
    (notBlank : isBlank separator = false) (absent : ∀ item ∈ items, separator ∉ item)
    (nonempty : ∀ item ∈ items, item ≠ []) :
    ∃ parts, List.Forall₂ IsPadded items parts ∧
      Text.split (String.singleton separator) text = parts.map String.ofList := by
  obtain ⟨parts, matched, pieced, single⟩ := separated.pieces notBlank absent
  have chars : (String.singleton separator).toList = [separator] := by simp
  refine ⟨parts, matched, split_of_pieces ?_ single ?_⟩
  · rw [chars]
    exact pieced
  · intro part member
    obtain ⟨item, listed, padded⟩ := InStep.exists_left matched member
    exact padded.ne_nil (nonempty item listed)

/-- The items with the separator and blanks between them. -/
def join (separator : Char) : List (List Char) → List Char
  | [] => []
  | [item] => item
  | item :: next :: rest => item ++ ' ' :: separator :: ' ' :: join separator (next :: rest)

theorem separated_join (separator : Char) {items : List (List Char)} (nonempty : items ≠ []) :
    Separated separator items (join separator items) := by
  induction items with
  | nil => exact absurd rfl nonempty
  | cons item items induction =>
      cases items with
      | nil => exact .single (.self item)
      | cons next rest =>
          exact (Separated.single (.self item)).append (induction (List.cons_ne_nil _ _))

theorem join_isSolid (separator : Char) {items : List (List Char)} (nonempty : items ≠ [])
    (solid : ∀ item ∈ items, IsSolid item) : IsSolid (join separator items) := by
  induction items with
  | nil => exact absurd rfl nonempty
  | cons item items induction =>
      have here := solid item List.mem_cons_self
      cases items with
      | nil => exact here
      | cons next rest =>
          have later := induction (List.cons_ne_nil _ _)
            (fun other member => solid other (List.mem_cons_of_mem _ member))
          have whole := here.append later [' ', separator, ' ']
          simpa [join] using whole

/-- A separator in front of every item. -/
theorem flatMap_separator (separator : Char) {items : List (List Char)} (nonempty : items ≠ []) :
    items.flatMap (fun item => ' ' :: separator :: ' ' :: item) =
      ' ' :: separator :: ' ' :: join separator items := by
  induction items with
  | nil => exact absurd rfl nonempty
  | cons item items induction =>
      cases items with
      | nil => simp [join]
      | cons next rest =>
          rw [List.flatMap_cons, induction (List.cons_ne_nil _ _), join]
          simp

end Separating

end Layout
