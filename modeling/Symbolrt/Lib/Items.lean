import Symbolrt.Lib.Text

/-!
# Lists written in one text

The items between the separators of a text, without the blanks around them and without
empty items.  Writing one list behind another puts the items of both in sequence.
-/

namespace Text

/-- The items of a text. -/
def items (separator text : String) : List String :=
  ((split separator text).map trim).filter (fun item => item ≠ "")

theorem trimChars_blank_behind {blank : Char} (isBlankChar : isBlank blank = true)
    (chars : List Char) : trimChars (chars ++ [blank]) = trimChars chars := by
  unfold trimChars
  rw [List.dropWhile_append]
  split
  · rename_i empty
    have nothing : chars.dropWhile isBlank = [] := by simpa using empty
    simp [nothing, isBlankChar]
  · simp [isBlankChar]

section Pieces

variable {separator : Char}

theorem pieces_single_cons (separator : Char) (current rest : List Char) (c : Char) :
    pieces [separator] 0 current (c :: rest) =
      if c = separator then current.reverse :: pieces [separator] 0 [] rest
      else pieces [separator] 0 (c :: current) rest := by
  by_cases same : c = separator
  · subst same
    simp [pieces, List.isPrefixOf]
  · have different : (separator == c) = false := by simpa using Ne.symm same
    simp [pieces, List.isPrefixOf, different, same]

theorem pieces_append_separator (current left right : List Char) :
    pieces [separator] 0 current (left ++ separator :: right) =
      pieces [separator] 0 current left ++ pieces [separator] 0 [] right := by
  induction left generalizing current with
  | nil =>
      rw [List.nil_append, pieces_single_cons, if_pos rfl]
      rfl
  | cons c rest induction =>
      rw [List.cons_append, pieces_single_cons, pieces_single_cons]
      split
      · rw [induction, List.cons_append]
      · exact induction (c :: current)

/-- A blank in front of a text does not change its trimmed pieces. -/
theorem trimmed_pieces_front {blank : Char} (isBlankChar : isBlank blank = true)
    (current rest : List Char) :
    (pieces [separator] 0 (current ++ [blank]) rest).map trimChars =
      (pieces [separator] 0 current rest).map trimChars := by
  have front (chars : List Char) : trimChars (blank :: chars) = trimChars chars := by
    have general : trimChars ([blank] ++ chars) = trimChars chars :=
      trimChars_blank_append (by simpa using isBlankChar)
    exact general
  induction rest generalizing current with
  | nil => simp [pieces, front]
  | cons c rest induction =>
      rw [pieces_single_cons, pieces_single_cons]
      split
      · simp [front]
      · exact induction (c :: current)

/-- A blank behind a text does not change its trimmed pieces. -/
theorem trimmed_pieces_behind {blank : Char} (isBlankChar : isBlank blank = true)
    (other : blank ≠ separator) (current text : List Char) :
    (pieces [separator] 0 current (text ++ [blank])).map trimChars =
      (pieces [separator] 0 current text).map trimChars := by
  induction text generalizing current with
  | nil =>
      rw [List.nil_append, pieces_single_cons, if_neg other]
      simp [pieces, trimChars_blank_behind isBlankChar]
  | cons c rest induction =>
      rw [List.cons_append, pieces_single_cons, pieces_single_cons]
      split
      · rw [List.map_cons, List.map_cons, induction]
      · exact induction (c :: current)

end Pieces

def itemsOfChars (separator : Char) (chars : List Char) : List (List Char) :=
  ((pieces [separator] 0 [] chars).map trimChars).filter (fun item => item ≠ [])

theorem filter_dropTrailingEmpty (found : List (List Char)) :
    ((dropTrailingEmpty found).map trimChars).filter (fun item => item ≠ []) =
      (found.map trimChars).filter (fun item => item ≠ []) := by
  have dropped : ∀ reversed : List (List Char),
      ((reversed.dropWhile List.isEmpty).map trimChars).filter (fun item => item ≠ []) =
        (reversed.map trimChars).filter (fun item => item ≠ []) := by
    intro reversed
    induction reversed with
    | nil => rfl
    | cons first rest induction =>
        by_cases empty : first.isEmpty = true
        · have isNil : first = [] := by simpa using empty
          rw [List.dropWhile_cons_of_pos empty, induction, isNil]
          rfl
        · rw [List.dropWhile_cons_of_neg empty]
  have whole := dropped found.reverse
  rw [dropTrailingEmpty, List.map_reverse, List.filter_reverse, whole, List.map_reverse,
    List.filter_reverse, List.reverse_reverse]

theorem ofList_eq_empty_iff (chars : List Char) : String.ofList chars = "" ↔ chars = [] := by
  constructor
  · intro empty
    have toChars := congrArg String.toList empty
    simpa using toChars
  · rintro rfl
    rfl

theorem filter_trimmed (found : List (List Char)) :
    ((found.map String.ofList).map trim).filter (fun item => item ≠ "") =
      ((found.map trimChars).filter (fun item => item ≠ [])).map String.ofList := by
  induction found with
  | nil => rfl
  | cons first rest induction =>
      have own : trim (String.ofList first) = String.ofList (trimChars first) := by
        rw [trim, String.toList_ofList]
      simp only [List.map_cons, List.filter_cons, own, ne_eq, ofList_eq_empty_iff]
      simp only [ne_eq, List.map_map] at induction
      split
      · rw [List.map_cons, ← induction, List.map_map]
      · rw [← induction, List.map_map]

theorem pieces_ne_nil (separator : Char) (current chars : List Char) :
    pieces [separator] 0 current chars ≠ [] := by
  induction chars generalizing current with
  | nil => simp [pieces]
  | cons c rest induction =>
      rw [pieces_single_cons]
      split
      · exact List.cons_ne_nil _ _
      · exact induction (c :: current)

/-- A text without a separator is its only piece. -/
theorem pieces_eq_single {separator : Char} {current chars piece : List Char}
    (single : pieces [separator] 0 current chars = [piece]) :
    piece = current.reverse ++ chars := by
  induction chars generalizing current with
  | nil =>
      rw [List.append_nil]
      exact (List.cons.inj single).1.symm
  | cons c rest induction =>
      rw [pieces_single_cons] at single
      split at single
      · exact absurd (List.cons.inj single).2 (pieces_ne_nil _ _ _)
      · rw [induction single]
        simp

theorem items_eq {bar : String} {separator : Char} (single : bar.toList = [separator])
    (text : String) :
    items bar text = (itemsOfChars separator text.toList).map String.ofList := by
  have pieced : split bar text = (pieces [separator] 0 [] text.toList).map String.ofList ∨
      split bar text =
        (dropTrailingEmpty (pieces [separator] 0 [] text.toList)).map String.ofList := by
    unfold split
    rw [single]
    split
    · rename_i piece only
      rw [only, pieces_eq_single only]
      exact Or.inl (by simp)
    · exact Or.inr rfl
  rw [items, itemsOfChars]
  rcases pieced with whole | dropped
  · rw [whole, filter_trimmed]
  · rw [dropped, filter_trimmed, filter_dropTrailingEmpty]

/-- The items of a list written behind another. -/
theorem items_append {bar : String} {separator : Char} (single : bar.toList = [separator])
    (visible : ' ' ≠ separator) (left right : String) :
    items bar (left ++ " " ++ bar ++ " " ++ right) = items bar left ++ items bar right := by
  have blank : isBlank ' ' = true := by decide
  have chars : (left ++ " " ++ bar ++ " " ++ right).toList =
      (left.toList ++ [' ']) ++ separator :: (' ' :: right.toList) := by
    simp [single]
  have front : (pieces [separator] 0 [] (' ' :: right.toList)).map trimChars =
      (pieces [separator] 0 [] right.toList).map trimChars := by
    rw [pieces_single_cons, if_neg visible]
    exact trimmed_pieces_front blank [] right.toList
  rw [items_eq single, items_eq single, items_eq single, chars, itemsOfChars,
    pieces_append_separator, List.map_append, trimmed_pieces_behind blank visible, front,
    List.filter_append, List.map_append]
  rfl

end Text
