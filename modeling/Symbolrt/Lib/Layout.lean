import Symbolrt.Lib.Substitution

/-!
# Texts laid out from pieces

Pieces of text are put on one line with a blank between neighbours, but no blank behind an
opening piece and none before a closing one.  A printer that adds a piece at a time, with
a blank that a closing piece takes back, prints this line, and replacing the words of the
line is replacing them in its pieces.
-/

namespace Layout

open Text

/-- A piece begins and ends with characters that are not blank. -/
structure IsSolid (chars : List Char) : Prop where
  nonempty : chars ≠ []
  headKept : ∀ c ∈ chars.head?, isBlank c = false
  lastKept : ∀ c ∈ chars.getLast?, isBlank c = false

theorem IsSolid.of_all {chars : List Char} (nonempty : chars ≠ [])
    (none : ∀ c ∈ chars, isBlank c = false) : IsSolid chars := by
  constructor
  · exact nonempty
  · exact fun c member => none c (List.mem_of_mem_head? member)
  · exact fun c member => none c (List.mem_of_getLast? member)

theorem IsSolid.trim_padded {chars : List Char} (solid : IsSolid chars) :
    trimChars (chars ++ [' ']) = chars :=
  trimChars_padded (by decide) solid.headKept solid.lastKept

theorem IsSolid.trim {chars : List Char} (solid : IsSolid chars) : trimChars chars = chars := by
  obtain ⟨head, tail, rfl⟩ := List.exists_cons_of_ne_nil solid.nonempty
  have front : (head :: tail).dropWhile isBlank = head :: tail :=
    List.dropWhile_cons_of_neg (by simp [solid.headKept head rfl])
  obtain ⟨last, before, reversed⟩ :=
    List.exists_cons_of_ne_nil (List.reverse_ne_nil_iff.mpr solid.nonempty)
  have lastKept : isBlank last = false := by
    apply solid.lastKept
    rw [Option.mem_def, ← List.head?_reverse, reversed]
    rfl
  rw [trimChars, front, reversed, List.dropWhile_cons_of_neg (by simp [lastKept]), ← reversed,
    List.reverse_reverse]

/-- Between a solid beginning and a solid end there may be anything. -/
theorem IsSolid.append {left right : List Char} (first : IsSolid left) (last : IsSolid right)
    (middle : List Char) : IsSolid (left ++ middle ++ right) := by
  obtain ⟨head, tail, rfl⟩ := List.exists_cons_of_ne_nil first.nonempty
  constructor
  · simp
  · exact first.headKept
  · intro c member
    rw [List.getLast?_append_of_ne_nil _ last.nonempty] at member
    exact last.lastKept c member

section Lines

variable {τ : Type}

/-- How pieces are printed. -/
structure Style (τ : Type) where
  image : τ → List Char
  opens : τ → Bool
  closes : τ → Bool

namespace Style

variable (style : Style τ)

def joint (left right : τ) : List Char :=
  if style.opens left || style.closes right then [] else [' ']

def line : List τ → List Char
  | [] => []
  | [piece] => style.image piece
  | piece :: next :: rest => style.image piece ++ style.joint piece next ++ line (next :: rest)

/-- One round of the printer. -/
def add (text : List Char) (piece : τ) : List Char :=
  if style.opens piece then text ++ style.image piece
  else if style.closes piece then trimChars text ++ style.image piece ++ [' ']
  else text ++ (style.image piece ++ [' '])

/-- What the printer leaves behind the last piece. -/
def padding (last : τ) : List Char := if style.opens last then [] else [' ']

theorem line_concat (pieces : List τ) (last piece : τ) :
    style.line (pieces ++ [last] ++ [piece]) =
      style.line (pieces ++ [last]) ++ style.joint last piece ++ style.image piece := by
  induction pieces with
  | nil => rfl
  | cons first pieces induction =>
      cases pieces with
      | nil => simp [line]
      | cons second pieces =>
          simp only [List.cons_append, line] at induction ⊢
          rw [induction]
          simp

theorem line_congr {first second : Style τ} (opens : first.opens = second.opens)
    (closes : first.closes = second.closes) {pieces : List τ}
    (images : ∀ piece ∈ pieces, first.image piece = second.image piece) :
    first.line pieces = second.line pieces := by
  induction pieces with
  | nil => rfl
  | cons piece pieces induction =>
      cases pieces with
      | nil => exact images piece List.mem_cons_self
      | cons next rest =>
          have later := induction (fun other member => images other (List.mem_cons_of_mem _ member))
          have joints : first.joint piece next = second.joint piece next := by
            rw [joint, joint, opens, closes]
          rw [line, line, images piece List.mem_cons_self, joints, later]

variable {style} (solid : ∀ piece, IsSolid (style.image piece))

include solid in
theorem line_isSolid (pieces : List τ) (nonempty : pieces ≠ []) : IsSolid (style.line pieces) := by
  induction pieces with
  | nil => exact absurd rfl nonempty
  | cons piece pieces induction =>
      cases pieces with
      | nil => exact solid piece
      | cons next rest => exact (solid piece).append (induction (List.cons_ne_nil _ _)) _

include solid in
theorem foldl_add (pieces : List τ) (last : τ) (disjoint : ∀ piece, style.opens piece = true →
    style.closes piece = false) :
    (pieces ++ [last]).foldl style.add [] = style.line
    (pieces ++ [last]) ++ style.padding last := by
  induction pieces using List.reverseRecOn generalizing last with
  | nil =>
      rw [List.nil_append, List.foldl_cons, List.foldl_nil, add, padding, line]
      by_cases opens : style.opens last = true
      · simp [opens]
      · by_cases closes : style.closes last = true <;> simp [opens, closes, trimChars]
  | append_singleton pieces before induction =>
      have solidLine := line_isSolid solid (pieces ++ [before]) (by simp)
      rw [List.foldl_append, induction before, List.foldl_cons, List.foldl_nil, line_concat]
      by_cases opens : style.opens last = true
      · rw [add, if_pos opens, padding, padding, if_pos opens, joint, disjoint last opens,
          Bool.or_false, List.append_nil]
      · by_cases closes : style.closes last = true
        · have trimmed : trimChars (style.line (pieces ++ [before]) ++ style.padding before) =
              style.line (pieces ++ [before]) := by
            rw [padding]
            split
            · rw [List.append_nil]
              exact solidLine.trim
            · exact solidLine.trim_padded
          rw [add, if_neg opens, if_pos closes, trimmed, padding, if_neg opens, joint, closes,
            Bool.or_true]
          simp
        · rw [add, if_neg opens, if_neg closes, padding, padding, if_neg opens, joint]
          by_cases first : style.opens before = true <;> simp [first, closes]

include solid in
/-- The printer prints the line. -/
theorem trim_foldl_add (pieces : List τ) (disjoint : ∀ piece, style.opens piece = true →
    style.closes piece = false) :
    trimChars (pieces.foldl style.add []) = style.line pieces := by
  cases pieces using List.reverseRecOn with
  | nil => rfl
  | append_singleton pieces last =>
      have solidLine := line_isSolid solid (pieces ++ [last]) (by simp)
      rw [foldl_add solid pieces last disjoint, padding]
      split
      · rw [List.append_nil]
        exact solidLine.trim
      · exact solidLine.trim_padded

theorem mem_line {pieces : List τ} {c : Char} (member : c ∈ style.line pieces) :
    c = ' ' ∨ ∃ piece, piece ∈ pieces ∧ c ∈ style.image piece := by
  induction pieces with
  | nil => cases member
  | cons piece pieces induction =>
      cases pieces with
      | nil => exact Or.inr ⟨piece, List.mem_cons_self, member⟩
      | cons next rest =>
          rw [line, List.append_assoc] at member
          rcases List.mem_append.mp member with here | behind
          · exact Or.inr ⟨piece, List.mem_cons_self, here⟩
          · rcases List.mem_append.mp behind with between | later
            · left
              rw [joint] at between
              split at between
              · cases between
              · exact List.mem_singleton.mp between
            · rcases induction later with blank | ⟨other, listed, inside⟩
              · exact Or.inl blank
              · exact Or.inr ⟨other, List.mem_cons_of_mem _ listed, inside⟩

/-- The pieces that are words are replaced. -/
def replaceWords (isDelimiter : Char → Bool) (replace : List Char → List Char)
    (style : Style τ) : Style τ :=
  { style with
    image := fun piece =>
      if (style.image piece).any isDelimiter then style.image piece
      else replace (style.image piece) }

/-- Pieces are words or runs of delimiters, which opening and closing pieces are. -/
structure IsSeparated (isDelimiter : Char → Bool) (style : Style τ) (pieces : List τ) :
    Prop where
  blank : isDelimiter ' ' = true
  nonempty : ∀ piece ∈ pieces, style.image piece ≠ []
  uniform : ∀ piece ∈ pieces, (∀ c ∈ style.image piece, isDelimiter c = false) ∨
    ∀ c ∈ style.image piece, isDelimiter c = true
  brackets : ∀ piece ∈ pieces, (style.opens piece || style.closes piece) = true →
    ∀ c ∈ style.image piece, isDelimiter c = true

theorem IsSeparated.tail {isDelimiter : Char → Bool} {piece : τ} {pieces : List τ}
    (separated : style.IsSeparated isDelimiter (piece :: pieces)) :
    style.IsSeparated isDelimiter pieces := by
  constructor
  · exact separated.blank
  · exact fun other member => separated.nonempty other (List.mem_cons_of_mem _ member)
  · exact fun other member => separated.uniform other (List.mem_cons_of_mem _ member)
  · exact fun other member => separated.brackets other (List.mem_cons_of_mem _ member)

section Replacing

variable {isDelimiter : Char → Bool} {replace : List Char → List Char}

theorem substitute_run (fixed : ∀ c, isDelimiter c = true → replace [c] = [c]) {run : List Char}
    (delimiters : ∀ c ∈ run, isDelimiter c = true) (rest : List Char) :
    substitute isDelimiter replace (run ++ rest) = run ++ substitute isDelimiter replace rest := by
  induction run with
  | nil => rfl
  | cons c run induction =>
      rw [List.cons_append, substitute_delimiter fixed (delimiters c List.mem_cons_self),
        induction (fun other member => delimiters other (List.mem_cons_of_mem _ member))]
      rfl

/-- Replacing words in one piece. -/
theorem IsSeparated.substitute_piece {piece : τ} {pieces : List τ}
    (separated : style.IsSeparated isDelimiter (piece :: pieces))
    (fixed : ∀ c, isDelimiter c = true → replace [c] = [c]) {rest : List Char}
    (stop : (∀ c ∈ style.image piece, isDelimiter c = false) →
      ∀ c ∈ rest.head?, isDelimiter c = true) :
    substitute isDelimiter replace (style.image piece ++ rest) =
      (style.replaceWords isDelimiter replace).image piece ++
        substitute isDelimiter replace rest := by
  have nonempty := separated.nonempty piece List.mem_cons_self
  rcases separated.uniform piece List.mem_cons_self with word | run
  · have none : (style.image piece).any isDelimiter = false := by simpa using word
    have replaced : (style.replaceWords isDelimiter replace).image piece =
        replace (style.image piece) := if_neg (by rw [none]; exact Bool.false_ne_true)
    rw [substitute_word nonempty word rest (stop word), replaced]
  · obtain ⟨c, others, image⟩ := List.exists_cons_of_ne_nil nonempty
    have some : (style.image piece).any isDelimiter = true := by
      rw [List.any_eq_true]
      refine ⟨c, ?_, run c ?_⟩
      · rw [image]
        exact List.mem_cons_self
      · rw [image]
        exact List.mem_cons_self
    have kept : (style.replaceWords isDelimiter replace).image piece = style.image piece :=
      if_pos some
    rw [substitute_run fixed run, kept]

/-- Behind a word of a line stands a delimiter. -/
theorem IsSeparated.starts {piece next : τ} {rest : List τ}
    (separated : style.IsSeparated isDelimiter (piece :: next :: rest))
    (word : ∀ c ∈ style.image piece, isDelimiter c = false) :
    ∀ c ∈ (style.joint piece next ++ style.line (next :: rest)).head?, isDelimiter c = true := by
  intro c member
  obtain ⟨first, others, image⟩ := List.exists_cons_of_ne_nil (separated.nonempty next (by simp))
  have lineHead : (style.line (next :: rest)).head? = some first := by
    cases rest with
    | nil => rw [line, image]; rfl
    | cons further rest => rw [line, image]; rfl
  rw [joint] at member
  split at member
  · rename_i bracket
    rw [List.nil_append, lineHead] at member
    rw [← Option.some.inj member]
    rcases Bool.or_eq_true_iff.mp bracket with opens | closes
    · obtain ⟨head, tail, same⟩ :=
        List.exists_cons_of_ne_nil (separated.nonempty piece List.mem_cons_self)
      have delimiter := separated.brackets piece List.mem_cons_self (by simp [opens]) head
        (by simp [same])
      rw [word head (by simp [same])] at delimiter
      cases delimiter
    · exact separated.brackets next (by simp) (by simp [closes]) first (by simp [image])
  · rw [← Option.some.inj member]
    exact separated.blank

theorem IsSeparated.joint_delimiters {pieces : List τ}
    (separated : style.IsSeparated isDelimiter pieces) (piece next : τ) :
    ∀ c ∈ style.joint piece next, isDelimiter c = true := by
  intro c member
  rw [joint] at member
  split at member
  · cases member
  · rw [List.mem_singleton.mp member]
    exact separated.blank

/-- Replacing the words of a line replaces them in its pieces. -/
theorem IsSeparated.substitute_line {pieces : List τ}
    (separated : style.IsSeparated isDelimiter pieces)
    (fixed : ∀ c, isDelimiter c = true → replace [c] = [c]) :
    substitute isDelimiter replace (style.line pieces) =
      (style.replaceWords isDelimiter replace).line pieces := by
  induction pieces with
  | nil => rfl
  | cons piece pieces induction =>
      cases pieces with
      | nil =>
          have whole := @substitute_piece _ _ _ _ _ _ separated fixed [] (by simp)
          rw [List.append_nil] at whole
          rw [line, line, whole]
          exact List.append_nil _
      | cons next rest =>
          rw [line, line, List.append_assoc, separated.substitute_piece fixed separated.starts,
            substitute_run fixed (separated.joint_delimiters piece next),
            induction separated.tail, List.append_assoc]
          rfl

theorem tokenRuns_run {run : List Char} (delimiters : ∀ c ∈ run, isDelimiter c = true)
    (rest : List Char) :
    tokenRuns isDelimiter (run ++ rest) = run.map (fun c => [c]) ++ tokenRuns isDelimiter rest := by
  induction run with
  | nil => rfl
  | cons c run induction =>
      rw [List.cons_append, tokenRuns_delimiter (delimiters c List.mem_cons_self),
        induction (fun other member => delimiters other (List.mem_cons_of_mem _ member))]
      rfl

/-- The words of a line are pieces. -/
theorem IsSeparated.mem_tokenRuns_line {pieces : List τ}
    (separated : style.IsSeparated isDelimiter pieces) {word : List Char}
    (member : word ∈ tokenRuns isDelimiter (style.line pieces))
    (ordinary : ∀ c ∈ word, isDelimiter c = false) :
    ∃ piece, piece ∈ pieces ∧ style.image piece = word := by
  have single : ∀ {run : List Char}, (∀ c ∈ run, isDelimiter c = true) →
      word ∉ run.map (fun c => [c]) := by
    intro run delimiters listed
    obtain ⟨c, inside, rfl⟩ := List.mem_map.mp listed
    have delimiter := delimiters c inside
    rw [ordinary c List.mem_cons_self] at delimiter
    cases delimiter
  have first : ∀ {piece : τ} {pieces : List τ} {rest : List Char},
      style.IsSeparated isDelimiter (piece :: pieces) →
      ((∀ c ∈ style.image piece, isDelimiter c = false) →
        ∀ c ∈ rest.head?, isDelimiter c = true) →
      word ∈ tokenRuns isDelimiter (style.image piece ++ rest) →
      style.image piece = word ∨ word ∈ tokenRuns isDelimiter rest := by
    intro piece pieces rest separated stop member
    rcases separated.uniform piece List.mem_cons_self with isWord | isRun
    · rw [tokenRuns_word (separated.nonempty piece List.mem_cons_self) isWord rest
        (stop isWord)] at member
      rcases List.mem_cons.mp member with same | later
      · exact Or.inl same.symm
      · exact Or.inr later
    · rw [tokenRuns_run isRun] at member
      rcases List.mem_append.mp member with here | later
      · exact absurd here (single isRun)
      · exact Or.inr later
  induction pieces with
  | nil => cases member
  | cons piece pieces induction =>
      cases pieces with
      | nil =>
          rw [line, ← List.append_nil (style.image piece)] at member
          rcases first separated (by simp) member with same | impossible
          · exact ⟨piece, List.mem_cons_self, same⟩
          · cases impossible
      | cons next rest =>
          rw [line, List.append_assoc] at member
          rcases first separated separated.starts member with same | behind
          · exact ⟨piece, List.mem_cons_self, same⟩
          · have joints := separated.joint_delimiters piece next
            rw [tokenRuns_run joints] at behind
            rcases List.mem_append.mp behind with here | later
            · exact absurd here (single joints)
            · obtain ⟨other, listed, same⟩ := induction separated.tail later
              exact ⟨other, List.mem_cons_of_mem _ listed, same⟩

end Replacing

end Style

end Lines

end Layout
