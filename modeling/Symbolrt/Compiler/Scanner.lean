import Symbolrt.Compiler.Declaration
import Symbolrt.Compiler.Lexer

/-!
# The texts the scanner reads

A text is read as tokens if it consists of their images with blanks and comments
between them, such that no comment and no longer token begins where a token does.
-/

namespace Symbolrt

namespace Lexer

section Images

variable {name numeral : String}

theorem image_ne_identifier (word : Keyword) (identified : isIdentifier name = true) :
    word.image ≠ name := by
  rintro rfl
  exact Nat.lt_irrefl _ (length_lt_of_identifier identified (List.prefix_refl _))

theorem exists_digit (isNumeral : isNumeral numeral = true) :
    ∃ c others, numeral.toList = c :: others ∧ c.isDigit = true := by
  obtain ⟨nonempty, digits⟩ := isNumeral_chars isNumeral
  obtain ⟨c, others, image⟩ := List.exists_cons_of_ne_nil nonempty
  exact ⟨c, others, image, digits c (by rw [image]; exact List.mem_cons_self)⟩

theorem image_ne_integer (word : Keyword) (isNumeral : isNumeral numeral = true) :
    word.image ≠ numeral := by
  rintro rfl
  obtain ⟨c, others, image, digit⟩ := exists_digit isNumeral
  have notDigit := head_not_digit word c (by rw [image]; rfl)
  rw [digit] at notDigit
  cases notDigit

theorem identifier_ne_integer (identified : isIdentifier name = true)
    (isNumeral : isNumeral numeral = true) : name ≠ numeral := by
  rintro rfl
  obtain ⟨c, others, image, digit⟩ := exists_digit isNumeral
  have letter := identifier_starts identified c (by rw [image]; rfl)
  rw [SymbolicExecution.isDigit_of_letter letter] at digit
  cases digit

/-- Tokens are told apart by their images. -/
theorem token_of_image {token other : Token} (same : token.image = other.image) :
    token = other := by
  cases token with
  | keyword word =>
      cases other with
      | keyword word => exact congrArg Token.keyword (Keyword.image_injective same)
      | identifier name isIdentifier => exact absurd same (image_ne_identifier word isIdentifier)
      | integer numeral isNumeral => exact absurd same (image_ne_integer word isNumeral)
  | identifier name isIdentifier =>
      cases other with
      | keyword word => exact absurd same.symm (image_ne_identifier word isIdentifier)
      | identifier name isIdentifier => exact Token.identifier_eq_iff.mpr same
      | integer numeral isNumeral =>
          exact absurd same (identifier_ne_integer isIdentifier isNumeral)
  | integer numeral isNumeral =>
      cases other with
      | keyword word => exact absurd same.symm (image_ne_integer word isNumeral)
      | identifier name isIdentifier =>
          exact absurd same.symm (identifier_ne_integer isIdentifier isNumeral)
      | integer numeral isNumeral => exact Token.integer_eq_iff.mpr same

end Images

/-- No longer token begins the text that a token begins. -/
def IsLongest (token : Token) (rest : List Char) : Prop :=
  ∀ other : Token, other.image.toList <+: token.image.toList ++ rest →
    other.image.toList.length ≤ token.image.toList.length

section Words

variable {chars : List Char} {token other : Token}

theorem wordAt_starts (chars : List Char) : wordAt chars <+: chars := by
  cases chars with
  | nil => exact List.prefix_refl _
  | cons c rest =>
      rw [wordAt]
      split
      · exact List.takeWhile_prefix _
      · exact List.takeWhile_prefix _

theorem length_le_takeWhile {kind : Char → Bool} {word : List Char} (starts : word <+: chars)
    (each : ∀ c ∈ word, kind c = true) : word.length ≤ (chars.takeWhile kind).length := by
  obtain ⟨rest, rfl⟩ := starts
  rw [List.takeWhile_append_of_pos each, List.length_append]
  exact Nat.le_add_right _ _

/-- A word that a text begins with is no longer than the longest one. -/
theorem length_le_wordAt {name : String} (starts : name.toList <+: chars)
    (isWord : isIdentifier name = true ∨ isNumeral name = true) :
    name.toList.length ≤ (wordAt chars).length := by
  rcases isWord with identified | numeral
  · obtain ⟨nonempty, nameChars⟩ := isName_chars (isName_of_isIdentifier identified)
    obtain ⟨first, others, image⟩ := List.exists_cons_of_ne_nil nonempty
    have letter : isLetter first = true := by
      apply identifier_starts identified
      rw [image]
      rfl
    obtain ⟨rest, rfl⟩ := starts
    rw [image, List.cons_append, wordAt, if_pos letter, ← List.cons_append, ← image]
    exact length_le_takeWhile (List.prefix_append _ _) nameChars
  · obtain ⟨nonempty, digits⟩ := isNumeral_chars numeral
    obtain ⟨first, others, image⟩ := List.exists_cons_of_ne_nil nonempty
    have noLetter : ¬ isLetter first = true := by
      intro letter
      have digit := digits first (by rw [image]; exact List.mem_cons_self)
      rw [SymbolicExecution.isDigit_of_letter letter] at digit
      cases digit
    obtain ⟨rest, rfl⟩ := starts
    rw [image, List.cons_append, wordAt, if_neg noLetter, ← List.cons_append, ← image]
    exact length_le_takeWhile (List.prefix_append _ _) digits

/-- No token that a text begins with is longer than its longest keyword and its longest
word. -/
theorem length_le_of_prefix (starts : other.image.toList <+: chars) :
    (∃ word, longestKeyword chars = some word ∧
      other.image.toList.length ≤ word.image.toList.length) ∨
      other.image.toList.length ≤ (wordAt chars).length := by
  cases other with
  | keyword word =>
      obtain ⟨longest, found, _, longer⟩ := @exists_longestKeyword word chars starts
      exact .inl ⟨longest, found, longer⟩
  | identifier name isIdentifier => exact .inr (length_le_wordAt starts (.inl isIdentifier))
  | integer numeral isNumeral => exact .inr (length_le_wordAt starts (.inr isNumeral))

theorem image_of_wordToken {text : String} (isToken : wordToken text = some token) :
    token.image = text := by
  rw [wordToken] at isToken
  split at isToken
  · cases isToken
    rfl
  · split at isToken
    · cases isToken
      rfl
    · cases isToken

theorem readWord_eq_some {behind : List Char} (read : readWord chars = some (token, behind)) :
    token.image.toList = wordAt chars ∧ chars = token.image.toList ++ behind := by
  obtain ⟨found, isToken, ended⟩ := Option.bind_eq_some_iff.mp read
  cases ended
  have image : token.image.toList = wordAt chars := by
    rw [image_of_wordToken isToken, String.toList_ofList]
  refine ⟨image, ?_⟩
  rw [image]
  exact (List.prefix_iff_eq_append.mp (wordAt_starts chars)).symm

theorem nextToken_isLongest {behind : List Char}
    (read : nextToken chars = some (token, behind)) :
    chars = token.image.toList ++ behind ∧ IsLongest token behind := by
  rw [nextToken] at read
  cases longest : longestKeyword chars with
  | none =>
      rw [longest] at read
      obtain ⟨image, rfl⟩ := readWord_eq_some read
      refine ⟨rfl, ?_⟩
      intro other starts
      rcases length_le_of_prefix starts with ⟨word, found, _⟩ | bounded
      · rw [longest] at found
        cases found
      · rw [image]
        exact bounded
  | some word =>
      rw [longest] at read
      have wordStarts := mem_of_longestKeyword longest
      by_cases longer : (wordAt chars).length ≤ word.image.toList.length
      · have returned : some (Token.keyword word, chars.drop word.image.toList.length) =
            some (token, behind) := (if_pos longer).symm.trans read
        cases returned
        have whole := List.prefix_iff_eq_append.mp wordStarts
        refine ⟨whole.symm, ?_⟩
        intro other starts
        have among : other.image.toList <+: chars := whole ▸ starts
        rcases length_le_of_prefix among with ⟨keyword, found, bounded⟩ | bounded
        · rw [longest] at found
          cases found
          exact bounded
        · exact bounded.trans longer
      · obtain ⟨image, rfl⟩ := readWord_eq_some ((if_neg longer).symm.trans read)
        refine ⟨rfl, ?_⟩
        intro other starts
        rw [image]
        rcases length_le_of_prefix starts with ⟨keyword, found, bounded⟩ | bounded
        · rw [longest] at found
          cases found
          exact bounded.trans (Nat.le_of_not_le longer)
        · exact bounded

/-- The longest word is an identifier or an integer unless it is a keyword. -/
theorem exists_wordToken (nonempty : wordAt chars ≠ [])
    (noKeyword : ∀ word, longestKeyword chars = some word →
      word.image.toList.length < (wordAt chars).length) :
    ∃ token, wordToken (String.ofList (wordAt chars)) = some token := by
  cases chars with
  | nil => exact absurd rfl nonempty
  | cons c rest =>
      by_cases letter : isLetter c = true
      · have nameChar : isNameChar c = true := by
          simp only [isLetter, Bool.or_eq_true] at letter
          simp only [isNameChar, Char.isAlphanum, Bool.or_eq_true]
          exact letter.imp_left Or.inl
        have image : wordAt (c :: rest) = c :: rest.takeWhile isNameChar := by
          rw [wordAt, if_pos letter, List.takeWhile_cons_of_pos nameChar]
        have isName : isName (String.ofList (wordAt (c :: rest))) = true := by
          simp [isName, image, nameChar, List.all_takeWhile]
        have unreserved : Keyword.reserved.any
            (fun word => word.image == String.ofList (wordAt (c :: rest))) = false := by
          apply List.any_eq_false.mpr
          intro word _ same
          have spelled : word.image.toList = wordAt (c :: rest) := by
            rw [eq_of_beq same, String.toList_ofList]
          obtain ⟨longest, found, _, longer⟩ :=
            @exists_longestKeyword word (c :: rest) (spelled ▸ wordAt_starts _)
          rw [spelled] at longer
          exact Nat.not_lt.mpr longer (noKeyword longest found)
        have identified : isIdentifier (String.ofList (wordAt (c :: rest))) = true := by
          have notDigit : c.isDigit = false := SymbolicExecution.isDigit_of_letter letter
          rw [isIdentifier, isName, unreserved, String.toList_ofList, image]
          simp [notDigit]
        exact ⟨_, dif_pos identified⟩
      · have word : wordAt (c :: rest) = (c :: rest).takeWhile Char.isDigit := if_neg letter
        have numeral : isNumeral (String.ofList (wordAt (c :: rest))) = true := by
          rw [isNumeral, String.toList_ofList, Bool.and_eq_true, word]
          rw [word] at nonempty
          exact ⟨by simpa using nonempty, List.all_takeWhile⟩
        rw [wordToken]
        split
        · exact ⟨_, rfl⟩
        · exact ⟨_, rfl⟩

theorem exists_readWord (nonempty : wordAt chars ≠ [])
    (noKeyword : ∀ word, longestKeyword chars = some word →
      word.image.toList.length < (wordAt chars).length) :
    ∃ read, readWord chars = some read := by
  obtain ⟨found, isToken⟩ := exists_wordToken nonempty noKeyword
  refine ⟨(found, chars.drop (wordAt chars).length), ?_⟩
  rw [readWord, isToken]
  rfl

/-- A token is read where one begins. -/
theorem exists_nextToken (starts : token.image.toList <+: chars) :
    ∃ read, nextToken chars = some read := by
  rw [nextToken]
  cases longest : longestKeyword chars with
  | some word =>
      by_cases longer : (wordAt chars).length ≤ word.image.toList.length
      · exact ⟨_, if_pos longer⟩
      · obtain ⟨read, isRead⟩ := @exists_readWord chars
          (fun empty => longer (by rw [empty]; exact Nat.zero_le _)) (by
            intro keyword found
            rw [longest] at found
            cases found
            exact Nat.lt_of_not_le longer)
        exact ⟨read, (if_neg longer).trans isRead⟩
  | none =>
      apply exists_readWord
      · intro empty
        rcases length_le_of_prefix starts with ⟨word, found, _⟩ | bounded
        · rw [longest] at found
          cases found
        · rw [empty] at bounded
          exact token.image_isSolid.nonempty (List.length_eq_zero_iff.mp (Nat.le_zero.mp bounded))
      · intro word found
        rw [longest] at found
        cases found

theorem nextToken_eq_some_iff {behind : List Char} : nextToken chars = some (token, behind) ↔
    chars = token.image.toList ++ behind ∧ IsLongest token behind := by
  constructor
  · exact nextToken_isLongest
  · rintro ⟨rfl, isLongest⟩
    have starts : token.image.toList <+: token.image.toList ++ behind := List.prefix_append _ _
    obtain ⟨⟨found, rest⟩, read⟩ := exists_nextToken starts
    obtain ⟨whole, foundLongest⟩ := nextToken_isLongest read
    have foundStarts : found.image.toList <+: token.image.toList ++ behind :=
      whole ▸ List.prefix_append _ _
    have sameLength : found.image.toList.length = token.image.toList.length :=
      Nat.le_antisymm (isLongest found foundStarts) (foundLongest token (whole ▸ starts))
    obtain ⟨image, rfl⟩ := List.append_inj whole sameLength.symm
    rw [read, token_of_image (String.toList_injective image)]

end Words

def isLineEnd (c : Char) : Bool := c == '\n' || c == '\r'

/-- Blanks and comments.  The end of a line of two characters is an end and a blank. -/
inductive IsGap : List Char → Prop where
  | nil : IsGap []
  | blank {c : Char} {gap : List Char} (skipped : isSkipped c = true) (later : IsGap gap) :
      IsGap (c :: gap)
  | lineComment {comment gap : List Char} {c : Char}
      (oneLine : ∀ c ∈ comment, isLineEnd c = false) (ends : isLineEnd c = true)
      (later : IsGap gap) : IsGap ('/' :: '/' :: (comment ++ c :: gap))
  | blockComment {comment gap : List Char} (unended : ¬ ['*', '/'] <:+: comment)
      (later : IsGap gap) : IsGap ('/' :: '*' :: (comment ++ '*' :: '/' :: gap))

/-- The text is that of the tokens: each of them is the longest one where it begins, and
no comment begins there. -/
inductive Spells : List Token → List Char → Prop where
  | done {gap : List Char} (isGap : IsGap gap) : Spells [] gap
  | token {gap rest : List Char} {token : Token} {tokens : List Token} (isGap : IsGap gap)
      (isLongest : IsLongest token rest)
      (noComment : afterComment (token.image.toList ++ rest) = none)
      (later : Spells tokens rest) :
      Spells (token :: tokens) (gap ++ (token.image.toList ++ rest))

section Gaps

variable {tokens : List Token} {chars behind gap others : List Char}

theorem IsGap.append (first : IsGap gap) (second : IsGap others) : IsGap (gap ++ others) := by
  induction first with
  | nil => exact second
  | blank skipped later induction => exact IsGap.blank skipped induction
  | lineComment oneLine ends later induction =>
      rw [List.cons_append, List.cons_append, List.append_assoc, List.cons_append]
      exact IsGap.lineComment oneLine ends induction
  | blockComment unended later induction =>
      rw [List.cons_append, List.cons_append, List.append_assoc, List.cons_append,
        List.cons_append]
      exact IsGap.blockComment unended induction

theorem Spells.after (isGap : IsGap gap) (spells : Spells tokens chars) :
    Spells tokens (gap ++ chars) := by
  cases spells with
  | done isOther => exact Spells.done (isGap.append isOther)
  | token isOther isLongest noComment later =>
      rw [← List.append_assoc]
      exact Spells.token (isGap.append isOther) isLongest noComment later

theorem exists_blockComment (read : afterBlockComment chars = some behind) :
    ∃ comment, chars = comment ++ '*' :: '/' :: behind ∧ ¬ ['*', '/'] <:+: comment := by
  fun_induction afterBlockComment chars with
  | case1 rest =>
      cases read
      exact ⟨[], rfl, fun inside => absurd inside.length_le (by decide)⟩
  | case2 c rest notEnd induction =>
      obtain ⟨comment, rfl, unended⟩ := induction read
      refine ⟨c :: comment, rfl, ?_⟩
      intro inside
      rcases List.infix_cons_iff.mp inside with ⟨after, starts⟩ | later
      · obtain ⟨rfl, whole⟩ := List.cons.inj starts
        rw [← whole] at notEnd
        exact notEnd _ rfl rfl
      · exact unended later
  | case3 => cases read

theorem afterBlockComment_eq {comment : List Char} (unended : ¬ ['*', '/'] <:+: comment) :
    afterBlockComment (comment ++ '*' :: '/' :: behind) = some behind := by
  induction comment with
  | nil => rfl
  | cons c comment induction =>
      have later := induction (fun inside => unended (List.infix_cons inside))
      rw [List.cons_append, afterBlockComment]
      · exact later
      · rintro more rfl whole
        cases comment with
        | nil => cases whole
        | cons next comment =>
            obtain ⟨rfl, _⟩ := List.cons.inj whole
            exact unended (List.prefix_append ['*', '/'] comment).isInfix

theorem exists_lineComment (read : afterLineComment chars = some behind) :
    ∃ comment c gap, chars = comment ++ c :: (gap ++ behind) ∧
      (∀ c ∈ comment, isLineEnd c = false) ∧ isLineEnd c = true ∧ IsGap gap := by
  fun_induction afterLineComment chars with
  | case1 rest =>
      cases read
      exact ⟨[], '\r', ['\n'], rfl, by simp, rfl, IsGap.blank rfl IsGap.nil⟩
  | case2 rest =>
      cases read
      exact ⟨[], '\r', [], rfl, by simp, rfl, IsGap.nil⟩
  | case3 rest =>
      cases read
      exact ⟨[], '\n', [], rfl, by simp, rfl, IsGap.nil⟩
  | case4 first rest notBoth notReturn notEnd induction =>
      obtain ⟨comment, c, gap, rfl, oneLine, ends, isGap⟩ := induction read
      refine ⟨first :: comment, c, gap, rfl, ?_, ends, isGap⟩
      intro other member
      rcases List.mem_cons.mp member with rfl | inside
      · have notLineEnd : other ≠ '\n' ∧ other ≠ '\r' := ⟨notEnd, notReturn⟩
        simp [isLineEnd, notLineEnd]
      · exact oneLine other inside
  | case5 => cases read

theorem exists_gap (read : afterComment chars = some behind) :
    ∃ gap, chars = gap ++ behind ∧ IsGap gap := by
  rw [afterComment.eq_def] at read
  split at read
  · obtain ⟨comment, rfl, unended⟩ := exists_blockComment read
    refine ⟨_, ?_, IsGap.blockComment unended IsGap.nil⟩
    simp
  · obtain ⟨comment, c, gap, rfl, oneLine, ends, isGap⟩ := exists_lineComment read
    refine ⟨_, ?_, IsGap.lineComment oneLine ends isGap⟩
    simp
  · cases read

theorem spells_of_lex {fuel : Nat} (read : lex fuel chars = some tokens) :
    Spells tokens chars := by
  induction fuel generalizing chars tokens with
  | zero =>
      cases chars with
      | nil =>
          cases read
          exact Spells.done IsGap.nil
      | cons c rest => cases read
  | succ fuel induction =>
      cases chars with
      | nil =>
          cases read
          exact Spells.done IsGap.nil
      | cons c rest =>
          rw [lex] at read
          split at read
          · rename_i skipped
            exact (induction read).after (IsGap.blank skipped IsGap.nil)
          · split at read
            · rename_i behind comment
              obtain ⟨gap, whole, isGap⟩ := exists_gap comment
              rw [whole]
              exact (induction read).after isGap
            · rename_i noComment
              obtain ⟨⟨token, behind⟩, next, rest⟩ := Option.bind_eq_some_iff.mp read
              obtain ⟨later, lexed, ended⟩ := Option.bind_eq_some_iff.mp rest
              cases ended
              obtain ⟨whole, isLongest⟩ := nextToken_eq_some_iff.mp next
              rw [whole] at noComment ⊢
              exact Spells.token IsGap.nil isLongest noComment (induction lexed)

/-- A text is read from every number of rounds on that is at least its length. -/
def IsRead (chars : List Char) (tokens : List Token) : Prop :=
  ∀ fuel, chars.length ≤ fuel → lex fuel chars = some tokens

theorem IsRead.behind_blank {c : Char} (skipped : isSkipped c = true)
    (isRead : IsRead (c :: chars) tokens) : IsRead chars tokens := by
  intro fuel enough
  have read := isRead (fuel + 1) (Nat.succ_le_succ enough)
  rw [lex, if_pos skipped] at read
  exact read

theorem afterLineComment_eq {comment : List Char} {c : Char}
    (oneLine : ∀ c ∈ comment, isLineEnd c = false) (ends : isLineEnd c = true)
    (isRead : IsRead chars tokens) : ∃ behind,
      afterLineComment (comment ++ c :: chars) = some behind ∧ IsRead behind tokens ∧
        behind.length ≤ chars.length := by
  induction comment with
  | nil =>
      simp only [isLineEnd, Bool.or_eq_true, beq_iff_eq] at ends
      rcases ends with rfl | rfl
      · exact ⟨chars, rfl, isRead, Nat.le_refl _⟩
      · by_cases both : ∃ more, chars = '\n' :: more
        · obtain ⟨more, rfl⟩ := both
          exact ⟨more, rfl, isRead.behind_blank rfl, Nat.le_succ _⟩
        · refine ⟨chars, ?_, isRead, Nat.le_refl _⟩
          rw [List.nil_append, afterLineComment]
          exact fun more same => both ⟨more, same⟩
  | cons first comment induction =>
      obtain ⟨behind, read, ended⟩ :=
        induction (fun other member => oneLine other (List.mem_cons_of_mem _ member))
      refine ⟨behind, ?_, ended⟩
      have notLineEnd := oneLine first List.mem_cons_self
      simp only [isLineEnd, Bool.or_eq_false_iff, beq_eq_false_iff_ne] at notLineEnd
      rw [List.cons_append, afterLineComment]
      · exact read
      · exact fun more same _ => notLineEnd.2 same
      · exact notLineEnd.2
      · exact notLineEnd.1

theorem IsGap.isRead (isGap : IsGap gap) (isRead : IsRead chars tokens) :
    IsRead (gap ++ chars) tokens := by
  induction isGap with
  | nil => exact isRead
  | blank skipped later induction =>
      intro fuel enough
      cases fuel with
      | zero => cases enough
      | succ fuel =>
          rw [List.cons_append, lex, if_pos skipped]
          exact induction fuel (Nat.le_of_succ_le_succ enough)
  | @lineComment comment gap c oneLine ends later induction =>
      intro fuel enough
      cases fuel with
      | zero => cases enough
      | succ fuel =>
          obtain ⟨behind, read, isRead, shorter⟩ := afterLineComment_eq oneLine ends induction
          have skipped : afterComment ('/' :: '/' :: (comment ++ c :: (gap ++ chars))) =
              some behind := read
          simp only [List.cons_append, List.append_assoc] at enough ⊢
          rw [lex, if_neg (by decide), skipped]
          apply isRead
          simp only [List.length_cons, List.length_append] at enough shorter ⊢
          omega
  | @blockComment comment gap unended later induction =>
      intro fuel enough
      cases fuel with
      | zero => cases enough
      | succ fuel =>
          have read : afterComment ('/' :: '*' :: (comment ++ '*' :: '/' :: (gap ++ chars))) =
              some (gap ++ chars) := afterBlockComment_eq unended
          simp only [List.cons_append, List.append_assoc] at enough ⊢
          rw [lex, if_neg (by decide), read]
          apply induction
          simp only [List.length_cons, List.length_append] at enough ⊢
          omega

theorem lex_token {token : Token} {rest : List Char} (isLongest : IsLongest token rest)
    (noComment : afterComment (token.image.toList ++ rest) = none) (isRead : IsRead rest tokens) :
    IsRead (token.image.toList ++ rest) (token :: tokens) := by
  have next := nextToken_eq_some_iff.mpr ⟨rfl, isLongest⟩
  obtain ⟨first, others, image⟩ := List.exists_cons_of_ne_nil token.image_isSolid.nonempty
  intro fuel enough
  cases fuel with
  | zero =>
      rw [image] at enough
      cases enough
  | succ fuel =>
      have later : lex fuel rest = some tokens := by
        apply isRead
        rw [image, List.cons_append, List.length_cons, List.length_append] at enough
        omega
      rw [image, List.cons_append] at next noComment ⊢
      rw [lex, if_neg (not_isSkipped_of_image image), noComment]
      simp only [next, later, Option.bind_eq_bind, Option.bind_some, Option.pure_def]

theorem Spells.isRead (spells : Spells tokens chars) : IsRead chars tokens := by
  induction spells with
  | done isGap =>
      have empty : IsRead [] [] := by
        intro fuel _
        cases fuel with
        | _ => rfl
      have read := isGap.isRead empty
      rw [List.append_nil] at read
      exact read
  | token isGap isLongest noComment later induction =>
      exact isGap.isRead (lex_token isLongest noComment induction)

end Gaps

end Lexer

theorem tokenize_of_spells {text : String} {tokens : List Token}
    (spells : Lexer.Spells tokens text.toList) : tokenize text = some tokens :=
  spells.isRead _ (Nat.le_refl _)

theorem spells_of_tokenize {text : String} {tokens : List Token}
    (read : tokenize text = some tokens) : Lexer.Spells tokens text.toList :=
  Lexer.spells_of_lex read

/-- The scanner returns the tokens that a text spells, and fails for every other text. -/
theorem tokenize_eq_some_iff (text : String) (tokens : List Token) :
    tokenize text = some tokens ↔ Lexer.Spells tokens text.toList :=
  ⟨spells_of_tokenize, tokenize_of_spells⟩

end Symbolrt
