import Mathlib.Data.List.MinMax
import Symbolrt.Compiler.PrintedExpressions

/-!
# Reading a text as tokens

The generated scanner takes the longest token that a text begins with, and a keyword
before an identifier of the same length; blanks and comments between tokens are skipped.
-/

namespace Symbolrt

namespace Keyword

/-- The keywords in the order of the grammar. -/
def all : List Keyword :=
  [systemTk, constTk, clocksTk, gateTk, intTk, boolTk, moreThenTk, moreThenEqualsTk, equalsTk,
    lessThenTk, lessThenEqualsTk, diffTk, equivTk, minusTk, notTk, andTk, plusTk, multTk, orTk,
    modTk, divTk, trueTk, falseTk, processTk, inputActTk, outputActTk, internalActTk,
    variablesTk, stateTk, transitionTk, initStateTk, fromTk, deadlineTk, toTk, whenTk, ifTk,
    synkTk, inActTk, outActTk, delayableTk, eagerTk, lazyTk, doTk, closeParTk, openParTk,
    assignment, semicolon, comma, colon, openBrace, bar, closeBrace]

theorem mem_all (word : Keyword) : word ∈ all := by
  cases word <;> decide

theorem images_nodup : (all.map image).Nodup := by decide +kernel

theorem image_injective {word other : Keyword} (same : word.image = other.image) : word = other :=
  List.inj_on_of_nodup_map images_nodup word.mem_all other.mem_all same

end Keyword

namespace Lexer

/-- The letters of the grammar: those of English, and the underscore. -/
def isLetter (c : Char) : Bool := c.isAlpha || c == '_'

def isSkipped (c : Char) : Bool := c == ' ' || c == '\t' || c == '\n' || c == '\r'

/-- The text behind the end of a comment in braces of slashes and stars. -/
def afterBlockComment : List Char → Option (List Char)
  | '*' :: '/' :: rest => some rest
  | _ :: rest => afterBlockComment rest
  | [] => none

/-- The text behind the end of the line. -/
def afterLineComment : List Char → Option (List Char)
  | '\r' :: '\n' :: rest => some rest
  | '\r' :: rest => some rest
  | '\n' :: rest => some rest
  | _ :: rest => afterLineComment rest
  | [] => none

/-- The text behind the comment that a text begins with; a comment without an end is
none. -/
def afterComment : List Char → Option (List Char)
  | '/' :: '*' :: rest => afterBlockComment rest
  | '/' :: '/' :: rest => afterLineComment rest
  | _ => none

/-- The longest word of the language the text begins with. -/
def longestKeyword (chars : List Char) : Option Keyword :=
  (Keyword.all.filter (fun word => word.image.toList.isPrefixOf chars)).argmax
    (fun word => word.image.toList.length)

/-- The identifier or integer, or keyword spelled like one, that a text begins with. -/
def wordAt : List Char → List Char
  | [] => []
  | c :: rest =>
      if isLetter c then (c :: rest).takeWhile isNameChar else (c :: rest).takeWhile Char.isDigit

/-- The token of a text that is no word of the language. -/
def wordToken (text : String) : Option Token :=
  if identified : isIdentifier text = true then some (.identifier text identified)
  else if numeral : isNumeral text = true then some (.integer text numeral)
  else none

/-- The word at the head of the text, and what follows it. -/
def readWord (chars : List Char) : Option (Token × List Char) := do
  let token ← wordToken (String.ofList (wordAt chars))
  return (token, chars.drop (wordAt chars).length)

/-- The longest token that a text begins with, and the text behind it. -/
def nextToken (chars : List Char) : Option (Token × List Char) :=
  match longestKeyword chars with
  | some word =>
      if (wordAt chars).length ≤ word.image.toList.length then
        some (.keyword word, chars.drop word.image.toList.length)
      else
        readWord chars
  | none => readWord chars

/-- The tokens of a text; the fuel bounds its length. -/
def lex : Nat → List Char → Option (List Token)
  | _, [] => some []
  | 0, _ :: _ => none
  | fuel + 1, c :: rest =>
      if isSkipped c then lex fuel rest
      else match afterComment (c :: rest) with
        | some behind => lex fuel behind
        | none => do
            let (token, behind) ← nextToken (c :: rest)
            let tokens ← lex fuel behind
            return token :: tokens

/-- The text may stand behind the token on a printed line. -/
def Follows (token : Token) (rest : List Char) : Prop :=
  token.image = "(" ∨ ∀ c ∈ rest.head?, c = ' ' ∨ c = ')'

section Keywords

variable {token : Token} {word other : Keyword} {chars rest : List Char}

theorem mem_of_longestKeyword (longest : longestKeyword chars = some word) :
    word.image.toList <+: chars := by
  have member := List.argmax_mem longest
  exact List.isPrefixOf_iff_prefix.mp (List.mem_filter.mp member).2

theorem exists_longestKeyword (starts : other.image.toList <+: chars) :
    ∃ word, longestKeyword chars = some word ∧ word.image.toList <+: chars ∧
      other.image.toList.length ≤ word.image.toList.length := by
  have listed : other ∈ Keyword.all.filter (fun word => word.image.toList.isPrefixOf chars) :=
    List.mem_filter.mpr ⟨other.mem_all, List.isPrefixOf_iff_prefix.mpr starts⟩
  cases longest : longestKeyword chars with
  | none =>
      rw [longestKeyword, List.argmax_eq_none] at longest
      rw [longest] at listed
      cases listed
  | some word =>
      refine ⟨word, rfl, mem_of_longestKeyword longest, ?_⟩
      exact List.le_of_mem_argmax (f := fun word : Keyword => word.image.toList.length)
        listed longest

theorem tail_plain (word : Keyword) : ∀ c ∈ word.image.toList.tail, c ≠ ' ' ∧ c ≠ ')' := by
  cases word <;> decide

theorem eq_openParTk (starts : ['('] <+: word.image.toList) : word = .openParTk := by
  cases word with
  | openParTk => rfl
  | _ => exact absurd starts (by decide)

/-- A keyword that a printed token and the text behind it begin with is inside the token. -/
theorem isPrefix_of_follows (follows : Follows token rest)
    (starts : word.image.toList <+: token.image.toList ++ rest) :
    word.image.toList <+: token.image.toList := by
  rcases List.prefix_or_prefix_of_prefix starts (List.prefix_append _ _) with inside | longer
  · exact inside
  · rcases follows with opens | stops
    · rw [opens] at longer ⊢
      rw [eq_openParTk longer]
      exact List.prefix_refl _
    · obtain ⟨behind, whole⟩ := longer
      cases behind with
      | nil =>
          rw [List.append_nil] at whole
          rw [whole]
      | cons c behind =>
          rw [← whole, List.prefix_append_right_inj] at starts
          obtain ⟨others, after⟩ := starts
          have next := stops c (by rw [← after]; rfl)
          obtain ⟨first, middle, image⟩ :=
            List.exists_cons_of_ne_nil token.image_isSolid.nonempty
          have plain := tail_plain word c (by rw [← whole, image]; simp)
          rcases next with blank | closes
          · exact absurd blank plain.1
          · exact absurd closes plain.2

end Keywords

section Words

variable {rest : List Char} {name numeral : String}

theorem takeWhile_append {kind : Char → Bool} {word : List Char}
    (each : ∀ c ∈ word, kind c = true) (stop : ∀ c ∈ rest.head?, kind c = false) :
    (word ++ rest).takeWhile kind = word := by
  rw [List.takeWhile_append_of_pos each]
  cases rest with
  | nil => simp
  | cons c rest => simp [stop c rfl]

theorem not_name_of_follows {token : Token} (follows : Follows token rest)
    (notOpen : token.image ≠ "(") : ∀ c ∈ rest.head?, isNameChar c = false := by
  intro c member
  rcases follows with opens | stops
  · exact absurd opens notOpen
  · rcases stops c member with rfl | rfl
    · decide
    · decide

theorem wordAt_letter {word : List Char} (nonempty : word ≠ [])
    (starts : ∀ c ∈ word.head?, isLetter c = true) (each : ∀ c ∈ word, isNameChar c = true)
    (stop : ∀ c ∈ rest.head?, isNameChar c = false) : wordAt (word ++ rest) = word := by
  obtain ⟨first, others, rfl⟩ := List.exists_cons_of_ne_nil nonempty
  have letter : isLetter first = true := starts first rfl
  rw [List.cons_append, wordAt, if_pos letter]
  exact takeWhile_append each stop

theorem wordAt_digits {word : List Char} (nonempty : word ≠ [])
    (each : ∀ c ∈ word, c.isDigit = true) (stop : ∀ c ∈ rest.head?, isNameChar c = false) :
    wordAt (word ++ rest) = word := by
  obtain ⟨first, others, rfl⟩ := List.exists_cons_of_ne_nil nonempty
  have noLetter : ¬ isLetter first = true := by
    intro letter
    have digit := each first List.mem_cons_self
    rw [SymbolicExecution.isDigit_of_letter letter] at digit
    cases digit
  rw [List.cons_append, wordAt, if_neg noLetter]
  apply takeWhile_append each
  intro c member
  by_contra digit
  rw [Bool.not_eq_false] at digit
  have nameChar := isDigit_isNameChar digit
  rw [stop c member] at nameChar
  cases nameChar

theorem identifier_starts (isIdentifier : isIdentifier name = true) :
    ∀ c ∈ name.toList.head?, isLetter c = true := by
  intro c member
  simp only [Symbolrt.isIdentifier, Bool.and_eq_true, Bool.not_eq_true'] at isIdentifier
  obtain ⟨⟨isName, starts⟩, _⟩ := isIdentifier
  have nameChar := (isName_chars isName).2 c (List.mem_of_mem_head? member)
  rw [Option.mem_def] at member
  have notDigit : c.isDigit = false := by simpa [member] using starts
  simpa [isNameChar, isLetter, Char.isAlphanum, notDigit] using nameChar

theorem isReserved_of_isName (word : Keyword) (isName : isName word.image = true) :
    word ∈ Keyword.reserved := by
  cases word with
  | systemTk | constTk | clocksTk | gateTk | intTk | boolTk | notTk | andTk | orTk | trueTk
  | falseTk | processTk | inputActTk | outputActTk | internalActTk | variablesTk | stateTk
  | transitionTk | initStateTk | fromTk | deadlineTk | toTk | whenTk | ifTk | synkTk
  | delayableTk | eagerTk | lazyTk | doTk => decide
  | _ => exact absurd isName (by decide)

theorem length_lt_of_identifier (isIdentifier : isIdentifier name = true) {word : Keyword}
    (starts : word.image.toList <+: name.toList) :
    word.image.toList.length < name.toList.length := by
  apply Nat.lt_of_le_of_ne starts.length_le
  intro sameLength
  have same : word.image = name := String.toList_injective (starts.eq_of_length sameLength)
  simp only [Symbolrt.isIdentifier, Bool.and_eq_true, Bool.not_eq_true'] at isIdentifier
  obtain ⟨⟨isName, _⟩, unreserved⟩ := isIdentifier
  have reserved := isReserved_of_isName word (by rw [same]; exact isName)
  have none := List.any_eq_false.mp unreserved word reserved
  exact none (by rw [same]; exact beq_self_eq_true name)

end Words

section Tokens

variable {rest : List Char}

theorem readWord_of_word {chars : List Char} {token : Token} {word : List Char}
    (isWord : wordAt (word ++ rest) = word) (isToken : wordToken (String.ofList word) = some token)
    (whole : chars = word ++ rest) : readWord chars = some (token, rest) := by
  rw [readWord, whole, isWord, isToken]
  simp

theorem nextToken_identifier {name : String} {isIdentifier : isIdentifier name = true}
    (follows : Follows (.identifier name isIdentifier) rest) :
    nextToken (name.toList ++ rest) = some (.identifier name isIdentifier, rest) := by
  have isName : isName name = true := by
    simp only [Symbolrt.isIdentifier, Bool.and_eq_true] at isIdentifier
    exact isIdentifier.1.1
  obtain ⟨nonempty, nameChars⟩ := isName_chars isName
  have notOpen : name ≠ "(" := by
    rintro rfl
    exact absurd isName (by decide)
  have isWord := wordAt_letter nonempty (identifier_starts isIdentifier) nameChars
    (not_name_of_follows follows notOpen)
  have read : readWord (name.toList ++ rest) = some (.identifier name isIdentifier, rest) := by
    apply readWord_of_word isWord _ rfl
    rw [String.ofList_toList, wordToken, dif_pos isIdentifier]
  rw [nextToken]
  cases longest : longestKeyword (name.toList ++ rest) with
  | none => exact read
  | some word =>
      have inside := isPrefix_of_follows follows (mem_of_longestKeyword longest)
      have shorter := length_lt_of_identifier isIdentifier inside
      have longer : ¬ (wordAt (name.toList ++ rest)).length ≤ word.image.toList.length := by
        rw [isWord]
        exact Nat.not_le.mpr shorter
      exact (if_neg longer).trans read

theorem head_not_digit (word : Keyword) : ∀ c ∈ word.image.toList.head?, c.isDigit = false := by
  cases word <;> decide

theorem nextToken_integer {numeral : String} {isNumeral : isNumeral numeral = true}
    (follows : Follows (.integer numeral isNumeral) rest) :
    nextToken (numeral.toList ++ rest) = some (.integer numeral isNumeral, rest) := by
  obtain ⟨nonempty, digits⟩ := isNumeral_chars isNumeral
  have notOpen : numeral ≠ "(" := by
    rintro rfl
    exact absurd isNumeral (by decide)
  have isWord := wordAt_digits nonempty digits (not_name_of_follows follows notOpen)
  obtain ⟨first, others, image⟩ := List.exists_cons_of_ne_nil nonempty
  have digit : first.isDigit = true := digits first (by simp [image])
  have notIdentifier : ¬ isIdentifier numeral = true := by
    simp [Symbolrt.isIdentifier, image, digit]
  have read : readWord (numeral.toList ++ rest) = some (.integer numeral isNumeral, rest) := by
    apply readWord_of_word isWord _ rfl
    rw [String.ofList_toList, wordToken, dif_neg notIdentifier, dif_pos isNumeral]
  rw [nextToken]
  cases longest : longestKeyword (numeral.toList ++ rest) with
  | none => exact read
  | some word =>
      obtain ⟨behind, whole⟩ := mem_of_longestKeyword longest
      obtain ⟨head, tail, keyword⟩ :=
        List.exists_cons_of_ne_nil (Token.keyword word).image_isSolid.nonempty
      have keywordImage : word.image.toList = head :: tail := keyword
      rw [keywordImage, image] at whole
      have same : head = first := (List.cons.inj whole).1
      have notDigit := head_not_digit word head (by rw [keywordImage]; rfl)
      rw [same, digit] at notDigit
      cases notDigit

/-- An operator begins with no word, and a truth constant or logical operator is one. -/
theorem wordAt_keyword {word : Keyword} (inside : word.isExpressionKeyword = true)
    (follows : Follows (.keyword word) rest) :
    (wordAt (word.image.toList ++ rest)).length ≤ word.image.toList.length := by
  have letters : (∀ c ∈ word.image.toList.head?, isLetter c = true) →
      (∀ c ∈ word.image.toList, isNameChar c = true) → word.image ≠ "(" →
      (wordAt (word.image.toList ++ rest)).length ≤ word.image.toList.length := by
    intro starts each notOpen
    have nonempty : word.image.toList ≠ [] := (Token.keyword word).image_isSolid.nonempty
    rw [wordAt_letter nonempty starts each (not_name_of_follows follows notOpen)]
  have operator : ∀ first others, word.image.toList = first :: others →
      isNameChar first = false →
      (wordAt (word.image.toList ++ rest)).length ≤ word.image.toList.length := by
    intro first others image notName
    have noLetter : ¬ isLetter first = true := by
      intro letter
      have nameChar : isNameChar first = true := by
        simp only [isLetter, Bool.or_eq_true] at letter
        simp only [isNameChar, Char.isAlphanum, Bool.or_eq_true]
        exact letter.imp_left Or.inl
      rw [notName] at nameChar
      cases nameChar
    have noDigit : first.isDigit = false := by
      by_contra digit
      rw [Bool.not_eq_false] at digit
      rw [isDigit_isNameChar digit] at notName
      cases notName
    rw [image, List.cons_append, wordAt, if_neg noLetter,
      List.takeWhile_cons_of_neg (by simp [noDigit])]
    exact Nat.zero_le _
  cases word with
  | notTk | andTk | orTk | trueTk | falseTk => exact letters (by decide) (by decide) (by decide)
  | moreThenTk | moreThenEqualsTk | equalsTk | lessThenTk | lessThenEqualsTk | diffTk | equivTk
  | minusTk | plusTk | multTk | divTk | modTk | openParTk | closeParTk =>
      exact operator _ _ rfl (by decide)
  | _ => cases inside

theorem nextToken_keyword {word : Keyword} (inside : word.isExpressionKeyword = true)
    (follows : Follows (.keyword word) rest) :
    nextToken (word.image.toList ++ rest) = some (.keyword word, rest) := by
  obtain ⟨longest, found, starts, longer⟩ :=
    @exists_longestKeyword word _ (List.prefix_append word.image.toList rest)
  have inToken : longest.image.toList <+: word.image.toList :=
    @isPrefix_of_follows (.keyword word) longest rest follows starts
  have same : longest = word := by
    apply Keyword.image_injective
    apply String.toList_injective
    exact inToken.eq_of_length (Nat.le_antisymm inToken.length_le longer)
  rw [nextToken, found, same]
  simp [wordAt_keyword inside follows]

theorem nextToken_image {token : Token} (inside : token.isExpressionToken = true)
    (follows : Follows token rest) :
    nextToken (token.image.toList ++ rest) = some (token, rest) := by
  cases token with
  | keyword word => exact nextToken_keyword inside follows
  | identifier name isIdentifier => exact nextToken_identifier follows
  | integer numeral isNumeral => exact nextToken_integer follows

theorem not_isSkipped_of_image {token : Token} {c : Char} {others : List Char}
    (image : token.image.toList = c :: others) : ¬ isSkipped c = true := by
  have notBlank := token.image_isSolid.headKept c (by rw [image]; rfl)
  intro skipped
  simp only [isSkipped, Bool.or_eq_true, beq_iff_eq] at skipped
  rcases skipped with ((rfl | rfl) | rfl) | rfl
  · exact absurd notBlank (by decide)
  · exact absurd notBlank (by decide)
  · exact absurd notBlank (by decide)
  · exact absurd notBlank (by decide)

theorem eq_divTk {token : Token} {others : List Char}
    (image : token.image.toList = '/' :: others) : token = .keyword .divTk := by
  cases token with
  | keyword word =>
      have starts : ['/'] <+: word.image.toList := ⟨others, image.symm⟩
      cases word with
      | divTk => rfl
      | _ => exact absurd starts (by decide)
  | identifier name isIdentifier =>
      have spelled : name.toList = '/' :: others := image
      have letter := identifier_starts isIdentifier '/' (by rw [spelled]; rfl)
      exact absurd letter (by decide)
  | integer numeral isNumeral =>
      have spelled : numeral.toList = '/' :: others := image
      have digit := (isNumeral_chars isNumeral).2 '/' (by rw [spelled]; exact List.mem_cons_self)
      exact absurd digit (by decide)

theorem afterComment_image {token : Token} (inside : token.isExpressionToken = true)
    (follows : Follows token rest) : afterComment (token.image.toList ++ rest) = none := by
  obtain ⟨first, others, image⟩ := List.exists_cons_of_ne_nil token.image_isSolid.nonempty
  by_cases slash : first = '/'
  · have isDiv := eq_divTk (slash ▸ image)
    subst isDiv
    rcases follows with opens | stops
    · exact absurd opens (by decide)
    · cases rest with
      | nil => rfl
      | cons c rest =>
          rcases stops c rfl with rfl | rfl
          · rfl
          · rfl
  · rw [image, List.cons_append, afterComment]
    · exact fun behind same => absurd (List.cons.inj same).1 slash
    · exact fun behind same => absurd (List.cons.inj same).1 slash

theorem lex_image {token : Token} (inside : token.isExpressionToken = true)
    (follows : Follows token rest) {tokens : List Token} {fuel : Nat}
    (later : lex fuel rest = some tokens) :
    lex (fuel + 1) (token.image.toList ++ rest) = some (token :: tokens) := by
  have read := nextToken_image inside follows
  have noComment := afterComment_image inside follows
  obtain ⟨first, others, image⟩ := List.exists_cons_of_ne_nil token.image_isSolid.nonempty
  have kept := not_isSkipped_of_image image
  rw [image, List.cons_append] at read noComment ⊢
  rw [lex, if_neg kept, noComment]
  simp only
  rw [read]
  simp [later]

theorem lex_mono {fuel : Nat} {chars : List Char} {tokens : List Token}
    (read : lex fuel chars = some tokens) : lex (fuel + 1) chars = some tokens := by
  induction fuel generalizing chars tokens with
  | zero =>
      cases chars with
      | nil => exact read
      | cons c rest => cases read
  | succ fuel induction =>
      cases chars with
      | nil => exact read
      | cons c rest =>
          rw [lex] at read ⊢
          split
          · rename_i skipped
            rw [if_pos skipped] at read
            exact induction read
          · rename_i kept
            rw [if_neg kept] at read
            split
            · rename_i behind comment
              rw [comment] at read
              exact induction read
            · rename_i comment
              rw [comment] at read
              obtain ⟨⟨token, behind⟩, next, rest⟩ := Option.bind_eq_some_iff.mp read
              obtain ⟨later, lexed, whole⟩ := Option.bind_eq_some_iff.mp rest
              rw [next]
              simp only [Option.bind_eq_bind, Option.bind_some, induction lexed]
              exact whole

theorem lex_of_le {fuel more : Nat} {chars : List Char} {tokens : List Token}
    (read : lex fuel chars = some tokens) (enough : fuel ≤ more) :
    lex more chars = some tokens := by
  induction enough with
  | refl => exact read
  | step _ induction => exact lex_mono induction

/-- The scanner reads a printed line of tokens of an expression. -/
theorem lex_line {tokens : List Token}
    (inside : ∀ token ∈ tokens, token.isExpressionToken = true) :
    lex (Token.style.line tokens).length (Token.style.line tokens) = some tokens := by
  induction tokens with
  | nil => rfl
  | cons token tokens induction =>
      have later := induction (fun other member => inside other (List.mem_cons_of_mem _ member))
      have here := inside token List.mem_cons_self
      have positive := List.length_pos_of_ne_nil token.image_isSolid.nonempty
      cases tokens with
      | nil =>
          have read := @lex_image [] token here (Or.inr (by simp)) [] 0 later
          rw [List.append_nil] at read
          exact lex_of_le read positive
      | cons next rest =>
          have length : (Token.style.line (token :: next :: rest)).length =
              token.image.toList.length + ((Token.style.joint token next).length +
                (Token.style.line (next :: rest)).length) := by
            rw [Layout.Style.line, List.length_append, List.length_append, Nat.add_assoc]
            rfl
          have read : lex (Token.style.joint token next ++
              Token.style.line (next :: rest)).length (Token.style.joint token next ++
                Token.style.line (next :: rest)) = some (next :: rest) := by
            rw [Layout.Style.joint]
            split
            · exact later
            · exact later
          have follows : Follows token (Token.style.joint token next ++
              Token.style.line (next :: rest)) := by
            by_cases opens : token.image = "("
            · exact Or.inl opens
            · right
              intro c member
              by_cases closes : Token.style.closes next = true
              · right
                have nextImage : next.image = ")" := eq_of_beq closes
                have joint : Token.style.joint token next = [] := by
                  rw [Layout.Style.joint, closes, Bool.or_true]
                  rfl
                have lineHead : (Token.style.line (next :: rest)).head? = some ')' := by
                  have image : Token.style.image next = [')'] := congrArg String.toList nextImage
                  cases rest with
                  | nil => rw [Layout.Style.line, image]; rfl
                  | cons further rest => rw [Layout.Style.line, image]; rfl
                rw [joint, List.nil_append, lineHead] at member
                exact (Option.some.inj member).symm
              · left
                have notOpen : Token.style.opens token = false := by
                  simpa [Token.style] using opens
                have joint : Token.style.joint token next = [' '] := by
                  rw [Layout.Style.joint, notOpen, Bool.false_or, if_neg closes]
                rw [joint] at member
                exact (Option.some.inj member).symm
          have whole := lex_image here follows read
          rw [Layout.Style.line, List.append_assoc]
          apply lex_of_le whole
          have image : (Token.style.image token).length = token.image.toList.length := rfl
          simp only [List.length_append]
          omega

end Tokens

end Lexer

/-- The tokens that the scanner returns for a text. -/
def tokenize (text : String) : Option (List Token) :=
  Lexer.lex text.toList.length text.toList

/-- The text of an expression is read as the tokens of the expression, and updating it puts
the values of its identifiers in their places and changes nothing else. -/
theorem expressionRule_text {tokens rest : List Token} {expr : AbstractExpression}
    (returned : expressionRule AbstractExpression.new tokens = .ok (expr, rest))
    {symbolicValues : SymbolicMapping}
    (identifiers : SymbolicExecution.NamesIdentifiers symbolicValues) :
    tokenize expr.toString = some expr.expression ∧
      SymbolicExecution.updateExpression expr.toString symbolicValues =
        AbstractExpression.printWith (Token.valueIn symbolicValues) expr.expression := by
  obtain ⟨passed, records, _⟩ := expressionRule_records returned
  have recorded : expr.expression = passed := by
    rw [records.result_eq]
    rfl
  have inside : ∀ token ∈ expr.expression, token.isExpressionToken = true := by
    rw [recorded]
    exact records.passes.each
  constructor
  · rw [tokenize, AbstractExpression.toString_toList]
    exact Lexer.lex_line inside
  · exact AbstractExpression.updateExpression_toString identifiers inside

namespace LexerInstance

/-- The tokens of a comparison with a sum in parentheses. -/
def tokens : List Token :=
  [.identifier "x" isIdentifier_x, .keyword .lessThenEqualsTk, .keyword .openParTk,
    .identifier "xy" (by decide), .keyword .modTk, .integer "7" (by decide),
    .keyword .closeParTk, .keyword .andTk, .identifier "ANDx" (by decide)]

def symbolicValues : SymbolicMapping :=
  ((∅ : SymbolicMapping).insert "x" "x_0").insert "xy" "x_0 + 1"

theorem namesIdentifiers : SymbolicExecution.NamesIdentifiers symbolicValues := by
  intro name text found
  by_cases second : name = "xy"
  · rw [second]
    decide
  · rw [symbolicValues, Finmap.lookup_insert_of_ne _ second] at found
    by_cases first : name = "x"
    · rw [first]
      decide
    · rw [Finmap.lookup_insert_of_ne _ first, Finmap.lookup_empty] at found
      cases found

end LexerInstance

open LexerInstance in
theorem expressionRule_text_comparison : ∃ expr,
    expressionRule AbstractExpression.new tokens = .ok (expr, []) ∧
      tokenize expr.toString = some expr.expression ∧
      SymbolicExecution.updateExpression expr.toString symbolicValues =
        AbstractExpression.printWith (Token.valueIn symbolicValues) expr.expression := by
  have read : expressionRule AbstractExpression.new tokens = .ok (⟨tokens, false⟩, []) := by
    decide +kernel
  exact ⟨⟨tokens, false⟩, read, expressionRule_text read namesIdentifiers⟩

end Symbolrt
