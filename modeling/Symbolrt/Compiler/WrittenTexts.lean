import Symbolrt.Compiler.Scanner
import Symbolrt.Compiler.SystemTexts

/-!
# Reading a written text

Tokens that are written with a blank behind each of them, and whatever blanks and
comments behind that, are read back.  So a text of a system is read as what it means,
however it is laid out.
-/

namespace Symbolrt

open Reading

namespace Lexer

section Layouts

variable {token other : Token} {c : Char} {rest : List Char}

theorem not_isSkipped_of_isNameChar (nameChar : isNameChar c = true) : isSkipped c = false := by
  rw [isSkipped]
  simp only [Bool.or_eq_false_iff, beq_eq_false_iff_ne]
  exact ⟨⟨⟨isNameChar_ne nameChar (by decide), isNameChar_ne nameChar (by decide)⟩,
    isNameChar_ne nameChar (by decide)⟩, isNameChar_ne nameChar (by decide)⟩

theorem not_isSkipped_of_mem (token : Token) : ∀ c ∈ token.image.toList, isSkipped c = false := by
  cases token with
  | keyword word => cases word <;> decide
  | identifier name isIdentifier =>
      have nameChars := (isName_chars (isName_of_isIdentifier isIdentifier)).2
      exact fun c member => not_isSkipped_of_isNameChar (nameChars c member)
  | integer numeral isNumeral =>
      have digits := (isNumeral_chars isNumeral).2
      exact fun c member => not_isSkipped_of_isNameChar (isDigit_isNameChar (digits c member))

theorem isLongest_blank (skipped : isSkipped c = true) : IsLongest token (c :: rest) := by
  intro other starts
  rcases List.prefix_or_prefix_of_prefix starts (List.prefix_append _ _) with inside | longer
  · exact inside.length_le
  · obtain ⟨behind, whole⟩ := longer
    cases behind with
    | nil =>
        rw [List.append_nil] at whole
        rw [whole]
    | cons next behind =>
        rw [← whole, List.prefix_append_right_inj] at starts
        obtain ⟨others, after⟩ := starts
        obtain ⟨rfl, _⟩ := List.cons.inj after
        have kept := not_isSkipped_of_mem other next (by rw [← whole]; simp)
        rw [skipped] at kept
        cases kept

theorem afterComment_blank (token : Token) (skipped : isSkipped c = true) :
    afterComment (token.image.toList ++ c :: rest) = none := by
  obtain ⟨first, others, image⟩ := List.exists_cons_of_ne_nil token.image_isSolid.nonempty
  by_cases slash : first = '/'
  · rw [slash] at image
    rw [eq_divTk image]
    have different : ∀ other, isSkipped other = false → c ≠ other := by
      rintro other kept rfl
      rw [kept] at skipped
      cases skipped
    show afterComment ('/' :: c :: rest) = none
    rw [afterComment]
    · exact fun behind same => different '*' (by decide) (List.cons.inj (List.cons.inj same).2).1
    · exact fun behind same => different '/' (by decide) (List.cons.inj (List.cons.inj same).2).1
  · rw [image, List.cons_append, afterComment]
    · exact fun behind same => absurd (List.cons.inj same).1 slash
    · exact fun behind same => absurd (List.cons.inj same).1 slash

/-- Blanks and comments, a blank first. -/
structure Gap where
  blank : Char
  others : List Char
  skipped : isSkipped blank = true
  isGap : IsGap others

/-- The text of tokens with a gap behind each of them. -/
def layOut (gaps : Nat → Gap) : List Token → List Char
  | [] => []
  | token :: tokens => token.image.toList ++ (gaps 0).blank ::
      ((gaps 0).others ++ layOut (fun i => gaps (i + 1)) tokens)

theorem spells_layOut (tokens : List Token) (gaps : Nat → Gap) :
    Spells tokens (layOut gaps tokens) := by
  induction tokens generalizing gaps with
  | nil => exact Spells.done IsGap.nil
  | cons token tokens induction =>
      have later := (induction (fun i => gaps (i + 1))).after
        (IsGap.blank (gaps 0).skipped (gaps 0).isGap)
      exact Spells.token IsGap.nil (isLongest_blank (gaps 0).skipped)
        (afterComment_blank token (gaps 0).skipped) later

end Layouts

end Lexer

/-- What the parser keeps of a text; nothing if it throws. -/
def TranslationUnit.read (specificationID text : String) : Option SystemUnit :=
  (tokenize text).bind (fun tokens => (systemRule specificationID tokens).toOption)

/-- A text of a system is read as what it means, however it is laid out, and a text is read
only if it spells a text of a system. -/
theorem TranslationUnit.read_texts (specificationID : String) :
    (∀ (system : SystemText) (gaps : Nat → Lexer.Gap),
      TranslationUnit.read specificationID (String.ofList (Lexer.layOut gaps system.write)) =
        (system.meaning specificationID).toOption) ∧
      ∀ text unit, TranslationUnit.read specificationID text = some unit ↔
        ∃ system : SystemText, Lexer.Spells system.write text.toList ∧
          system.meaning specificationID = .ok unit := by
  constructor
  · intro system gaps
    have spells := Lexer.spells_layOut system.write gaps
    rw [← @String.toList_ofList (Lexer.layOut gaps system.write)] at spells
    rw [TranslationUnit.read, tokenize_of_spells spells]
    exact congrArg Except.toOption (systemRule_write specificationID system)
  · intro text unit
    rw [TranslationUnit.read, Option.bind_eq_some_iff]
    constructor
    · rintro ⟨tokens, read, kept⟩
      cases returned : systemRule specificationID tokens with
      | error failure =>
          rw [returned] at kept
          cases kept
      | ok found =>
          rw [returned] at kept
          cases kept
          obtain ⟨system, rfl, means⟩ := systemRule_eq_ok_iff.mp returned
          exact ⟨system, spells_of_tokenize read, means⟩
    · rintro ⟨system, spells, means⟩
      refine ⟨system.write, tokenize_of_spells spells, ?_⟩
      rw [systemRule_write, means]
      rfl

end Symbolrt
