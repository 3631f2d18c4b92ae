import Symbolrt.Compiler.RecordedTokens

/-!
# The clauses of an accepted declaration

An accepted declaration is its source, up to five clauses in a fixed order and its
destination.  Every clause is its keyword and tokens that open no clause, so the
clauses can be found in the declaration without parsing it.
-/

namespace Symbolrt

open Reading

def opensNoClause (token : Token) : Bool := !token.opensClause

/-- The tokens of a clause: those after its keyword, up to the next keyword that
opens a part of the declaration. -/
def clause (word : Keyword) : List Token → Option (List Token)
  | [] => none
  | token :: rest =>
      if token = .keyword word then
        some (rest.takeWhile opensNoClause)
      else
        clause word rest

/-- A clause that is there or not. -/
def clausePart (word : Keyword) : Option (List Token) → List Token
  | none => []
  | some body => .keyword word :: body

section Finding

variable {word other : Keyword} {tokens body rest : List Token}

theorem isSome_clause_iff (word : Keyword) (tokens : List Token) :
    (clause word tokens).isSome = true ↔ Token.keyword word ∈ tokens := by
  induction tokens with
  | nil => simp [clause]
  | cons token tokens induction =>
      by_cases same : token = .keyword word
      · have found : clause word (token :: tokens) =
            some (tokens.takeWhile opensNoClause) := if_pos same
        rw [found, same]
        exact ⟨fun _ => List.mem_cons_self, fun _ => rfl⟩
      · have skipped : clause word (token :: tokens) = clause word tokens := if_neg same
        rw [skipped, induction, List.mem_cons]
        exact ⟨Or.inr, fun member => member.resolve_left (fun equal => same equal.symm)⟩

theorem clause_skip {token : Token} (different : token ≠ .keyword word) :
    clause word (token :: tokens) = clause word tokens := if_neg different

theorem clause_passed (opening : word.opensClause = true)
    (passes : Passes opensNoClause tokens body rest) : clause word tokens = clause word rest := by
  obtain ⟨rfl, free⟩ := passes
  induction body with
  | nil => rfl
  | cons token body induction =>
      have different : token ≠ .keyword word := by
        intro same
        have closed := free token List.mem_cons_self
        rw [same] at closed
        simp [opensNoClause, Token.opensClause, opening] at closed
      rw [List.cons_append, clause_skip different]
      exact induction (fun token member => free token (List.mem_cons_of_mem _ member))

theorem takeWhile_passed (passes : Passes opensNoClause tokens body rest)
    (stops : nextIs Token.opensClause rest = true) :
    tokens.takeWhile opensNoClause = body := by
  obtain ⟨rfl, free⟩ := passes
  obtain ⟨token, after, rfl, opens⟩ := nextIs_eq_true.mp stops
  induction body with
  | nil => simp [opensNoClause, opens]
  | cons first body induction =>
      have kept : opensNoClause first = true := free first List.mem_cons_self
      rw [List.cons_append, List.takeWhile_cons_of_pos kept,
        induction (fun token member => free token (List.mem_cons_of_mem _ member))]

theorem clause_part_self {found : Option (List Token)}
    (passes : ∀ body ∈ found, ∀ token ∈ body, opensNoClause token = true)
    (stops : nextIs Token.opensClause rest = true) :
    clause word (clausePart word found ++ rest) = found.or (clause word rest) := by
  cases found with
  | none => rfl
  | some body =>
      have here : clause word (clausePart word (some body) ++ rest) =
          some ((body ++ rest).takeWhile opensNoClause) := if_pos rfl
      have whole : Passes opensNoClause (body ++ rest) body rest := ⟨rfl, passes body rfl⟩
      rw [here, takeWhile_passed whole stops]
      rfl

theorem clause_part_other {found : Option (List Token)} (opening : word.opensClause = true)
    (different : other ≠ word)
    (passes : ∀ body ∈ found, ∀ token ∈ body, opensNoClause token = true) :
    clause word (clausePart other found ++ rest) = clause word rest := by
  cases found with
  | none => rfl
  | some body =>
      have whole : Passes opensNoClause (body ++ rest) body rest := ⟨rfl, passes body rfl⟩
      have skipped : clause word (clausePart other (some body) ++ rest) =
          clause word (body ++ rest) :=
        clause_skip (fun same => different (Token.keyword.inj same))
      rw [skipped, clause_passed opening whole]

theorem nextIs_clausePart {found : Option (List Token)} (opening : other.opensClause = true)
    (stops : nextIs Token.opensClause rest = true) :
    nextIs Token.opensClause (clausePart other found ++ rest) = true := by
  cases found with
  | none => exact stops
  | some body => exact opening

end Finding

/-- The rule reads the keyword and a body that opens no clause, and its result
matches the body. -/
def ReadsClause {α : Type} (word : Keyword)
    (rule : List Token → Except ReadFailure (α × List Token))
    (fits : α → List Token → Prop) : Prop :=
  ∀ {tokens rest value}, rule tokens = .ok (value, rest) →
    ∃ body, tokens = .keyword word :: (body ++ rest) ∧
      (∀ token ∈ body, opensNoClause token = true) ∧ fits value body

theorem eq_keyword_of_is {token : Token} {word : Keyword} (same : token.is word = true) :
    token = .keyword word := by
  cases token with
  | keyword other => exact congrArg Token.keyword (eq_of_beq same)
  | identifier name isIdentifier => cases same
  | integer numeral isNumeral => cases same

theorem exists_after_keyword {α : Type} {word : Keyword} {tokens : List Token} {result : α}
    {next : Token × List Token → Except ReadFailure α}
    (returned : (consumeToken (Token.is word) tokens >>= next) = .ok result) :
    ∃ after, tokens = .keyword word :: after ∧ next (.keyword word, after) = .ok result := by
  obtain ⟨⟨token, after⟩, consumed, later⟩ := Reading.bind_eq_ok.mp returned
  obtain ⟨rfl, isWord⟩ := consumeToken_eq_ok.mp consumed
  rw [eq_keyword_of_is isWord] at later ⊢
  exact ⟨after, rfl, later⟩

theorem ReadsClause.optional {α : Type} {word : Keyword}
    {rule : List Token → Except ReadFailure (α × List Token)} {fits : α → List Token → Prop}
    (reads : ReadsClause word rule fits) {current result : Option α} {tokens rest : List Token}
    (returned : optionalPart (Token.is word) rule current tokens = .ok (result, rest)) :
    ∃ found : Option (List Token), tokens = clausePart word found ++ rest ∧
      (∀ body ∈ found, ∀ token ∈ body, opensNoClause token = true) ∧
      ((found = none ∧ result = current) ∨
        ∃ body value, found = some body ∧ result = some value ∧ fits value body) := by
  rcases optionalPart_eq_ok.mp returned with ⟨_, value, read, same⟩ | ⟨_, same, left⟩
  · obtain ⟨body, whole, free, fit⟩ := reads read
    refine ⟨some body, whole, ?_, .inr ⟨body, value, rfl, same, fit⟩⟩
    intro other member
    cases member
    exact free
  · refine ⟨none, left.symm, ?_, .inl ⟨rfl, same⟩⟩
    intro other member
    cases member

end Symbolrt
