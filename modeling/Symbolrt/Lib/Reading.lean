import Mathlib.Data.List.Basic

/-!
# Reading tokens with one token of lookahead

The parts a generated parser is made of: consuming a token of an expected kind,
an optional part that the next token opens, and a loop that runs as long as the
next token opens a round.  What a rule passes over is a part of its input, and a
loop whose rounds pass over a token each is never cut off.
-/

namespace Reading

/-- The parser's exception, an exception of what it runs while it reads, and the
recursion depth of the model being used up. -/
inductive ReadFailure where
  | parseException
  | actionException
  | depthExceeded
  deriving DecidableEq, Repr

section Rules

variable {τ α β : Type}

def consumeToken (expected : τ → Bool) : List τ → Except ReadFailure (τ × List τ)
  | token :: rest => if expected token then .ok (token, rest) else .error .parseException
  | [] => .error .parseException

def nextIs (expected : τ → Bool) (tokens : List τ) : Bool := tokens.head?.any expected

/-- An optional part leaves the variable it is stored in as it is if the next
token does not open it. -/
def optionalPart (opens : τ → Bool) (rule : List τ → Except ReadFailure (α × List τ))
    (current : Option α) (tokens : List τ) : Except ReadFailure (Option α × List τ) :=
  if nextIs opens tokens then do
    let (value, rest) ← rule tokens
    return (some value, rest)
  else
    return (current, tokens)

def repeatWhile (opens : τ → Bool)
    (round : α → List τ → Except ReadFailure (α × List τ)) :
    Nat → α → List τ → Except ReadFailure (α × List τ)
  | 0, _, _ => .error .depthExceeded
  | fuel + 1, value, tokens =>
      if nextIs opens tokens then do
        let (value, rest) ← round value tokens
        repeatWhile opens round fuel value rest
      else
        return (value, tokens)

/-- The tokens are the passed ones, all of them of a kind, and the rest. -/
structure Passes (kind : τ → Bool) (tokens passed rest : List τ) : Prop where
  whole : tokens = passed ++ rest
  each : ∀ token ∈ passed, kind token = true

section Passing

variable {kind : τ → Bool} {tokens passed middle others rest : List τ}

theorem Passes.none : Passes kind tokens [] tokens := ⟨rfl, by simp⟩

theorem Passes.cons {token : τ} (first : kind token = true)
    (later : Passes kind tokens passed rest) :
    Passes kind (token :: tokens) (token :: passed) rest := by
  constructor
  · rw [later.whole, List.cons_append]
  · intro other member
    rcases List.mem_cons.mp member with same | inside
    · exact same ▸ first
    · exact later.each other inside

theorem Passes.append (first : Passes kind tokens passed middle)
    (second : Passes kind middle others rest) :
    Passes kind tokens (passed ++ others) rest := by
  constructor
  · rw [first.whole, second.whole, List.append_assoc]
  · intro token member
    rcases List.mem_append.mp member with left | right
    · exact first.each token left
    · exact second.each token right

theorem Passes.mono {wider : τ → Bool} (passes : Passes kind tokens passed rest)
    (weaker : ∀ token, kind token = true → wider token = true) :
    Passes wider tokens passed rest :=
  ⟨passes.whole, fun token member => weaker token (passes.each token member)⟩

theorem Passes.length_eq (passes : Passes kind tokens passed rest) :
    tokens.length = passed.length + rest.length := by
  rw [passes.whole, List.length_append]

end Passing

theorem bind_eq_ok {step : Except ReadFailure α} {next : α → Except ReadFailure β}
    {value : β} : (step >>= next) = .ok value ↔
      ∃ middle, step = .ok middle ∧ next middle = .ok value := by
  cases step with
  | ok middle => simp [bind, Except.bind]
  | error failure => simp [bind, Except.bind]

/-- A reading that passes a check. -/
theorem exists_read {result : Except ReadFailure α} {checked : α → Bool}
    (ran : result.toOption.map checked = some true) :
    ∃ value, result = .ok value ∧ checked value = true := by
  cases result with
  | ok value => exact ⟨value, rfl, Option.some.inj ran⟩
  | error failure => cases ran

theorem consumeToken_eq_ok {expected : τ → Bool} {tokens rest : List τ} {token : τ} :
    consumeToken expected tokens = .ok (token, rest) ↔
      tokens = token :: rest ∧ expected token = true := by
  cases tokens with
  | nil => simp [consumeToken]
  | cons head tail =>
      cases kept : expected head with
      | true =>
          have returned : consumeToken expected (head :: tail) = .ok (head, tail) := if_pos kept
          rw [returned, Except.ok.injEq, Prod.mk.injEq, List.cons.injEq]
          constructor
          · rintro ⟨rfl, rfl⟩
            exact ⟨⟨rfl, rfl⟩, kept⟩
          · rintro ⟨same, _⟩
            exact same
      | false =>
          have failed : consumeToken expected (head :: tail) = .error .parseException :=
            if_neg (by simp [kept])
          rw [failed]
          constructor
          · intro impossible
            cases impossible
          · rintro ⟨same, accepted⟩
            rw [(List.cons.inj same).1, accepted] at kept
            cases kept

theorem nextIs_eq_true {expected : τ → Bool} {tokens : List τ} :
    nextIs expected tokens = true ↔
      ∃ token rest, tokens = token :: rest ∧ expected token = true := by
  cases tokens with
  | nil => simp [nextIs]
  | cons head tail => simp [nextIs]

/-- An optional part that returned was either read or absent. -/
theorem optionalPart_eq_ok {opens : τ → Bool}
    {rule : List τ → Except ReadFailure (α × List τ)}
    {current result : Option α} {tokens rest : List τ} :
    optionalPart opens rule current tokens = .ok (result, rest) ↔
      (nextIs opens tokens = true ∧ ∃ value, rule tokens = .ok (value, rest) ∧
        result = some value) ∨
      (nextIs opens tokens = false ∧ result = current ∧ rest = tokens) := by
  cases opened : nextIs opens tokens with
  | true =>
      have unfolded : optionalPart opens rule current tokens =
          (rule tokens >>= fun read => pure (some read.1, read.2)) := if_pos opened
      rw [unfolded, bind_eq_ok]
      constructor
      · rintro ⟨⟨value, left⟩, read, same⟩
        cases same
        exact .inl ⟨rfl, value, read, rfl⟩
      · rintro (⟨_, value, read, rfl⟩ | ⟨impossible, _⟩)
        · exact ⟨(value, rest), read, rfl⟩
        · cases impossible
  | false =>
      have unfolded : optionalPart opens rule current tokens = pure (current, tokens) :=
        if_neg (by simp [opened])
      rw [unfolded]
      constructor
      · intro same
        cases same
        exact .inr ⟨rfl, rfl, rfl⟩
      · rintro (⟨impossible, _⟩ | ⟨_, rfl, rfl⟩)
        · cases impossible
        · rfl

/-- What holds before a loop and is kept by each of its rounds holds after it. -/
theorem repeatWhile_induction {opens : τ → Bool}
    {round : α → List τ → Except ReadFailure (α × List τ)}
    {property : α → List τ → Prop}
    (step : ∀ {value next tokens rest}, property value tokens →
      nextIs opens tokens = true → round value tokens = .ok (next, rest) → property next rest)
    (fuel : Nat) {value result : α} {tokens rest : List τ} (start : property value tokens)
    (returned : repeatWhile opens round fuel value tokens = .ok (result, rest)) :
    property result rest ∧ nextIs opens rest = false := by
  induction fuel generalizing value tokens with
  | zero => cases returned
  | succ fuel induction =>
      cases opened : nextIs opens tokens with
      | true =>
          have unfolded : repeatWhile opens round (fuel + 1) value tokens =
              (round value tokens >>= fun read => repeatWhile opens round fuel read.1 read.2) :=
            if_pos opened
          rw [unfolded, bind_eq_ok] at returned
          obtain ⟨⟨next, left⟩, read, later⟩ := returned
          exact induction (step start opened read) later
      | false =>
          have unfolded : repeatWhile opens round (fuel + 1) value tokens =
              .ok (value, tokens) := if_neg (by simp [opened])
          rw [unfolded] at returned
          cases returned
          exact ⟨start, opened⟩

/-- What was passed over is of a kind. -/
def Within (kind : τ → Bool) (tokens rest : List τ) : Prop :=
  ∃ passed, Passes kind tokens passed rest

section Within

variable {kind : τ → Bool} {tokens middle rest : List τ} {token : τ}

theorem Within.refl (tokens : List τ) : Within kind tokens tokens := ⟨[], Passes.none⟩

theorem Within.trans (first : Within kind tokens middle) (second : Within kind middle rest) :
    Within kind tokens rest := by
  obtain ⟨passed, passes⟩ := first
  obtain ⟨others, further⟩ := second
  exact ⟨passed ++ others, passes.append further⟩

theorem Within.mono {wider : τ → Bool} (within : Within kind tokens rest)
    (weaker : ∀ token, kind token = true → wider token = true) : Within wider tokens rest := by
  obtain ⟨passed, passes⟩ := within
  exact ⟨passed, passes.mono weaker⟩

theorem Within.suffix (within : Within kind tokens rest) : rest <:+ tokens := by
  obtain ⟨passed, passes⟩ := within
  exact ⟨passed, passes.whole.symm⟩

theorem within_of_consumeToken {expected : τ → Bool}
    (consumed : consumeToken expected tokens = .ok (token, rest))
    (keeps : ∀ {token}, expected token = true → kind token = true) : Within kind tokens rest := by
  obtain ⟨rfl, isExpected⟩ := consumeToken_eq_ok.mp consumed
  exact ⟨[token], Passes.none.cons (keeps isExpected)⟩

theorem within_of_optionalPart {opens : τ → Bool}
    {rule : List τ → Except ReadFailure (α × List τ)} {current result : Option α}
    (returned : optionalPart opens rule current tokens = .ok (result, rest))
    (within : ∀ {value}, rule tokens = .ok (value, rest) → Within kind tokens rest) :
    Within kind tokens rest := by
  rcases optionalPart_eq_ok.mp returned with ⟨_, value, read, _⟩ | ⟨_, _, same⟩
  · exact within read
  · rw [same]
    exact Within.refl tokens

theorem within_of_repeatWhile {opens : τ → Bool}
    {round : α → List τ → Except ReadFailure (α × List τ)} {fuel : Nat} {value result : α}
    (returned : repeatWhile opens round fuel value tokens = .ok (result, rest))
    (within : ∀ {value next left later}, round value left = .ok (next, later) →
      Within kind left later) :
    Within kind tokens rest := by
  have kept : ∀ {value next : α} {left later : List τ}, Within kind tokens left →
      nextIs opens left = true → round value left = .ok (next, later) →
        Within kind tokens later :=
    fun before _ read => before.trans (within read)
  have ended := @repeatWhile_induction _ _ _ _ (fun _ left => Within kind tokens left) kept _ _ _
    _ _ (Within.refl tokens) returned
  exact ended.1

end Within

/-- The result is not that of a recursion that was cut off. -/
def Settled (result : Except ReadFailure α) : Prop := result ≠ .error .depthExceeded

theorem Settled.ok (value : α) : Settled (.ok value) := by
  intro same
  cases same

theorem Settled.bind {step : Except ReadFailure α} {next : α → Except ReadFailure β}
    (first : Settled step) (later : ∀ value, step = .ok value → Settled (next value)) :
    Settled (step >>= next) := by
  cases step with
  | ok value => exact later value rfl
  | error failure =>
      intro same
      cases same
      exact first rfl

theorem Settled.consumeToken (expected : τ → Bool) (tokens : List τ) :
    Settled (consumeToken expected tokens) := by
  cases tokens with
  | nil => exact fun same => by cases same
  | cons head tail =>
      cases kept : expected head with
      | true => simp [Settled, Reading.consumeToken, kept]
      | false => simp [Settled, Reading.consumeToken, kept]

theorem Settled.optionalPart {opens : τ → Bool}
    {rule : List τ → Except ReadFailure (α × List τ)}
    {current : Option α} {tokens : List τ}
    (settled : nextIs opens tokens = true → Settled (rule tokens)) :
    Settled (optionalPart opens rule current tokens) := by
  cases opened : nextIs opens tokens with
  | true =>
      have unfolded : Reading.optionalPart opens rule current tokens =
          (rule tokens >>= fun read => pure (some read.1, read.2)) := if_pos opened
      rw [unfolded]
      exact (settled opened).bind (fun read _ => Settled.ok _)
  | false =>
      have unfolded : Reading.optionalPart opens rule current tokens = pure (current, tokens) :=
        if_neg (by simp [opened])
      rw [unfolded]
      exact Settled.ok _

/-- A loop whose rounds shorten the input ends within the length of the input. -/
theorem Settled.repeatWhile {opens : τ → Bool}
    {round : α → List τ → Except ReadFailure (α × List τ)}
    (settled : ∀ value tokens, nextIs opens tokens = true → Settled (round value tokens))
    (shortens : ∀ {value next tokens rest}, nextIs opens tokens = true →
      round value tokens = .ok (next, rest) → rest.length < tokens.length)
    (fuel : Nat) (value : α) (tokens : List τ) (enough : tokens.length < fuel) :
    Settled (repeatWhile opens round fuel value tokens) := by
  induction fuel generalizing value tokens with
  | zero => exact absurd enough (Nat.not_lt_zero _)
  | succ fuel induction =>
      cases opened : nextIs opens tokens with
      | true =>
          have unfolded : Reading.repeatWhile opens round (fuel + 1) value tokens =
              (round value tokens >>= fun read =>
                Reading.repeatWhile opens round fuel read.1 read.2) := if_pos opened
          rw [unfolded]
          apply (settled value tokens opened).bind
          rintro ⟨next, rest⟩ read
          apply induction
          exact Nat.lt_of_lt_of_le (shortens opened read) (Nat.lt_succ_iff.mp enough)
      | false =>
          have unfolded : Reading.repeatWhile opens round (fuel + 1) value tokens =
              .ok (value, tokens) := if_neg (by simp [opened])
          rw [unfolded]
          exact Settled.ok _

/-- The rule is never cut off, and what it leaves is shorter than a limit. -/
structure Ends (limit : Nat) (result : Except ReadFailure (α × List τ)) : Prop where
  settled : Settled result
  shorter : ∀ {value rest}, result = .ok (value, rest) → rest.length < limit

section Ends

variable {limit : Nat}

theorem Ends.ok (value : α) {rest : List τ} (shorter : rest.length < limit) :
    Ends limit (.ok (value, rest)) := by
  refine ⟨Settled.ok _, ?_⟩
  intro other left same
  cases same
  exact shorter

theorem Ends.failed {failure : ReadFailure} (other : failure ≠ .depthExceeded) :
    Ends (α := α) (τ := τ) limit (.error failure) := by
  constructor
  · intro same
    exact other (Except.error.inj same)
  · intro value rest same
    cases same

theorem Ends.bind {step : Except ReadFailure (α × List τ)}
    {next : α × List τ → Except ReadFailure (β × List τ)} (first : Ends limit step)
    (later : ∀ value rest, rest.length < limit → Ends limit (next (value, rest))) :
    Ends limit (step >>= next) := by
  constructor
  · apply first.settled.bind
    intro read stepped
    exact (later read.1 read.2 (first.shorter stepped)).settled
  · intro value rest returned
    obtain ⟨read, stepped, ended⟩ := bind_eq_ok.mp returned
    exact (later read.1 read.2 (first.shorter stepped)).shorter ended

/-- A step that reads nothing. -/
theorem Ends.after {step : Except ReadFailure β}
    {next : β → Except ReadFailure (α × List τ)} (settled : Settled step)
    (later : ∀ value, Ends limit (next value)) : Ends limit (step >>= next) := by
  constructor
  · exact settled.bind (fun value _ => (later value).settled)
  · intro result rest returned
    obtain ⟨value, _, ended⟩ := bind_eq_ok.mp returned
    exact (later value).shorter ended

theorem Ends.of_suffix {result : Except ReadFailure (α × List τ)} {tokens : List τ}
    (short : tokens.length < limit) (settled : Settled result)
    (suffix : ∀ {value rest}, result = .ok (value, rest) → rest <:+ tokens) :
    Ends limit result :=
  ⟨settled, fun returned => Nat.lt_of_le_of_lt (suffix returned).length_le short⟩

theorem Ends.consumeToken (expected : τ → Bool) {tokens : List τ}
    (short : tokens.length ≤ limit) : Ends limit (consumeToken expected tokens) := by
  refine ⟨Settled.consumeToken expected tokens, ?_⟩
  intro token rest consumed
  obtain ⟨rfl, _⟩ := consumeToken_eq_ok.mp consumed
  exact short

theorem Ends.optionalPart {opens : τ → Bool} {rule : List τ → Except ReadFailure (α × List τ)}
    {current : Option α} {tokens : List τ} (short : tokens.length < limit)
    (ends : Ends limit (rule tokens)) : Ends limit (optionalPart opens rule current tokens) := by
  refine ⟨Settled.optionalPart (fun _ => ends.settled), ?_⟩
  intro value rest returned
  rcases optionalPart_eq_ok.mp returned with ⟨_, found, read, _⟩ | ⟨_, _, rfl⟩
  · exact ends.shorter read
  · exact short

theorem Ends.repeatWhile {opens : τ → Bool}
    {round : α → List τ → Except ReadFailure (α × List τ)}
    (ends : ∀ value tokens, Ends tokens.length (round value tokens)) (value : α)
    {tokens : List τ} (short : tokens.length < limit) :
    Ends limit (repeatWhile opens round (tokens.length + 1) value tokens) := by
  constructor
  · apply Settled.repeatWhile
    · exact fun value tokens _ => (ends value tokens).settled
    · exact fun _ read => (ends _ _).shorter read
    · exact Nat.lt_succ_self _
  · intro result rest returned
    apply (@repeatWhile_induction _ _ _ _ (fun _ left => left.length < limit) ?_ _ _ _ _ _ short
      returned).1
    exact fun before _ read => Nat.lt_trans ((ends _ _).shorter read) before

end Ends

end Rules

end Reading
