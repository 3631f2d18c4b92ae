import Symbolrt.Lib.Reading

/-!
# Rules and the texts they read

A rule reads the texts of a grammar: it reads a written text up to what may stand
behind it and returns what the text means, and what it reads is a written text.  The
rules put together from others read the texts put together from theirs.
-/

namespace Reading

section Grammar

variable {τ α β T S : Type}

/-- The rule reads the texts written like this, each with its meaning, in front of what
a text stops at. -/
structure Reads (rule : List τ → Except ReadFailure (α × List τ)) (write : T → List τ)
    (meaning : T → Except ReadFailure α) (stops : T → List τ → Prop) : Prop where
  ofWritten : ∀ text {rest}, stops text rest →
    rule (write text ++ rest) = (meaning text).map (fun value => (value, rest))
  isWritten : ∀ {tokens value rest}, rule tokens = .ok (value, rest) →
    ∃ text, tokens = write text ++ rest ∧ stops text rest

section Rules

variable {rule : List τ → Except ReadFailure (α × List τ)} {write : T → List τ}
  {meaning : T → Except ReadFailure α} {stops : T → List τ → Prop} {tokens rest : List τ}

theorem Reads.eq_ok_iff (reads : Reads rule write meaning stops) {value : α} :
    rule tokens = .ok (value, rest) ↔
      ∃ text, tokens = write text ++ rest ∧ stops text rest ∧ meaning text = .ok value := by
  constructor
  · intro returned
    obtain ⟨text, rfl, stop⟩ := reads.isWritten returned
    refine ⟨text, rfl, stop, ?_⟩
    rw [reads.ofWritten text stop] at returned
    cases means : meaning text with
    | ok meant =>
        rw [means] at returned
        cases returned
        rfl
    | error failure =>
        rw [means] at returned
        cases returned
  · rintro ⟨text, rfl, stop, means⟩
    rw [reads.ofWritten text stop, means]
    rfl

/-- The texts may be given in another form. -/
theorem Reads.ofTexts {others : S → List τ} {otherMeaning : S → Except ReadFailure α}
    {otherStops : S → List τ → Prop} (reads : Reads rule write meaning stops) (parts : S → T)
    (onto : Function.Surjective parts) (written : ∀ text, others text = write (parts text))
    (means : ∀ text, otherMeaning text = meaning (parts text))
    (stop : ∀ text rest, otherStops text rest ↔ stops (parts text) rest) :
    Reads rule others otherMeaning otherStops := by
  constructor
  · intro text rest stopped
    rw [written, means]
    exact reads.ofWritten (parts text) ((stop text rest).mp stopped)
  · intro tokens value rest returned
    obtain ⟨found, whole, stopped⟩ := reads.isWritten returned
    obtain ⟨text, rfl⟩ := onto found
    exact ⟨text, whole.trans (by rw [written]), (stop text rest).mpr stopped⟩

/-- A rule that reads nothing. -/
theorem Reads.done (value : α) :
    Reads (fun tokens : List τ => pure (value, tokens)) (fun _ : Unit => [])
      (fun _ => .ok value) (fun _ _ => True) := by
  constructor
  · exact fun _ _ _ => rfl
  · intro tokens read rest returned
    cases returned
    exact ⟨(), rfl, trivial⟩

/-- A token of an expected kind. -/
theorem Reads.token (expected : τ → Bool) :
    Reads (consumeToken expected) (fun token : {token : τ // expected token = true} => [token.1])
      (fun token => .ok token.1) (fun _ _ => True) := by
  constructor
  · intro token rest _
    exact consumeToken_eq_ok.mpr ⟨rfl, token.2⟩
  · intro tokens token rest returned
    obtain ⟨whole, isExpected⟩ := consumeToken_eq_ok.mp returned
    exact ⟨⟨token, isExpected⟩, whole, trivial⟩

/-- A rule and a rule that goes on with its value.  The first text must stop where the
second begins. -/
theorem Reads.sequence {next : α × List τ → Except ReadFailure (β × List τ)} {later : S → List τ}
    {laterMeaning : α → S → Except ReadFailure β} {laterStops : S → List τ → Prop}
    (first : Reads rule write meaning stops)
    (second : ∀ value, Reads (fun tokens => next (value, tokens)) later (laterMeaning value)
      laterStops) :
    Reads (fun tokens => rule tokens >>= next) (fun text : T × S => write text.1 ++ later text.2)
      (fun text => meaning text.1 >>= fun value => laterMeaning value text.2)
      (fun text rest => stops text.1 (later text.2 ++ rest) ∧ laterStops text.2 rest) := by
  constructor
  · rintro ⟨text, other⟩ rest ⟨stop, laterStop⟩
    rw [List.append_assoc, first.ofWritten text stop]
    cases meaning text with
    | error failure => rfl
    | ok value => exact (second value).ofWritten other laterStop
  · intro tokens value rest returned
    obtain ⟨⟨middle, between⟩, read, ended⟩ := bind_eq_ok.mp returned
    obtain ⟨text, rfl, stop⟩ := first.isWritten read
    obtain ⟨other, rfl, laterStop⟩ := (second middle).isWritten ended
    exact ⟨(text, other), (List.append_assoc _ _ _).symm, stop, laterStop⟩

/-- The first rule stops wherever the second may begin. -/
theorem Reads.bind {next : α × List τ → Except ReadFailure (β × List τ)} {later : S → List τ}
    {laterMeaning : α → S → Except ReadFailure β} {laterStops : S → List τ → Prop}
    (first : Reads rule write meaning stops)
    (second : ∀ value, Reads (fun tokens => next (value, tokens)) later (laterMeaning value)
      laterStops)
    (follows : ∀ text other rest, laterStops other rest → stops text (later other ++ rest)) :
    Reads (fun tokens => rule tokens >>= next) (fun text : T × S => write text.1 ++ later text.2)
      (fun text => meaning text.1 >>= fun value => laterMeaning value text.2)
      (fun text => laterStops text.2) :=
  (first.sequence second).ofTexts id Function.surjective_id (fun _ => rfl) (fun _ => rfl)
    (fun text rest => (and_iff_right_of_imp (follows text.1 text.2 rest)).symm)

/-- A rule that may stop anywhere and a rule that goes on with its value. -/
theorem Reads.andThen {next : α × List τ → Except ReadFailure (β × List τ)} {later : S → List τ}
    {laterMeaning : α → S → Except ReadFailure β} {laterStops : S → List τ → Prop}
    (first : Reads rule write meaning (fun _ _ => True))
    (second : ∀ value, Reads (fun tokens => next (value, tokens)) later (laterMeaning value)
      laterStops) :
    Reads (fun tokens => rule tokens >>= next) (fun text : T × S => write text.1 ++ later text.2)
      (fun text => meaning text.1 >>= fun value => laterMeaning value text.2)
      (fun text => laterStops text.2) :=
  first.bind second (fun _ _ _ _ => trivial)

/-- A rule whose value is put to use at the end, which may throw. -/
theorem Reads.ends {next : α × List τ → Except ReadFailure (β × List τ)}
    (reads : Reads rule write meaning stops) (finish : α → Except ReadFailure β)
    (finishes : ∀ value rest,
      next (value, rest) = (finish value).map (fun result => (result, rest))) :
    Reads (fun tokens => rule tokens >>= next) write (fun text => meaning text >>= finish)
      stops := by
  constructor
  · intro text rest stop
    rw [reads.ofWritten text stop]
    cases meaning text with
    | error failure => rfl
    | ok value => exact finishes value rest
  · intro tokens value rest returned
    obtain ⟨⟨middle, between⟩, read, ended⟩ := bind_eq_ok.mp returned
    rw [finishes] at ended
    cases finished : finish middle with
    | error failure =>
        rw [finished] at ended
        cases ended
    | ok result =>
        rw [finished] at ended
        cases ended
        exact reads.isWritten read

/-- A rule whose value is changed at the end. -/
theorem Reads.returns {next : α × List τ → Except ReadFailure (β × List τ)}
    (reads : Reads rule write meaning stops) (change : α → β)
    (changes : ∀ value rest, next (value, rest) = pure (change value, rest)) :
    Reads (fun tokens => rule tokens >>= next) write (fun text => (meaning text).map change)
      stops := by
  refine (reads.ends (fun value => .ok (change value)) changes).ofTexts id Function.surjective_id
    (fun _ => rfl) ?_ (fun _ _ => Iff.rfl)
  intro text
  rw [id]
  cases meaning text with
  | error failure => rfl
  | ok value => rfl

/-- What an optional text means where a value is held already. -/
def optionalMeaning (meaning : T → Except ReadFailure α) (current : Option α) :
    Option T → Except ReadFailure (Option α)
  | none => .ok current
  | some text => (meaning text).map some

/-- An optional text is not there in front of what would open it. -/
def optionalStops (opens : τ → Bool) (stops : T → List τ → Prop) : Option T → List τ → Prop
  | none, rest => nextIs opens rest = false
  | some text, rest => stops text rest

theorem Reads.optionalPart {opens : τ → Bool} (reads : Reads rule write meaning stops)
    (opened : ∀ text rest, nextIs opens (write text ++ rest) = true) (current : Option α) :
    Reads (optionalPart opens rule current) (fun text => text.elim [] write)
      (optionalMeaning meaning current) (optionalStops opens stops) := by
  constructor
  · intro text rest stop
    cases text with
    | none => exact optionalPart_eq_ok.mpr (.inr ⟨stop, rfl, rfl⟩)
    | some text =>
        have unfolded : Reading.optionalPart opens rule current (write text ++ rest) =
            (rule (write text ++ rest) >>= fun read => pure (some read.1, read.2)) :=
          if_pos (opened text rest)
        refine unfolded.trans ?_
        rw [reads.ofWritten text stop, optionalMeaning]
        cases meaning text with
        | ok value => rfl
        | error failure => rfl
  · intro tokens value rest returned
    rcases optionalPart_eq_ok.mp returned with ⟨_, read, found, _⟩ | ⟨closed, _, rfl⟩
    · obtain ⟨text, whole, stop⟩ := reads.isWritten found
      exact ⟨some text, whole, stop⟩
    · exact ⟨none, rfl, closed⟩

theorem optionalMeaning_ok (meant : T → α) (current : Option α) (text : Option T) :
    optionalMeaning (fun text => .ok (meant text)) current text =
      .ok ((text.map meant).or current) := by
  cases text with
  | none => rfl
  | some text => rfl

/-- The next token decides between two rules. -/
theorem Reads.choose {otherRule : List τ → Except ReadFailure (α × List τ)} {others : S → List τ}
    {otherMeaning : S → Except ReadFailure α} {otherStops : S → List τ → Prop} {opens : τ → Bool}
    (first : Reads rule write meaning stops)
    (second : Reads otherRule others otherMeaning otherStops)
    (opened : ∀ text rest, nextIs opens (write text ++ rest) = true)
    (closed : ∀ text rest, nextIs opens (others text ++ rest) = false) :
    Reads (fun tokens => if nextIs opens tokens then rule tokens else otherRule tokens)
      (Sum.elim write others) (Sum.elim meaning otherMeaning) (Sum.elim stops otherStops) := by
  constructor
  · intro text rest stop
    cases text with
    | inl text => exact (if_pos (opened text rest)).trans (first.ofWritten text stop)
    | inr text =>
        refine (if_neg ?_).trans (second.ofWritten text stop)
        exact fun opened => Bool.false_ne_true ((closed text rest).symm.trans opened)
  · intro tokens value rest returned
    split at returned
    · obtain ⟨text, whole, stop⟩ := first.isWritten returned
      exact ⟨.inl text, whole, stop⟩
    · obtain ⟨text, whole, stop⟩ := second.isWritten returned
      exact ⟨.inr text, whole, stop⟩

/-- A rule that is tried if the next token opens its texts. -/
theorem Reads.guarded {opens : τ → Bool} {failure : ReadFailure}
    (reads : Reads rule write meaning stops)
    (opened : ∀ text rest, nextIs opens (write text ++ rest) = true) :
    Reads (fun tokens => if nextIs opens tokens then rule tokens else .error failure) write
      meaning stops := by
  constructor
  · exact fun text rest stop => (if_pos (opened text rest)).trans (reads.ofWritten text stop)
  · intro tokens value rest returned
    split at returned
    · exact reads.isWritten returned
    · cases returned

end Rules

/-- The first of some texts and the others. -/
def firstAndOthers : List T → Option (T × List T)
  | [] => none
  | first :: others => some (first, others)

theorem firstAndOthers_surjective : Function.Surjective (firstAndOthers (T := T)) := by
  rintro (_ | ⟨first, others⟩)
  · exact ⟨[], rfl⟩
  · exact ⟨first :: others, rfl⟩

section Loops

variable {round : α → List τ → Except ReadFailure (α × List τ)} {write : T → List τ}
  {meaning : α → T → Except ReadFailure α} {stop : List τ → Prop} {opens : τ → Bool}

/-- Repeated texts end where no other is opened. -/
def repeatStops (opens : τ → Bool) (stop : List τ → Prop) (texts : List T) (rest : List τ) :
    Prop :=
  nextIs opens rest = false ∧ (texts ≠ [] → stop rest)

theorem repeatWhile_written (reads : ∀ value, Reads (round value) write (meaning value)
      (fun _ => stop))
    (opened : ∀ text rest, nextIs opens (write text ++ rest) = true)
    (follows : ∀ text rest, stop (write text ++ rest)) {texts : List T} {rest : List τ}
    (stopped : repeatStops opens stop texts rest) {fuel : Nat} (value : α)
    (enough : (texts.flatMap write ++ rest).length < fuel) :
    repeatWhile opens round fuel value (texts.flatMap write ++ rest) =
      (texts.foldlM meaning value).map (fun value => (value, rest)) := by
  induction texts generalizing fuel value with
  | nil =>
      cases fuel with
      | zero => exact absurd enough (Nat.not_lt_zero _)
      | succ fuel => exact if_neg (by simp [stopped.1])
  | cons text texts induction =>
      cases fuel with
      | zero => exact absurd enough (Nat.not_lt_zero _)
      | succ fuel =>
          rw [List.flatMap_cons, List.append_assoc] at enough ⊢
          have unfolded : repeatWhile opens round (fuel + 1) value
              (write text ++ (texts.flatMap write ++ rest)) =
              (round value (write text ++ (texts.flatMap write ++ rest)) >>= fun read =>
                repeatWhile opens round fuel read.1 read.2) := if_pos (opened text _)
          have stopsHere : stop (texts.flatMap write ++ rest) := by
            cases texts with
            | nil => exact stopped.2 (List.cons_ne_nil _ _)
            | cons other texts =>
                rw [List.flatMap_cons, List.append_assoc]
                exact follows other _
          have shorter : (texts.flatMap write ++ rest).length < fuel := by
            obtain ⟨token, tail, whole, _⟩ := nextIs_eq_true.mp (opened text [])
            have counted := congrArg List.length whole
            simp only [List.length_append, List.length_nil, List.length_cons] at counted enough ⊢
            omega
          have later : repeatStops opens stop texts rest :=
            ⟨stopped.1, fun _ => stopped.2 (List.cons_ne_nil _ _)⟩
          rw [unfolded, (reads value).ofWritten text stopsHere, List.foldlM_cons]
          cases meaning value text with
          | error failure => rfl
          | ok next => exact induction later next shorter

theorem repeatWhile_isWritten (reads : ∀ value, Reads (round value) write (meaning value)
      (fun _ => stop)) (fuel : Nat) {value result : α} {tokens rest : List τ}
    (returned : repeatWhile opens round fuel value tokens = .ok (result, rest)) :
    ∃ texts : List T, tokens = texts.flatMap write ++ rest ∧ repeatStops opens stop texts rest := by
  induction fuel generalizing value tokens with
  | zero => cases returned
  | succ fuel induction =>
      cases opened : nextIs opens tokens with
      | true =>
          have unfolded : repeatWhile opens round (fuel + 1) value tokens =
              (round value tokens >>= fun read => repeatWhile opens round fuel read.1 read.2) :=
            if_pos opened
          rw [unfolded, bind_eq_ok] at returned
          obtain ⟨⟨next, left⟩, read, later⟩ := returned
          obtain ⟨text, rfl, stopsHere⟩ := (reads value).isWritten read
          obtain ⟨texts, rfl, closed, stopsLater⟩ := induction later
          refine ⟨text :: texts, ?_, closed, ?_⟩
          · rw [List.flatMap_cons, List.append_assoc]
          · intro _
            cases texts with
            | nil => exact stopsHere
            | cons other texts => exact stopsLater (List.cons_ne_nil _ _)
      | false =>
          have unfolded : repeatWhile opens round (fuel + 1) value tokens =
              .ok (value, tokens) := if_neg (by simp [opened])
          rw [unfolded] at returned
          cases returned
          exact ⟨[], rfl, opened, fun nonempty => absurd rfl nonempty⟩

theorem Reads.repeatWhile (reads : ∀ value, Reads (round value) write (meaning value)
      (fun _ => stop))
    (opened : ∀ text rest, nextIs opens (write text ++ rest) = true)
    (follows : ∀ text rest, stop (write text ++ rest)) (value : α) :
    Reads (fun tokens => repeatWhile opens round (tokens.length + 1) value tokens)
      (List.flatMap write) (List.foldlM meaning value) (repeatStops opens stop) := by
  constructor
  · intro texts rest stopped
    exact repeatWhile_written reads opened follows stopped value (Nat.lt_succ_self _)
  · exact fun returned => repeatWhile_isWritten reads _ returned

/-- A loop whose rounds do not throw. -/
theorem Reads.repeatAll {add : α → T → α}
    (reads : ∀ value, Reads (round value) write (fun text => .ok (add value text))
      (fun _ => stop))
    (opened : ∀ text rest, nextIs opens (write text ++ rest) = true)
    (follows : ∀ text rest, stop (write text ++ rest)) (value : α) :
    Reads (fun tokens => Reading.repeatWhile opens round (tokens.length + 1) value tokens)
      (List.flatMap write) (fun texts => .ok (texts.foldl add value)) (repeatStops opens stop) := by
  refine (Reads.repeatWhile reads opened follows value).ofTexts id Function.surjective_id
    (fun _ => rfl) ?_ (fun _ _ => Iff.rfl)
  intro texts
  exact (List.foldlM_pure (m := Except ReadFailure) (f := add)).symm

end Loops

end Grammar

end Reading
