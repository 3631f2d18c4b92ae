import Symbolrt.Compiler.Declaration
import Symbolrt.Compiler.SystemRule
import Symbolrt.Lib.LastEntry

/-!
# The sync clauses of a text

A sync clause with parentheses can be found in a text without parsing it.  The
parameter table that the parser leaves holds for each declared gate the list of the
last such clause of the whole text, whatever processes stand in it.
-/

namespace Symbolrt

open Reading

/-- The identifiers among the tokens. -/
def identifiersOf (tokens : List Token) : List String :=
  (tokens.filter Token.isIdentifierToken).map Token.image

/-- One more name of a parameter, unless it is there already. -/
def addName (names : List String) (name : String) : List String :=
  if name ∈ names then names else names ++ [name]

def notClosing (token : Token) : Bool := !token.is .closeParTk

/-- The names in parentheses behind the name of an action, if there are
parentheses. -/
def parenthesised (tokens : List Token) : Option (List String) :=
  match if nextIs isActionDirection tokens then tokens.tail else tokens with
  | .keyword .openParTk :: body =>
      some ((identifiersOf (body.takeWhile notClosing)).foldl addName [])
  | _ => none

/-- The sync clause that starts with the first token. -/
def syncClause : List Token → Option (String × List String)
  | .keyword .synkTk :: .identifier name _ :: after =>
      (parenthesised after).map (fun parameters => (name, parameters))
  | _ => none

/-- The names and parameter lists of the sync clauses with parentheses. -/
def syncClauses : List Token → List (String × List String)
  | [] => []
  | token :: rest => (syncClause (token :: rest)).toList ++ syncClauses rest

section Passing

variable {tokens passed rest : List Token} {token : Token}

theorem syncClauses_skip (different : token ≠ .keyword .synkTk) :
    syncClauses (token :: rest) = syncClauses rest := by
  have missing : syncClause (token :: rest) = none := by
    rw [syncClause.eq_def]
    split
    · rename_i head
      exact absurd (List.cons.inj head).1 different
    · rfl
  rw [syncClauses, missing]
  rfl

theorem Inside.syncClauses_eq (inside : Inside tokens rest) :
    syncClauses tokens = syncClauses rest := by
  obtain ⟨passed, rfl, free⟩ := inside
  induction passed with
  | nil => rfl
  | cons token passed induction =>
      have different : token ≠ .keyword .synkTk := by
        rintro rfl
        exact absurd (free _ List.mem_cons_self) (by decide)
      rw [List.cons_append, syncClauses_skip different]
      exact induction (fun token member => free token (List.mem_cons_of_mem _ member))

theorem Inside.suffix (inside : Inside tokens rest) : rest <:+ tokens := Within.suffix inside

end Passing

/-- The names were read with tokens of a kind. -/
def ReadsNames (kind : Token → Bool) (names : List String) (tokens rest : List Token) : Prop :=
  ∃ passed, Passes kind tokens passed rest ∧ identifiersOf passed = names

section Names

variable {kind : Token → Bool} {names others : List String} {tokens middle rest : List Token}

theorem ReadsNames.none : ReadsNames kind [] tokens tokens := ⟨[], Passes.none, rfl⟩

theorem ReadsNames.append (first : ReadsNames kind names tokens middle)
    (second : ReadsNames kind others middle rest) :
    ReadsNames kind (names ++ others) tokens rest := by
  obtain ⟨passed, passes, read⟩ := first
  obtain ⟨later, further, also⟩ := second
  refine ⟨passed ++ later, passes.append further, ?_⟩
  rw [identifiersOf, List.filter_append, List.map_append, ← read, ← also]
  rfl

theorem ReadsNames.identifier {aux : Token}
    (consumed : consumeToken Token.isIdentifierToken tokens = .ok (aux, rest))
    (keeps : kind aux = true) : ReadsNames kind [aux.image] tokens rest := by
  obtain ⟨rfl, identified⟩ := consumeToken_eq_ok.mp consumed
  cases aux with
  | keyword word => cases identified
  | integer numeral isNumeral => cases identified
  | identifier name isIdentifier => exact ⟨_, Passes.none.cons keeps, rfl⟩

theorem ReadsNames.keyword {word : Keyword} {aux : Token}
    (consumed : consumeToken (Token.is word) tokens = .ok (aux, rest))
    (keeps : kind (.keyword word) = true) : ReadsNames kind [] tokens rest := by
  obtain ⟨rfl, isWord⟩ := consumeToken_eq_ok.mp consumed
  rw [eq_keyword_of_is isWord]
  exact ⟨_, Passes.none.cons keeps, rfl⟩

theorem ReadsNames.within (reads : ReadsNames kind names tokens rest) :
    Within kind tokens rest := by
  obtain ⟨passed, passes, _⟩ := reads
  exact ⟨passed, passes⟩

theorem ReadsNames.upTo {token : Token} (reads : ReadsNames kind names tokens (token :: rest))
    (stops : kind token = false) : identifiersOf (tokens.takeWhile kind) = names := by
  obtain ⟨passed, ⟨rfl, free⟩, read⟩ := reads
  rw [List.takeWhile_append_of_pos free, List.takeWhile_cons_of_neg (by simp [stops]),
    List.append_nil]
  exact read

theorem notClosing_of_isIdentifierToken {token : Token}
    (identified : token.isIdentifierToken = true) : notClosing token = true := by
  cases token with
  | keyword word => cases identified
  | integer numeral isNumeral => cases identified
  | identifier name isIdentifier => rfl

end Names

section Actions

variable {act result : AbstractAction} {tables later : TranslationUnit}
  {tokens rest : List Token}

theorem addParameters (names : List String) (act : AbstractAction) :
    names.foldl (fun act name => act.addParameter name) act =
      { act with parameters := names.foldl addName act.parameters } := by
  induction names generalizing act with
  | nil => rfl
  | cons name names induction =>
      have added : act.addParameter name =
          { act with parameters := addName act.parameters name } := by
        rw [AbstractAction.addParameter, addName]
        split
        · rfl
        · rfl
      rw [List.foldl_cons, List.foldl_cons, induction, added]

/-- An entry of the parameter table. -/
def enterClause (types : AList (fun _ : String => List DataType)) :
    AList (fun _ : String => List String) → String × List String →
      AList (fun _ : String => List String) :=
  LastEntry.enter (fun name => name ∈ types)

theorem enterParameters_eq (act : AbstractAction) (tables : TranslationUnit) :
    tables.enterParameters act = { tables with
      paramTable := enterClause tables.typeTable tables.paramTable
        (act.identifier, act.parameters) } := by
  rw [TranslationUnit.enterParameters, enterClause, LastEntry.enter]
  split
  · rfl
  · rfl

/-- The names between the parentheses, each added to the action. -/
theorem listedNames {value : AbstractAction}
    (read : (do
      let (aux, tokens) ← consumeToken Token.isIdentifierToken tokens
      repeatWhile (Token.is .comma)
        (fun act tokens => do
          let (_, tokens) ← consumeToken (Token.is .comma) tokens
          let (aux, tokens) ← consumeToken Token.isIdentifierToken tokens
          return (act.addParameter aux.image, tokens))
        (tokens.length + 1) (act.addParameter aux.image) tokens) = Except.ok (value, rest)) :
    ∃ names, ReadsNames notClosing names tokens rest ∧
      value = names.foldl (fun act name => act.addParameter name) act := by
  obtain ⟨⟨aux, afterFirst⟩, firstRead, looped⟩ := Reading.bind_eq_ok.mp read
  have readsIdentifier : ∀ {aux : Token} {tokens rest : List Token},
      consumeToken Token.isIdentifierToken tokens = .ok (aux, rest) →
        ReadsNames notClosing [aux.image] tokens rest :=
    fun consumed => ReadsNames.identifier consumed
      (notClosing_of_isIdentifierToken (consumeToken_eq_ok.mp consumed).2)
  let property : AbstractAction → List Token → Prop := fun current left =>
    ∃ names, ReadsNames notClosing names tokens left ∧
      current = names.foldl (fun act name => act.addParameter name) act
  have started : property (act.addParameter aux.image) afterFirst :=
    ⟨[aux.image], readsIdentifier firstRead, rfl⟩
  apply (@repeatWhile_induction _ _ _ _ property ?_ _ _ _ _ _ started looped).1
  rintro current next left after ⟨names, reads, rfl⟩ _ round
  obtain ⟨⟨comma, afterComma⟩, commaRead, round⟩ := Reading.bind_eq_ok.mp round
  obtain ⟨⟨aux, afterNext⟩, nextRead, round⟩ := Reading.bind_eq_ok.mp round
  cases round
  refine ⟨names ++ [aux.image], ?_, ?_⟩
  · exact reads.append ((ReadsNames.keyword commaRead rfl).append (readsIdentifier nextRead))
  · rw [List.foldl_append]
    rfl

theorem listed_enters {parameters : Option AbstractAction} (unlisted : act.parameters = [])
    (listed : optionalPart Token.isIdentifierToken
      (fun tokens => do
        let (aux, tokens) ← consumeToken Token.isIdentifierToken tokens
        repeatWhile (Token.is .comma)
          (fun act tokens => do
            let (_, tokens) ← consumeToken (Token.is .comma) tokens
            let (aux, tokens) ← consumeToken Token.isIdentifierToken tokens
            return (act.addParameter aux.image, tokens))
          (tokens.length + 1) (act.addParameter aux.image) tokens)
      none tokens = Except.ok (parameters, rest)) :
    ∃ names, ReadsNames notClosing names tokens rest ∧
      tables.enterParameters (parameters.getD act) = { tables with
        paramTable := enterClause tables.typeTable tables.paramTable
          (act.identifier, names.foldl addName []) } := by
  obtain ⟨names, reads, all⟩ : ∃ names, ReadsNames notClosing names tokens rest ∧
      parameters.getD act = names.foldl (fun act name => act.addParameter name) act := by
    rcases optionalPart_eq_ok.mp listed with ⟨_, value, read, rfl⟩ | ⟨_, rfl, rfl⟩
    · exact listedNames read
    · exact ⟨[], ReadsNames.none, rfl⟩
  refine ⟨names, reads, ?_⟩
  rw [all, addParameters, enterParameters_eq, unlisted]

/-- The rule reads the parentheses behind the name and enters what stands in
them. -/
theorem otherActionRule_enters (unlisted : act.parameters = [])
    (returned : otherActionRule tables act tokens = .ok ((result, later), rest)) :
    ∃ parameters, parenthesised tokens = some parameters ∧
      later = { tables with
        paramTable := enterClause tables.typeTable tables.paramTable
          (act.identifier, parameters) } := by
  obtain ⟨⟨direction, afterDirection⟩, directed, returned⟩ := Reading.bind_eq_ok.mp returned
  obtain ⟨⟨opened, afterOpen⟩, openRead, returned⟩ := Reading.bind_eq_ok.mp returned
  obtain ⟨⟨parameters, afterParameters⟩, listed, returned⟩ := Reading.bind_eq_ok.mp returned
  obtain ⟨⟨closed, afterClose⟩, closeRead, returned⟩ := Reading.bind_eq_ok.mp returned
  cases returned
  obtain ⟨rfl, isClose⟩ := consumeToken_eq_ok.mp closeRead
  obtain ⟨rfl, isOpen⟩ := consumeToken_eq_ok.mp openRead
  rw [eq_keyword_of_is isClose] at listed
  rw [eq_keyword_of_is isOpen] at directed
  have behind : (if nextIs isActionDirection tokens then tokens.tail else tokens) =
      .keyword .openParTk :: afterOpen := by
    rcases optionalPart_eq_ok.mp directed with ⟨isNext, value, read, _⟩ | ⟨notNext, _, same⟩
    · obtain ⟨rfl, _⟩ := consumeToken_eq_ok.mp read
      rw [if_pos isNext]
      rfl
    · rw [if_neg (by simp [notNext]), same]
  have found : ∀ {names : List String},
      ReadsNames notClosing names afterOpen (.keyword .closeParTk :: rest) →
        parenthesised tokens = some (names.foldl addName []) := by
    intro names reads
    rw [parenthesised, behind]
    exact congrArg (fun names => some (names.foldl addName [])) (reads.upTo rfl)
  cases direction with
  | none =>
      obtain ⟨names, reads, entered⟩ := @listed_enters act tables _ _ _ unlisted listed
      exact ⟨_, found reads, entered⟩
  | some token =>
      let typed := act.setType (if token.is .inActTk then .input else .output)
      obtain ⟨names, reads, entered⟩ := @listed_enters typed tables _ _ _ unlisted listed
      exact ⟨_, found reads, entered⟩

end Actions

/-- The clauses passed over are entered in the parameter table in their order, and
the gates stay as they are. -/
structure EntersClauses (tables : TranslationUnit) (tokens : List Token)
    (later : TranslationUnit) (rest : List Token) : Prop where
  clauses : ∃ entered, syncClauses tokens = entered ++ syncClauses rest ∧
    later.paramTable = entered.foldl (enterClause tables.typeTable) tables.paramTable
  typeTable : later.typeTable = tables.typeTable
  suffix : rest <:+ tokens

section Entering

variable {tables middleTables later : TranslationUnit} {tokens middle rest : List Token}
  {token : Token}

theorem EntersClauses.refl : EntersClauses tables tokens tables tokens :=
  ⟨⟨[], rfl, rfl⟩, rfl, List.suffix_refl tokens⟩

theorem EntersClauses.trans (first : EntersClauses tables tokens middleTables middle)
    (second : EntersClauses middleTables middle later rest) :
    EntersClauses tables tokens later rest := by
  obtain ⟨entered, split, table⟩ := first.clauses
  obtain ⟨others, further, lastTable⟩ := second.clauses
  refine ⟨⟨entered ++ others, ?_, ?_⟩, second.typeTable.trans first.typeTable,
    second.suffix.trans first.suffix⟩
  · rw [split, further, List.append_assoc]
  · rw [List.foldl_append, lastTable, first.typeTable, table]

theorem EntersClauses.none (same : syncClauses tokens = syncClauses rest)
    (suffix : rest <:+ tokens) : EntersClauses tables tokens tables rest :=
  ⟨⟨[], same, rfl⟩, rfl, suffix⟩

theorem Inside.enters (inside : Inside tokens rest) : EntersClauses tables tokens tables rest :=
  EntersClauses.none inside.syncClauses_eq inside.suffix

theorem enters_of_consumed {expected : Token → Bool}
    (consumed : consumeToken expected tokens = .ok (token, rest))
    (otherwise : expected (.keyword .synkTk) = false) :
    EntersClauses tables tokens tables rest := by
  obtain ⟨rfl, isExpected⟩ := consumeToken_eq_ok.mp consumed
  apply EntersClauses.none ?_ (List.suffix_cons token rest)
  apply syncClauses_skip
  rintro rfl
  rw [otherwise] at isExpected
  cases isExpected

theorem enters_of_clause {α : Type} {word : Keyword}
    {rule : List Token → Except ReadFailure (α × List Token)} {fits : α → List Token → Prop}
    (reads : ReadsClause word rule fits) (different : word ≠ .synkTk)
    {current result : Option α}
    (returned : optionalPart (Token.is word) rule current tokens = .ok (result, rest)) :
    EntersClauses tables tokens tables rest := by
  rcases optionalPart_eq_ok.mp returned with ⟨_, value, read, _⟩ | ⟨_, _, same⟩
  · obtain ⟨body, rfl, free, _⟩ := reads read
    have inside : Inside (body ++ rest) rest := ⟨body, rfl, free⟩
    apply EntersClauses.none ?_ (inside.suffix.trans (List.suffix_cons _ _))
    rw [syncClauses_skip (fun same => different (Token.keyword.inj same))]
    exact inside.syncClauses_eq
  · rw [same]
    exact EntersClauses.refl

theorem parenthesised_of_not_opened (notOpened : nextIs opensOtherAction tokens = false) :
    parenthesised tokens = none := by
  cases tokens with
  | nil => rfl
  | cons token rest =>
      have neither : (isActionDirection token || token.is .openParTk) = false := notOpened
      obtain ⟨undirected, unopened⟩ := Bool.or_eq_false_iff.mp neither
      have stays : (if nextIs isActionDirection (token :: rest) then (token :: rest).tail
          else token :: rest) = token :: rest := if_neg (by simp [nextIs, undirected])
      rw [parenthesised, stays]
      split
      · rename_i head
        obtain ⟨rfl, _⟩ := List.cons.inj head
        cases unopened
      · rfl

theorem actionRule_enters {act : AbstractAction}
    (returned : actionRule tables tokens = .ok ((act, later), rest)) :
    EntersClauses tables tokens later rest := by
  obtain ⟨after, rfl, entered⟩ := exists_after_keyword returned
  obtain ⟨⟨aux, afterName⟩, nameRead, named⟩ := Reading.bind_eq_ok.mp entered
  obtain ⟨⟨other, afterOther⟩, otherRead, ended⟩ := Reading.bind_eq_ok.mp named
  have nameInside := inside_of_identifier nameRead
  have whole : Inside after afterOther :=
    nameInside.trans (inside_of_optionalPart otherRead otherActionRule_inside)
  have suffix : afterOther <:+ .keyword .synkTk :: after :=
    whole.suffix.trans (List.suffix_cons _ _)
  obtain ⟨rfl, identified⟩ := consumeToken_eq_ok.mp nameRead
  cases aux with
  | keyword word => cases identified
  | integer numeral isNumeral => cases identified
  | identifier name isIdentifier =>
      have here : syncClauses (.keyword .synkTk :: .identifier name isIdentifier :: afterName) =
          ((parenthesised afterName).map (fun parameters => (name, parameters))).toList ++
            syncClauses (.identifier name isIdentifier :: afterName) := rfl
      rcases optionalPart_eq_ok.mp otherRead with ⟨_, value, read, rfl⟩ | ⟨notOpened, rfl, rfl⟩
      · obtain ⟨parameters, found, table⟩ := otherActionRule_enters rfl read
        cases ended
        refine ⟨⟨[(name, parameters)], ?_, ?_⟩, ?_, suffix⟩
        · rw [here, found, whole.syncClauses_eq]
          rfl
        · have entered := congrArg TranslationUnit.paramTable table
          exact entered
        · have kept := congrArg TranslationUnit.typeTable table
          exact kept
      · cases ended
        apply EntersClauses.none ?_ suffix
        rw [here, parenthesised_of_not_opened notOpened, whole.syncClauses_eq]
        rfl

theorem transitionRule_enters {transition : AbstractTransition}
    (returned : transitionRule tables tokens = .ok ((transition, later), rest)) :
    EntersClauses tables tokens later rest := by
  obtain ⟨⟨opened, afterFrom⟩, fromRead, entered⟩ := Reading.bind_eq_ok.mp returned
  obtain ⟨⟨source, afterSource⟩, sourceRead, sourced⟩ := Reading.bind_eq_ok.mp entered
  obtain ⟨⟨clockExpr, afterWhen⟩, whenRead, clocked⟩ := Reading.bind_eq_ok.mp sourced
  obtain ⟨⟨dataExpr, afterIf⟩, ifRead, guarded⟩ := Reading.bind_eq_ok.mp clocked
  obtain ⟨⟨act, afterSynk⟩, synkRead, acted⟩ := Reading.bind_eq_ok.mp guarded
  obtain ⟨⟨assignments, afterDo⟩, doRead, assigned⟩ := Reading.bind_eq_ok.mp acted
  obtain ⟨⟨deadlineType, afterDeadline⟩, deadlineRead, timed⟩ := Reading.bind_eq_ok.mp assigned
  obtain ⟨⟨arrow, afterTo⟩, toRead, arrived⟩ := Reading.bind_eq_ok.mp timed
  obtain ⟨⟨destination, afterDestination⟩, destinationRead, reached⟩ :=
    Reading.bind_eq_ok.mp arrived
  obtain ⟨⟨semicolon, afterAll⟩, finishRead, finished⟩ := Reading.bind_eq_ok.mp reached
  have synced : EntersClauses tables afterIf ((act.map Prod.snd).getD tables) afterSynk := by
    rcases optionalPart_eq_ok.mp synkRead with ⟨_, value, read, rfl⟩ | ⟨_, rfl, rfl⟩
    · exact actionRule_enters read
    · exact EntersClauses.refl
  cases finished
  apply (enters_of_consumed fromRead rfl).trans
  apply (enters_of_consumed sourceRead rfl).trans
  apply (enters_of_clause clockGuardRule_readsClause (by decide) whenRead).trans
  apply (enters_of_clause dataGuardRule_readsClause (by decide) ifRead).trans
  apply synced.trans
  apply (enters_of_clause (statementRule_readsClause _) (by decide) doRead).trans
  apply (enters_of_clause deadlineClause_readsClause (by decide) deadlineRead).trans
  apply (enters_of_consumed toRead rfl).trans
  apply (enters_of_consumed destinationRead rfl).trans
  exact enters_of_consumed finishRead rfl

end Entering

section Sections

variable {α : Type} {value result : α} {tokens rest : List Token}

theorem repeatRule_related {related : α → List Token → α → List Token → Prop}
    {opens : Token → Bool} {rule : α → List Token → Except ReadFailure (α × List Token)}
    (chain : ∀ {first next last tokens middle rest}, related first tokens next middle →
      related next middle last rest → related first tokens last rest)
    (each : ∀ {value next tokens rest}, rule value tokens = .ok (next, rest) →
      related value tokens next rest)
    (returned : repeatRule opens rule value tokens = .ok (result, rest)) :
    related value tokens result rest := by
  obtain ⟨⟨first, afterFirst⟩, firstRead, looped⟩ := Reading.bind_eq_ok.mp returned
  apply (@repeatWhile_induction _ _ _ _ (related value tokens) ?_ _ _ _ _ _ (each firstRead)
    looped).1
  intro current next left after related _ round
  exact chain related (each round)

theorem repeatRule_keeps {property : α → Prop} {opens : Token → Bool}
    {rule : α → List Token → Except ReadFailure (α × List Token)}
    (each : ∀ {value next tokens rest}, rule value tokens = .ok (next, rest) →
      property value → property next)
    (returned : repeatRule opens rule value tokens = .ok (result, rest))
    (holds : property value) : property result := by
  suffices kept : property value → property result from kept holds
  apply @repeatRule_related _ _ _ _ _ (fun first _ last _ => property first → property last) _ _
    ?_ each returned
  intro first next last tokens middle rest before after start
  exact after (before start)

theorem repeatRule_within {kind opens : Token → Bool}
    {rule : α → List Token → Except ReadFailure (α × List Token)}
    (each : ∀ {value next tokens rest}, rule value tokens = .ok (next, rest) →
      Within kind tokens rest)
    (returned : repeatRule opens rule value tokens = .ok (result, rest)) :
    Within kind tokens rest :=
  @repeatRule_related _ _ _ _ _ (fun _ left _ later => Within kind left later) _ _ Within.trans
    each returned

theorem optionalSection_within {kind : Token → Bool} {word : Keyword}
    {rule : α → List Token → Except ReadFailure (α × List Token)}
    (within : ∀ {next rest}, rule value tokens = .ok (next, rest) → Within kind tokens rest)
    (returned : optionalSection word rule value tokens = .ok (result, rest)) :
    Within kind tokens rest := by
  obtain ⟨⟨read, after⟩, optional, returned⟩ := Reading.bind_eq_ok.mp returned
  cases returned
  exact within_of_optionalPart optional within

/-- The kind has the tokens of every list of identifiers. -/
structure HasLists (kind : Token → Bool) : Prop where
  identifier : ∀ {token : Token}, token.isIdentifierToken = true → kind token = true
  comma : kind (.keyword .comma) = true
  semicolon : kind (.keyword .semicolon) = true

theorem within_of_keyword {kind : Token → Bool} {word : Keyword} {aux : Token}
    (consumed : consumeToken (Token.is word) tokens = .ok (aux, rest))
    (keeps : kind (.keyword word) = true) : Within kind tokens rest :=
  (ReadsNames.keyword consumed keeps).within

theorem identifierSection_within {kind : Token → Bool} (lists : HasLists kind) {word : Keyword}
    {add : Token → α → α} (keeps : kind (.keyword word) = true)
    (returned : identifierSection word add value tokens = .ok (result, rest)) :
    Within kind tokens rest := by
  obtain ⟨⟨opened, afterWord⟩, wordRead, returned⟩ := Reading.bind_eq_ok.mp returned
  obtain ⟨⟨all, afterList⟩, listRead, returned⟩ := Reading.bind_eq_ok.mp returned
  obtain ⟨⟨semicolon, afterAll⟩, finishRead, returned⟩ := Reading.bind_eq_ok.mp returned
  cases returned
  obtain ⟨⟨aux, afterFirst⟩, firstRead, looped⟩ := Reading.bind_eq_ok.mp listRead
  apply (within_of_keyword wordRead keeps).trans
  apply (within_of_consumeToken firstRead lists.identifier).trans
  apply Within.trans ?_ (within_of_keyword finishRead lists.semicolon)
  apply within_of_repeatWhile looped
  intro value next left later round
  obtain ⟨⟨comma, afterComma⟩, commaRead, round⟩ := Reading.bind_eq_ok.mp round
  obtain ⟨⟨aux, afterNext⟩, nextRead, round⟩ := Reading.bind_eq_ok.mp round
  cases round
  apply (within_of_keyword commaRead lists.comma).trans
  exact within_of_consumeToken nextRead lists.identifier

theorem opensNoClause_hasLists : HasLists opensNoClause :=
  ⟨opensNoClause_of_isIdentifierToken, rfl, rfl⟩

end Sections

section Processes

variable {tokens rest : List Token}

theorem primitiveTypeRule_inside {type : DataType}
    (returned : primitiveTypeRule tokens = .ok (type, rest)) : Inside tokens rest := by
  rw [primitiveTypeRule.eq_def] at returned
  split at returned
  · cases returned
    exact ⟨[.keyword .intTk], Passes.none.cons rfl⟩
  · cases returned
    exact ⟨[.keyword .boolTk], Passes.none.cons rfl⟩
  · cases returned

theorem variableRule_inside {process next : AbstractTIOSTS}
    (returned : variableRule process tokens = .ok (next, rest)) : Inside tokens rest := by
  obtain ⟨⟨aux, afterName⟩, nameRead, returned⟩ := Reading.bind_eq_ok.mp returned
  obtain ⟨⟨colon, afterColon⟩, colonRead, returned⟩ := Reading.bind_eq_ok.mp returned
  obtain ⟨⟨type, afterType⟩, typeRead, returned⟩ := Reading.bind_eq_ok.mp returned
  obtain ⟨⟨semicolon, afterAll⟩, finishRead, returned⟩ := Reading.bind_eq_ok.mp returned
  cases returned
  apply (inside_of_identifier nameRead).trans
  apply (inside_of_keyword colonRead rfl).trans
  apply (primitiveTypeRule_inside typeRead).trans
  exact inside_of_keyword finishRead rfl

theorem variablesSection_inside {process next : AbstractTIOSTS}
    (returned : variablesSection process tokens = .ok (next, rest)) : Inside tokens rest := by
  obtain ⟨⟨opened, afterWord⟩, wordRead, looped⟩ := Reading.bind_eq_ok.mp returned
  apply (inside_of_keyword wordRead rfl).trans
  exact inside_of_repeatWhile looped variableRule_inside

theorem stateDeclarationRule_inside {process next : AbstractTIOSTS}
    (returned : stateDeclarationRule process tokens = .ok (next, rest)) : Inside tokens rest := by
  rw [stateDeclarationRule] at returned
  split at returned
  · obtain ⟨⟨init, afterInit⟩, initRead, returned⟩ := Reading.bind_eq_ok.mp returned
    obtain ⟨⟨colon, afterColon⟩, colonRead, returned⟩ := Reading.bind_eq_ok.mp returned
    obtain ⟨⟨stateTk, afterState⟩, stateRead, returned⟩ := Reading.bind_eq_ok.mp returned
    obtain ⟨⟨semicolon, afterAll⟩, finishRead, returned⟩ := Reading.bind_eq_ok.mp returned
    cases returned
    apply (inside_of_keyword initRead rfl).trans
    apply (inside_of_keyword colonRead rfl).trans
    apply (inside_of_identifier stateRead).trans
    exact inside_of_keyword finishRead rfl
  · obtain ⟨⟨stateTk, afterState⟩, stateRead, returned⟩ := Reading.bind_eq_ok.mp returned
    obtain ⟨⟨semicolon, afterAll⟩, finishRead, returned⟩ := Reading.bind_eq_ok.mp returned
    cases returned
    exact (inside_of_identifier stateRead).trans (inside_of_keyword finishRead rfl)

theorem processTransition_enters {current next : AbstractTIOSTS × SystemUnit}
    (returned : processTransition current tokens = .ok (next, rest)) :
    EntersClauses current.2.toTranslationUnit tokens next.2.toTranslationUnit rest := by
  obtain ⟨⟨⟨transition, tables⟩, after⟩, read, returned⟩ := Reading.bind_eq_ok.mp returned
  cases returned
  exact transitionRule_enters read

theorem putModel_tables (process : AbstractTIOSTS) (unit : SystemUnit) :
    (unit.putModel process).toTranslationUnit = unit.toTranslationUnit := by
  rw [SystemUnit.putModel]
  split
  · rfl
  · rfl

theorem processRule_enters {unit next : SystemUnit}
    (returned : processRule unit tokens = .ok (next, rest)) :
    EntersClauses unit.toTranslationUnit tokens next.toTranslationUnit rest := by
  obtain ⟨⟨opened, afterWord⟩, wordRead, returned⟩ := Reading.bind_eq_ok.mp returned
  obtain ⟨⟨proc, afterName⟩, nameRead, returned⟩ := Reading.bind_eq_ok.mp returned
  obtain ⟨⟨semicolon, afterSemicolon⟩, semicolonRead, returned⟩ := Reading.bind_eq_ok.mp returned
  obtain ⟨⟨withInputs, afterInputs⟩, inputRead, returned⟩ := Reading.bind_eq_ok.mp returned
  obtain ⟨⟨withOutputs, afterOutputs⟩, outputRead, returned⟩ := Reading.bind_eq_ok.mp returned
  obtain ⟨⟨withInternals, afterInternals⟩, internalRead, returned⟩ :=
    Reading.bind_eq_ok.mp returned
  obtain ⟨⟨withVariables, afterVariables⟩, variableRead, returned⟩ :=
    Reading.bind_eq_ok.mp returned
  obtain ⟨⟨stateWord, afterStateWord⟩, stateWordRead, returned⟩ := Reading.bind_eq_ok.mp returned
  obtain ⟨⟨withStates, afterStates⟩, statesRead, returned⟩ := Reading.bind_eq_ok.mp returned
  obtain ⟨⟨word, afterTransitionWord⟩, transitionWordRead, returned⟩ :=
    Reading.bind_eq_ok.mp returned
  obtain ⟨⟨⟨process, tables⟩, afterAll⟩, transitionsRead, returned⟩ :=
    Reading.bind_eq_ok.mp returned
  obtain ⟨actparams, _, returned⟩ := Reading.bind_eq_ok.mp returned
  cases returned
  have declared : Inside tokens afterTransitionWord := by
    apply (inside_of_keyword wordRead rfl).trans
    apply (inside_of_identifier nameRead).trans
    apply (inside_of_keyword semicolonRead rfl).trans
    apply (optionalSection_within (identifierSection_within opensNoClause_hasLists rfl)
      inputRead).trans
    apply (identifierSection_within opensNoClause_hasLists rfl outputRead).trans
    apply (optionalSection_within (identifierSection_within opensNoClause_hasLists rfl)
      internalRead).trans
    apply (optionalSection_within variablesSection_inside variableRead).trans
    apply (inside_of_keyword stateWordRead rfl).trans
    apply (repeatRule_within stateDeclarationRule_inside statesRead).trans
    exact inside_of_keyword transitionWordRead rfl
  apply declared.enters.trans
  rw [putModel_tables]
  exact @repeatRule_related _ _ _ _ _
    (fun current left next later =>
      EntersClauses current.2.toTranslationUnit left next.2.toTranslationUnit later)
    _ _ EntersClauses.trans processTransition_enters transitionsRead

end Processes

end Symbolrt
