import Symbolrt.Compiler.SyncClauses

/-!
# The parameter table of a text

The gates of a text are the identifiers between the word that opens the gates and
the first process.  When a text is accepted, the parameter table holds for each of
these the list of the last sync clause with parentheses, and nothing for other names.
-/

namespace Symbolrt

open Reading

def beforeGates (token : Token) : Bool := !token.is .gateTk

def amongGates (token : Token) : Bool := !token.is .processTk

/-- The gates that a text declares. -/
def gateNames (tokens : List Token) : List String :=
  identifiersOf (((tokens.dropWhile beforeGates).drop 1).takeWhile amongGates)

/-- The parameter list of the last sync clause of a gate. -/
def lastParameters (tokens : List Token) (name : String) : Option (List String) :=
  if name ∈ gateNames tokens then LastEntry.last name (syncClauses tokens) else none

section Gates

variable {unit next : SystemUnit} {tokens rest : List Token}

/-- The tokens of a gate. -/
def gateToken (token : Token) : Bool := amongGates token && opensNoClause token

/-- The tokens of the types of a gate. -/
def typesToken (token : Token) : Bool := gateToken token && !token.isIdentifierToken

theorem ReadsNames.mono {kind wider : Token → Bool} {names : List String}
    (reads : ReadsNames kind names tokens rest)
    (weaker : ∀ token, kind token = true → wider token = true) :
    ReadsNames wider names tokens rest := by
  obtain ⟨passed, passes, read⟩ := reads
  exact ⟨passed, passes.mono weaker, read⟩

theorem readsNames_of_types (within : Within typesToken tokens rest) :
    ReadsNames gateToken [] tokens rest := by
  obtain ⟨passed, passes⟩ := within
  refine ⟨passed, passes.mono (fun token inside => (Bool.and_eq_true_iff.mp inside).1), ?_⟩
  have none : passed.filter Token.isIdentifierToken = [] := by
    apply List.filter_eq_nil_iff.mpr
    intro token member
    have inside := (Bool.and_eq_true_iff.mp (passes.each token member)).2
    simpa using inside
  rw [identifiersOf, none]
  rfl

theorem gateToken_of_isIdentifierToken {token : Token}
    (identified : token.isIdentifierToken = true) : gateToken token = true := by
  cases token with
  | keyword word => cases identified
  | integer numeral isNumeral => cases identified
  | identifier name isIdentifier => rfl

theorem primitiveTypeRule_within {type : DataType}
    (returned : primitiveTypeRule tokens = .ok (type, rest)) :
    Within typesToken tokens rest := by
  rw [primitiveTypeRule.eq_def] at returned
  split at returned
  · cases returned
    exact ⟨[.keyword .intTk], Passes.none.cons rfl⟩
  · cases returned
    exact ⟨[.keyword .boolTk], Passes.none.cons rfl⟩
  · cases returned

theorem gateTypes_within {types : List DataType}
    (returned : gateTypes tokens = .ok (types, rest)) : Within typesToken tokens rest := by
  obtain ⟨⟨opened, afterOpen⟩, openRead, returned⟩ := Reading.bind_eq_ok.mp returned
  obtain ⟨⟨listed, afterTypes⟩, typesRead, returned⟩ := Reading.bind_eq_ok.mp returned
  obtain ⟨⟨closed, afterClose⟩, closeRead, returned⟩ := Reading.bind_eq_ok.mp returned
  cases returned
  apply (within_of_keyword openRead rfl).trans
  apply Within.trans ?_ (within_of_keyword closeRead rfl)
  apply within_of_optionalPart typesRead
  intro value read
  obtain ⟨⟨type, afterFirst⟩, firstRead, looped⟩ := Reading.bind_eq_ok.mp read
  apply (primitiveTypeRule_within firstRead).trans
  apply within_of_repeatWhile looped
  intro value next left later round
  obtain ⟨⟨comma, afterComma⟩, commaRead, round⟩ := Reading.bind_eq_ok.mp round
  obtain ⟨⟨type, afterNext⟩, nextRead, round⟩ := Reading.bind_eq_ok.mp round
  cases round
  exact (within_of_keyword commaRead rfl).trans (primitiveTypeRule_within nextRead)

/-- The names read are the gates that are new in the table. -/
structure DeclaresGates (unit : SystemUnit) (tokens : List Token) (next : SystemUnit)
    (rest : List Token) : Prop where
  names : ∃ names, ReadsNames gateToken names tokens rest ∧
    ∀ name, name ∈ next.typeTable ↔ name ∈ names ∨ name ∈ unit.typeTable
  paramTable : next.paramTable = unit.paramTable

theorem DeclaresGates.trans {middleUnit : SystemUnit} {middle : List Token}
    (first : DeclaresGates unit tokens middleUnit middle)
    (second : DeclaresGates middleUnit middle next rest) :
    DeclaresGates unit tokens next rest := by
  obtain ⟨names, read, declared⟩ := first.names
  obtain ⟨others, further, also⟩ := second.names
  refine ⟨⟨names ++ others, read.append further, ?_⟩, second.paramTable.trans first.paramTable⟩
  intro name
  rw [also, declared, List.mem_append, or_left_comm, or_assoc]

theorem gateRule_declares (returned : gateRule unit tokens = .ok (next, rest)) :
    DeclaresGates unit tokens next rest := by
  obtain ⟨⟨tk, afterName⟩, nameRead, returned⟩ := Reading.bind_eq_ok.mp returned
  obtain ⟨⟨types, afterTypes⟩, typesRead, returned⟩ := Reading.bind_eq_ok.mp returned
  obtain ⟨⟨semicolon, afterAll⟩, finishRead, returned⟩ := Reading.bind_eq_ok.mp returned
  cases returned
  have identified := (consumeToken_eq_ok.mp nameRead).2
  have named := ReadsNames.identifier nameRead (gateToken_of_isIdentifierToken identified)
  have typed := readsNames_of_types (within_of_optionalPart typesRead gateTypes_within)
  refine ⟨⟨[tk.image], named.append (typed.append (ReadsNames.keyword finishRead rfl)), ?_⟩, rfl⟩
  intro name
  rw [List.mem_singleton]
  exact AList.mem_insert _

end Gates

section Header

variable {α β : Type} {unit next : SystemUnit} {tokens rest : List Token}

/-- The tokens in front of the gates. -/
def headerToken (token : Token) : Bool := beforeGates token && opensNoClause token

theorem headerToken_of_isIdentifierToken {token : Token}
    (identified : token.isIdentifierToken = true) : headerToken token = true := by
  cases token with
  | keyword word => cases identified
  | integer numeral isNumeral => cases identified
  | identifier name isIdentifier => rfl

theorem headerToken_hasLists : HasLists headerToken :=
  ⟨headerToken_of_isIdentifierToken, rfl, rfl⟩

theorem headerToken_of_isConstant {token : Token} (isConstant : token.isConstant = true) :
    headerToken token = true := by
  cases token with
  | keyword word =>
      cases word with
      | trueTk | falseTk => rfl
      | _ => cases isConstant
  | integer numeral isNumeral => rfl
  | identifier name isIdentifier => rfl

theorem constantSection_within {value result : Unit}
    (returned : constantSection value tokens = .ok (result, rest)) :
    Within headerToken tokens rest := by
  obtain ⟨⟨opened, afterWord⟩, wordRead, repeated⟩ := Reading.bind_eq_ok.mp returned
  apply (within_of_keyword wordRead rfl).trans
  apply repeatRule_within ?_ repeated
  intro value next tokens rest round
  obtain ⟨⟨name, afterName⟩, nameRead, round⟩ := Reading.bind_eq_ok.mp round
  obtain ⟨⟨symbol, afterSymbol⟩, symbolRead, round⟩ := Reading.bind_eq_ok.mp round
  obtain ⟨⟨constant, afterConstant⟩, constantRead, round⟩ := Reading.bind_eq_ok.mp round
  obtain ⟨⟨semicolon, afterAll⟩, finishRead, round⟩ := Reading.bind_eq_ok.mp round
  cases round
  apply (within_of_consumeToken nameRead headerToken_of_isIdentifierToken).trans
  apply (within_of_keyword symbolRead rfl).trans
  apply (within_of_consumeToken constantRead headerToken_of_isConstant).trans
  exact within_of_keyword finishRead rfl

theorem identifierSection_keeps {word : Keyword} {add : Token → α → α} (part : α → β)
    (keeps : ∀ aux value, part (add aux value) = part value) {value result : α}
    (returned : identifierSection word add value tokens = .ok (result, rest)) :
    part result = part value := by
  obtain ⟨⟨opened, afterWord⟩, wordRead, returned⟩ := Reading.bind_eq_ok.mp returned
  obtain ⟨⟨all, afterList⟩, listRead, returned⟩ := Reading.bind_eq_ok.mp returned
  obtain ⟨⟨semicolon, afterAll⟩, finishRead, returned⟩ := Reading.bind_eq_ok.mp returned
  cases returned
  obtain ⟨⟨aux, afterFirst⟩, firstRead, looped⟩ := Reading.bind_eq_ok.mp listRead
  apply (@repeatWhile_induction _ _ _ _ (fun current _ => part current = part value) ?_ _ _ _ _ _
    (keeps aux value) looped).1
  intro current next left later same _ round
  obtain ⟨⟨comma, afterComma⟩, commaRead, round⟩ := Reading.bind_eq_ok.mp round
  obtain ⟨⟨aux, afterNext⟩, nextRead, round⟩ := Reading.bind_eq_ok.mp round
  cases round
  exact (keeps aux current).trans same

theorem optionalSection_keeps {word : Keyword}
    {rule : α → List Token → Except ReadFailure (α × List Token)} (part : α → β)
    {value result : α}
    (keeps : ∀ {next rest}, rule value tokens = .ok (next, rest) → part next = part value)
    (returned : optionalSection word rule value tokens = .ok (result, rest)) :
    part result = part value := by
  obtain ⟨⟨read, after⟩, optional, returned⟩ := Reading.bind_eq_ok.mp returned
  cases returned
  rcases optionalPart_eq_ok.mp optional with ⟨_, found, ruled, rfl⟩ | ⟨_, rfl, _⟩
  · exact keeps ruled
  · rfl

/-- The tables that a declaration of clocks does not change. -/
def tablesOf (unit : SystemUnit) :
    AList (fun _ : String => List DataType) × AList (fun _ : String => List String) :=
  (unit.typeTable, unit.paramTable)

theorem tablesOf_addClock (aux : Token) (unit : SystemUnit) :
    tablesOf (unit.addClock aux) = tablesOf unit := rfl

theorem gateNames_eq {names : List String} {after : List Token}
    (header : Within headerToken tokens (.keyword .gateTk :: after))
    (reads : ReadsNames gateToken names after (.keyword .processTk :: rest)) :
    gateNames tokens = names := by
  obtain ⟨passed, rfl, free⟩ := header
  have skipped : (passed ++ .keyword .gateTk :: after).dropWhile beforeGates =
      .keyword .gateTk :: after := by
    rw [List.dropWhile_append_of_pos
      (fun token member => (Bool.and_eq_true_iff.mp (free token member)).1)]
    rfl
  rw [gateNames, skipped]
  exact (reads.mono (fun token inside => (Bool.and_eq_true_iff.mp inside).1)).upTo rfl

/-- What an accepted header leaves in the tables. -/
theorem systemHeader_declares (returned : systemHeader unit tokens = .ok (next, rest))
    (untyped : unit.typeTable = ∅) :
    Inside tokens rest ∧ next.paramTable = unit.paramTable ∧
      (nextIs (Token.is .processTk) rest = true →
        ∀ name, name ∈ next.typeTable ↔ name ∈ gateNames tokens) := by
  obtain ⟨⟨opened, afterWord⟩, wordRead, returned⟩ := Reading.bind_eq_ok.mp returned
  obtain ⟨⟨name, afterName⟩, nameRead, returned⟩ := Reading.bind_eq_ok.mp returned
  obtain ⟨⟨semicolon, afterSemicolon⟩, semicolonRead, returned⟩ := Reading.bind_eq_ok.mp returned
  obtain ⟨⟨constants, afterConstants⟩, constantRead, returned⟩ := Reading.bind_eq_ok.mp returned
  obtain ⟨⟨clocked, afterClocks⟩, clocksRead, returned⟩ := Reading.bind_eq_ok.mp returned
  obtain ⟨⟨gate, afterGate⟩, gateRead, repeated⟩ := Reading.bind_eq_ok.mp returned
  have header : Within headerToken tokens afterClocks := by
    apply (within_of_keyword wordRead rfl).trans
    apply (within_of_consumeToken nameRead headerToken_of_isIdentifierToken).trans
    apply (within_of_keyword semicolonRead rfl).trans
    apply (optionalSection_within constantSection_within constantRead).trans
    exact optionalSection_within (identifierSection_within headerToken_hasLists rfl) clocksRead
  have tables : tablesOf clocked = tablesOf unit := by
    apply optionalSection_keeps tablesOf ?_ clocksRead
    intro next rest read
    exact identifierSection_keeps tablesOf tablesOf_addClock read
  have declares : DeclaresGates clocked afterGate next rest :=
    repeatRule_related DeclaresGates.trans gateRule_declares repeated
  obtain ⟨names, reads, declared⟩ := declares.names
  obtain ⟨rfl, isGate⟩ := consumeToken_eq_ok.mp gateRead
  rw [eq_keyword_of_is isGate] at header
  refine ⟨?_, declares.paramTable.trans (congrArg Prod.snd tables), ?_⟩
  · have gates := reads.within.mono (fun token inside => (Bool.and_eq_true_iff.mp inside).2)
    have first := header.mono (fun token inside => (Bool.and_eq_true_iff.mp inside).2)
    have step : Within opensNoClause (.keyword .gateTk :: afterGate) afterGate :=
      ⟨_, Passes.none.cons rfl⟩
    exact first.trans (step.trans gates)
  · intro isProcess name
    obtain ⟨token, after, rfl, same⟩ := nextIs_eq_true.mp isProcess
    rw [eq_keyword_of_is same] at reads
    have typeTable : clocked.typeTable = ∅ := (congrArg Prod.fst tables).trans untyped
    rw [declared, typeTable, gateNames_eq header reads]
    exact or_iff_left (AList.notMem_empty name)

end Header

/-- What the parameter table holds when a text is accepted. -/
theorem systemRule_paramTable {specificationID : String} {tokens : List Token}
    {unit : SystemUnit} (accepted : systemRule specificationID tokens = .ok unit)
    (name : String) : unit.paramTable.lookup name = lastParameters tokens name := by
  obtain ⟨⟨declared, afterHeader⟩, headerRead, accepted⟩ := Reading.bind_eq_ok.mp accepted
  obtain ⟨⟨ended, rest⟩, processesRead, accepted⟩ := Reading.bind_eq_ok.mp accepted
  obtain ⟨inside, paramTable, gates⟩ := systemHeader_declares headerRead rfl
  have isProcess : nextIs (Token.is .processTk) afterHeader = true := by
    obtain ⟨⟨first, afterFirst⟩, firstRead, _⟩ := Reading.bind_eq_ok.mp processesRead
    obtain ⟨⟨opened, afterWord⟩, wordRead, _⟩ := Reading.bind_eq_ok.mp firstRead
    obtain ⟨rfl, isWord⟩ := consumeToken_eq_ok.mp wordRead
    exact isWord
  have enters : EntersClauses declared.toTranslationUnit afterHeader ended.toTranslationUnit rest :=
    @repeatRule_related _ _ _ _ _
      (fun unit left next later =>
        EntersClauses unit.toTranslationUnit left next.toTranslationUnit later)
      _ _ EntersClauses.trans processRule_enters processesRead
  cases rest with
  | cons token rest => cases accepted
  | nil =>
      cases accepted
      obtain ⟨entered, split, table⟩ := enters.clauses
      have all : syncClauses tokens = entered := by
        rw [inside.syncClauses_eq, split]
        exact List.append_nil entered
      have blank : declared.paramTable = ∅ := paramTable
      rw [table, lastParameters, all, blank]
      by_cases isGate : name ∈ gateNames tokens
      · rw [if_pos isGate]
        exact (LastEntry.lookup_enterAll _ entered ∅ ((gates isProcess name).mpr isGate)).trans
          Option.or_none
      · rw [if_neg isGate]
        exact LastEntry.lookup_enterAll_of_not _ entered ∅
          (fun declared => isGate ((gates isProcess name).mp declared))

end Symbolrt
