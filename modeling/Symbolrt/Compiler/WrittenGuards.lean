import Symbolrt.Base.Assembly
import Symbolrt.Compiler.Builder
import Symbolrt.Compiler.Declaration

/-!
# The guards a declaration was written with

A clock guard is printed from its tokens exactly as the compiled guard prints
itself, so the clock guard of an accepted declaration is always the one written.
The data guard is the one written unless the declaration has a clock guard and no
data guard: then the text of the clock guard takes its place.
-/

namespace Symbolrt

open Reading

section Printing

variable {first : SimpleClockGuard} {others : List SimpleClockGuard}

/-- The images of the tokens, a blank after each. -/
def spaced (images : List String) : List Char :=
  images.flatMap (fun image => image.toList ++ [' '])

theorem foldl_appendElement {tokens : List Token}
    (plain : ∀ token ∈ tokens, token.image ≠ "(" ∧ token.image ≠ ")") (str : String) :
    (tokens.foldl AbstractExpression.appendElement str).toList =
      str.toList ++ spaced (tokens.map Token.image) := by
  induction tokens generalizing str with
  | nil => exact (List.append_nil _).symm
  | cons token tokens induction =>
      have here := plain token List.mem_cons_self
      have appended : AbstractExpression.appendElement str token = str ++ (token.image ++ " ") := by
        rw [AbstractExpression.appendElement, if_neg here.1, if_neg here.2]
      rw [List.foldl_cons,
        induction (fun other member => plain other (List.mem_cons_of_mem _ member)),
        appended]
      simp [spaced]

theorem spaced_guardImages (first : SimpleClockGuard) (others : List SimpleClockGuard) :
    spaced (guardImages first others) = (ClockGuard.toString ⟨first :: others⟩).toList ++
      [' '] := by
  induction others generalizing first with
  | nil =>
      rw [ClockGuard.toString_toList]
      simp [guardImages, comparisonImages, spaced, List.intercalate,
        SimpleClockGuard.toString_toList]
  | cons second others induction =>
      have unfolded : guardImages first (second :: others) =
          comparisonImages first ++ Constants.guardConjunction :: guardImages second others := by
        simp [guardImages]
      have distributed : spaced (guardImages first (second :: others)) =
          spaced (comparisonImages first) ++ (Constants.guardConjunction.toList ++
            ' ' :: spaced (guardImages second others)) := by
        rw [unfolded]
        simp [spaced]
      rw [distributed, induction, ClockGuard.toString_toList, ClockGuard.toString_toList]
      simp [comparisonImages, spaced, List.intercalate, SimpleClockGuard.toString_toList,
        Constants.guardConjunction, ClockGuard.conjunctionChars]

theorem plain_of_mem_guardImages {image : String} (listed : image ∈ guardImages first others) :
    image ≠ "(" ∧ image ≠ ")" := by
  have comparison : ∀ simple : SimpleClockGuard, image ∈ comparisonImages simple →
      image ≠ "(" ∧ image ≠ ")" := by
    intro simple member
    simp only [comparisonImages, List.mem_cons, List.not_mem_nil, or_false] at member
    rcases member with rfl | rfl | rfl
    · constructor
      · intro same
        exact absurd simple.clock_isName (by rw [same]; decide)
      · intro same
        exact absurd simple.clock_isName (by rw [same]; decide)
    · constructor
      · intro same
        exact absurd (simple.relation.sign_of_mem '(' (by rw [same]; decide)) (by decide)
      · intro same
        exact absurd (simple.relation.sign_of_mem ')' (by rw [same]; decide)) (by decide)
    · constructor
      · intro same
        exact absurd simple.integerConstant_isNumeral (by rw [same]; decide)
      · intro same
        exact absurd simple.integerConstant_isNumeral (by rw [same]; decide)
  rcases List.mem_append.mp listed with inFirst | inOthers
  · exact comparison first inFirst
  · obtain ⟨simple, _, inside⟩ := List.mem_flatMap.mp inOthers
    rcases List.mem_cons.mp inside with rfl | inSimple
    · decide
    · exact comparison simple inSimple

theorem head_not_blank :
    ∀ c ∈ (ClockGuard.toString ⟨first :: others⟩).toList.head?, Text.isBlank c = false := by
  obtain ⟨head, tail, clock⟩ := List.exists_cons_of_ne_nil (isName_chars first.clock_isName).1
  intro c member
  rw [ClockGuard.toString_toList, List.map_cons, SimpleClockGuard.toString_toList, clock] at member
  have same : head = c := by
    cases others with
    | nil => simpa [List.intercalate] using member
    | cons second others => simpa [List.intercalate] using member
  rw [← same]
  exact first.clock_notBlank head (by simp [clock])

theorem last_not_blank :
    ∀ c ∈ (ClockGuard.toString ⟨first :: others⟩).toList.getLast?, Text.isBlank c = false := by
  have ends : ∃ start : List Char, ∃ last : SimpleClockGuard,
      (ClockGuard.toString ⟨first :: others⟩).toList = start ++ last.integerConstant.toList := by
    induction others generalizing first with
    | nil =>
        refine ⟨first.clock.toList ++ ' ' :: (first.relation.text.toList ++ [' ']), first, ?_⟩
        rw [ClockGuard.toString_toList]
        simp [List.intercalate, SimpleClockGuard.toString_toList]
    | cons second others induction =>
        obtain ⟨start, last, ends⟩ := @induction second
        rw [ClockGuard.toString_toList] at ends
        refine ⟨first.toString.toList ++ (ClockGuard.conjunctionChars ++ start), last, ?_⟩
        rw [ClockGuard.toString_toList, List.append_assoc, List.append_assoc, ← ends]
        simp [List.intercalate]
  intro c member
  obtain ⟨start, last, ends⟩ := ends
  rw [ends, List.getLast?_append_of_ne_nil _ (isNumeral_chars last.integerConstant_isNumeral).1]
    at member
  exact last.constant_notBlank c (List.mem_of_getLast? member)

theorem toString_of_guardImages {expr : AbstractExpression}
    (spelled : expr.expression.map Token.image = guardImages first others) :
    expr.toString = ClockGuard.toString ⟨first :: others⟩ := by
  have plain : ∀ token ∈ expr.expression, token.image ≠ "(" ∧ token.image ≠ ")" := by
    intro token member
    have listed : token.image ∈ guardImages first others := by
      rw [← spelled]
      exact List.mem_map_of_mem member
    exact plain_of_mem_guardImages listed
  have isBlank : Text.isBlank ' ' = true := by decide
  have empty : "".toList = [] := rfl
  rw [AbstractExpression.toString, Text.trim, foldl_appendElement plain, spelled,
    spaced_guardImages, empty, List.nil_append,
    Text.trimChars_padded isBlank head_not_blank last_not_blank, String.ofList_toList]

end Printing

/-- A declaration the parser accepted, with the tables it found and left and the
tokens behind the declaration. -/
structure Declaration where
  translationUnit : TranslationUnit
  tokens : List Token
  following : List Token
  parsed : AbstractTransition
  later : TranslationUnit
  accepted : transitionRule translationUnit (tokens ++ following) =
    .ok ((parsed, later), following)

/-- The text of a clause, or the constant if there is no such clause. -/
def clauseText (word : Keyword) (declaration : List Token) : String :=
  match clause word declaration with
  | none => Constants.guardTrue
  | some body => AbstractExpression.toString ⟨body, false⟩

/-- Both guards are what the declaration writes after `when` and after `if`. -/
structure GuardsAsWritten (declaration : List Token) (guards : CompiledGuards) : Prop where
  clockGuard : guards.clockGuard.toString = clauseText .whenTk declaration
  dataGuard : guards.dataGuard.text = clauseText .ifTk declaration

instance (declaration : List Token) (guards : CompiledGuards) :
    Decidable (GuardsAsWritten declaration guards) :=
  decidable_of_iff (guards.clockGuard.toString = clauseText .whenTk declaration ∧
    guards.dataGuard.text = clauseText .ifTk declaration)
    ⟨fun both => ⟨both.1, both.2⟩, fun written => ⟨written.clockGuard, written.dataGuard⟩⟩

section Written

variable {declaration body : List Token} {trans : AbstractTransition}

theorem createGuard_text {expr : Option AbstractExpression} {found : Option (List Token)}
    (held : expr.map AbstractExpression.expression = found) :
    (createGuard expr).text =
      (found.map (fun body => AbstractExpression.toString ⟨body, false⟩)).getD
        Constants.guardTrue := by
  cases expr with
  | none =>
      cases held
      rfl
  | some expr =>
      cases held
      rfl

theorem clauseText_eq (word : Keyword) (declaration : List Token) :
    clauseText word declaration =
      ((clause word declaration).map (fun body => AbstractExpression.toString ⟨body, false⟩)).getD
        Constants.guardTrue := by
  rw [clauseText]
  cases clause word declaration with
  | none => rfl
  | some body => rfl

theorem clockGuard_text (clauses : GuardClauses declaration trans) :
    (createGuard trans.clockGuard).text = clauseText .whenTk declaration := by
  rw [createGuard_text clauses.clockGuard, clauseText_eq]

theorem exists_clockGuard (clauses : GuardClauses declaration trans) :
    ∃ guard : ClockGuard, clauseText .whenTk declaration = guard.toString ∧
      (Token.keyword .whenTk ∈ declaration → guard.toString ≠ Constants.guardTrue) := by
  rw [← isSome_clause_iff, clauseText]
  cases found : clause .whenTk declaration with
  | none => exact ⟨.empty, rfl, fun impossible => by cases impossible⟩
  | some body =>
      obtain ⟨first, others, spelled⟩ := clauses.spells found
      refine ⟨⟨first :: others⟩, toString_of_guardImages spelled, ?_⟩
      exact fun _ => ClockGuard.toString_ne_true first others

/-- Whether the data guard is the written one: its text is that of the clock guard
if there is a clock guard and no data guard. -/
theorem dataGuard_text_iff (clauses : GuardClauses declaration trans) :
    (createGuard trans.dataGuard).text = clauseText .ifTk declaration ↔
      (Token.keyword .whenTk ∈ declaration → Token.keyword .ifTk ∈ declaration) := by
  obtain ⟨guard, written, nontrivial⟩ := exists_clockGuard clauses
  rw [createGuard_text clauses.dataGuard, ← isSome_clause_iff .ifTk, clauseText_eq]
  cases ifFound : clause .ifTk declaration with
  | some body => exact ⟨fun _ _ => rfl, fun _ => rfl⟩
  | none =>
      rw [clauseText_eq] at written
      constructor
      · intro same isGuarded
        exact absurd (written.symm.trans same) (nontrivial isGuarded)
      · intro covered
        rw [← isSome_clause_iff] at covered
        cases whenFound : clause .whenTk declaration with
        | none => rfl
        | some body =>
            rw [whenFound] at covered
            cases covered rfl

theorem exists_compileGuards (clauses : GuardClauses declaration trans) (clocks : List String) :
    ∃ guards, compileGuards clocks trans = some guards ∧
      (GuardsAsWritten declaration guards ↔
        (Token.keyword .whenTk ∈ declaration → Token.keyword .ifTk ∈ declaration)) := by
  obtain ⟨guard, written, _⟩ := exists_clockGuard clauses
  refine ⟨⟨guard.renumber clocks, createGuard trans.dataGuard⟩, ?_, ?_⟩
  · rw [compileGuards, clockGuard_text clauses, written, ClockGuard.ofString_toString]
    rfl
  · rw [← dataGuard_text_iff clauses]
    constructor
    · exact GuardsAsWritten.dataGuard
    · intro same
      refine ⟨?_, same⟩
      rw [ClockGuard.toString_renumber, written]

end Written

/-- Every accepted declaration compiles to guards, for any clocks, and these are
the guards of the transition registered for it; they are as written exactly if the
declaration has no clock guard or has a data guard too. -/
theorem Declaration.guards_as_written_iff (declaration : Declaration) (clocks : List String) :
    ∃ guards, compileGuards clocks declaration.parsed = some guards ∧
      (GuardsAsWritten declaration.tokens guards ↔
        (Token.keyword .whenTk ∈ declaration.tokens →
          Token.keyword .ifTk ∈ declaration.tokens)) ∧
      ∀ {model next : TIOSTS}, model.clocks = clocks →
        setTransition model declaration.parsed = .ok next →
        ∃ condition transition,
          next = (model.setInitialCondition condition).register transition ∧
          (⟨transition.clockGuard, transition.dataGuard⟩ : CompiledGuards) = guards := by
  obtain ⟨guards, compiled, exact_⟩ :=
    exists_compileGuards (transitionRule_guardClauses declaration.accepted) clocks
  refine ⟨guards, compiled, exact_, ?_⟩
  intro model next sameClocks returned
  obtain ⟨condition, transition, registered, held⟩ := setTransition_registers returned
  rw [sameClocks, compiled] at held
  exact ⟨condition, transition, registered, (Option.some.inj held).symm⟩

/-- In a compiled model every transition has the guards its declaration was written
with, as long as no declaration has a clock guard only. -/
theorem setTransitions_guards_as_written {model next : TIOSTS} (labelled : model.Labelled)
    {declarations : List Declaration}
    (covered : ∀ declaration ∈ declarations, Token.keyword .whenTk ∈ declaration.tokens →
      Token.keyword .ifTk ∈ declaration.tokens)
    (returned : setTransitions (declarations.map Declaration.parsed) model = .ok next) :
    ∃ created, TIOSTS.Grows model created next ∧
      List.Forall₂ (fun declaration transition =>
        GuardsAsWritten (Declaration.tokens declaration)
          ⟨Transition.clockGuard transition, transition.dataGuard⟩) declarations created := by
  obtain ⟨created, compiled, grows⟩ := setTransitions_compiles labelled returned
  refine ⟨created, grows, ?_⟩
  rw [List.forall₂_map_left_iff] at compiled
  clear returned grows
  induction compiled with
  | nil => exact .nil
  | @cons declaration transition declarations created compiles _ induction =>
      refine .cons ?_ (induction (fun other member =>
        covered other (List.mem_cons_of_mem _ member)))
      obtain ⟨guards, found, exact_⟩ :=
        exists_compileGuards (transitionRule_guardClauses declaration.accepted) model.clocks
      rw [compiles.guards] at found
      cases found
      exact exact_.mpr (covered declaration List.mem_cons_self)

namespace ReturnDeclaration

def clock : Token := .identifier "clockC" (by decide)

def clockTokens : List Token := [clock, .keyword .moreThenTk, .integer "10" (by decide)]

def resetTokens : List Token := [clock, .keyword .assignment, .integer "0" isNumeral_zero]

/-- `from S1 when clockC > 10 sync Return!() do clockC := 0 to S0;` -/
def tokens : List Token :=
  [.keyword .fromTk, .identifier "S1" (by decide), .keyword .whenTk] ++ clockTokens ++
    [.keyword .synkTk, .identifier "Return" (by decide), .keyword .outActTk,
      .keyword .openParTk, .keyword .closeParTk, .keyword .doTk] ++ resetTokens ++
    [.keyword .toTk, .identifier "S0" (by decide), .keyword .semicolon]

def translationUnit : TranslationUnit where
  clocks := ["clockC"]
  typeTable := (∅ : AList (fun _ : String => List DataType)).insert "Return" []
  paramTable := ∅

/-- The one guard the text writes stands in both fields. -/
def parsed : AbstractTransition where
  source := "S1"
  clockGuard := some ⟨clockTokens, false⟩
  dataGuard := some ⟨clockTokens, false⟩
  action := some ⟨"Return", .output, []⟩
  assignments := some [⟨resetTokens, true⟩]
  deadline := none
  destination := some "S0"

theorem accepted : ∃ later, transitionRule translationUnit (tokens ++ []) =
    .ok ((parsed, later), []) := by
  have ran : (transitionRule translationUnit (tokens ++ [])).toOption.map
      (fun result => (result.1.1, result.2)) = some (parsed, []) := by decide
  cases outcome : transitionRule translationUnit (tokens ++ []) with
  | error failure =>
      rw [outcome] at ran
      cases ran
  | ok result =>
      rw [outcome] at ran
      obtain ⟨⟨trans, later⟩, rest⟩ := result
      cases ran
      exact ⟨later, rfl⟩

/-- A process that declares the locations and the action of the declaration. -/
def model : TIOSTS :=
  (TIOSTS.declare "Choose" [⟨"Return", .output, []⟩] [] [] ["clockC"]).addLocations
    ["START", "S0", "S1"] "START"

end ReturnDeclaration

theorem returnDeclaration_guards :
    ∃ (declaration : Declaration) (guards : CompiledGuards) (next : TIOSTS)
      (condition : Option DataGuard) (transition : Transition),
      declaration.tokens = ReturnDeclaration.tokens ∧
      ¬ GuardsAsWritten declaration.tokens guards ∧
      setTransition ReturnDeclaration.model declaration.parsed = .ok next ∧
      next = (ReturnDeclaration.model.setInitialCondition condition).register transition ∧
      (⟨transition.clockGuard, transition.dataGuard⟩ : CompiledGuards) = guards := by
  obtain ⟨later, accepted⟩ := ReturnDeclaration.accepted
  obtain ⟨next, compiled⟩ := exists_ok (show
    (setTransition ReturnDeclaration.model ReturnDeclaration.parsed).toOption.isSome = true by
      decide)
  let declaration : Declaration := ⟨_, ReturnDeclaration.tokens, [], _, later, accepted⟩
  obtain ⟨guards, _, written, registers⟩ := declaration.guards_as_written_iff ["clockC"]
  obtain ⟨condition, transition, registered, held⟩ :=
    @registers ReturnDeclaration.model next rfl compiled
  have uncovered : ¬ (Token.keyword .whenTk ∈ ReturnDeclaration.tokens →
      Token.keyword .ifTk ∈ ReturnDeclaration.tokens) := by decide
  refine ⟨declaration, guards, next, condition, transition, rfl, ?_, compiled, registered, held⟩
  exact fun asWritten => uncovered (written.mp asWritten)

/-- The transition compiled from the declaration compares the clock in its data
guard too, which the declaration does not have. -/
theorem returnDeclaration_not_as_written :
    ¬ ∀ (declaration : Declaration) (model next : TIOSTS) (transition : Transition),
      setTransition model declaration.parsed = .ok next →
      (next.outOf declaration.parsed.source).getLast? = some transition →
      GuardsAsWritten declaration.tokens ⟨transition.clockGuard, transition.dataGuard⟩ := by
  intro claimed
  obtain ⟨later, accepted⟩ := ReturnDeclaration.accepted
  obtain ⟨next, compiled, held⟩ := exists_checked (show
    (setTransition ReturnDeclaration.model ReturnDeclaration.parsed).toOption.map
      (fun next => (next.outOf "S1").getLast?.map (fun transition =>
        (transition.clockGuard.toString, transition.dataGuard.text)) ==
          some ("clockC > 10", "clockC > 10")) = some true by decide)
  cases last : (next.outOf "S1").getLast? with
  | none =>
      rw [last] at held
      cases held
  | some transition =>
      rw [last] at held
      have written := claimed ⟨_, _, _, _, later, accepted⟩ _ next transition compiled last
      have texts := Option.some.inj (eq_of_beq held)
      have noDataGuard : clauseText .ifTk ReturnDeclaration.tokens = "TRUE" := by decide
      have guarded : transition.dataGuard.text = "clockC > 10" := congrArg Prod.snd texts
      have same := written.dataGuard
      rw [guarded, noDataGuard] at same
      exact absurd same (by decide)

end Symbolrt
