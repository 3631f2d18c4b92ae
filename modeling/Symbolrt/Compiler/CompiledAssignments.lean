import Symbolrt.Compiler.Builder
import Symbolrt.Compiler.Declaration
import Symbolrt.Compiler.PrintedExpressions
import Symbolrt.Lib.Assignments
import Symbolrt.Lib.Separated

/-!
# Assignments as texts

The assignments of a declaration are compiled to two texts, one for the variables and one
for the clocks, and the execution takes these texts apart again.
-/

namespace Symbolrt

open Reading Layout

namespace SymbolicExecution

/-- The target and the right-hand side of an assignment, as the execution splits it. -/
def splitAssignment (assignment : String) : Except Failure (String × String) :=
  match Text.split Constants.assignmentSymbol assignment with
  | target :: value :: _ => .ok (Text.trim target, Text.trim value)
  | _ => .error .indexOutOfBounds

/-- The assignments of a text between the bars, each as its target and its value. -/
def splitAssignments (dataAssignments : Option String) :
    Except Failure (List (String × String)) :=
  match dataAssignments with
  | none => .ok []
  | some dataAssignments => (Text.split assignmentBar dataAssignments).mapM splitAssignment

/-- One assignment after the splitting. -/
abbrev assign : SymbolicMapping → String × String → SymbolicMapping :=
  Assignments.assign updateExpression

theorem updateSymbolicValueWithAssignment_eq (symbolicValues : SymbolicMapping)
    (assignment : String) :
    updateSymbolicValueWithAssignment symbolicValues assignment =
      (splitAssignment assignment).map (assign symbolicValues) := by
  unfold updateSymbolicValueWithAssignment splitAssignment
  cases Text.split Constants.assignmentSymbol assignment with
  | nil => rfl
  | cons target rest =>
      cases rest with
      | nil => rfl
      | cons value rest => rfl

/-- The assignments are split and then carried out one after the other. -/
theorem updateSymbolicValueWithAssignments_eq (dataAssignments : Option String)
    (symbolicValues : SymbolicMapping) :
    updateSymbolicValueWithAssignments dataAssignments symbolicValues =
      (splitAssignments dataAssignments).map (List.foldl assign symbolicValues) := by
  have each : ∀ (texts : List String) (symbolicValues : SymbolicMapping),
      texts.foldlM updateSymbolicValueWithAssignment symbolicValues =
        (texts.mapM splitAssignment).map (List.foldl assign symbolicValues) := by
    intro texts
    induction texts with
    | nil => exact fun symbolicValues => rfl
    | cons text texts induction =>
        intro symbolicValues
        rw [List.foldlM_cons, List.mapM_cons, updateSymbolicValueWithAssignment_eq]
        cases here : splitAssignment text with
        | error failure => rfl
        | ok assignment =>
            change texts.foldlM updateSymbolicValueWithAssignment
              (assign symbolicValues assignment) = _
            rw [induction]
            cases texts.mapM splitAssignment with
            | error failure => rfl
            | ok assignments => rfl
  cases dataAssignments with
  | none => rfl
  | some text => exact each _ symbolicValues

end SymbolicExecution

namespace AbstractExpression

/-- The image of the target of an assignment. -/
def target (expr : AbstractExpression) : String := (expr.expression.head?.map Token.image).getD ""

/-- The right-hand side of an assignment. -/
def rightHandSide (expr : AbstractExpression) : AbstractExpression :=
  { expr with expression := expr.expression.drop 2 }

/-- A target, the symbol and the tokens of an expression. -/
structure IsAssignment (expr : AbstractExpression) : Prop where
  whole : ∃ name isIdentifier, ∃ rightHandSide : List Token,
    expr.expression = .identifier name isIdentifier :: .keyword .assignment :: rightHandSide ∧
      rightHandSide ≠ [] ∧ (∀ token ∈ rightHandSide, token.isExpressionToken = true) ∧
      ∀ token ∈ rightHandSide.head?, token.image ≠ ")"

/-- An assignment that is marked by the list of clocks. -/
structure IsMarked (clocks : List String) (expr : AbstractExpression) : Prop where
  isAssignment : expr.IsAssignment
  isClockAssignment : expr.isClockAssignment = decide (expr.target ∈ clocks)

end AbstractExpression

/-- The tokens an expression can begin with. -/
def opensExpression (token : Token) : Bool :=
  token.isIdentifierToken || token.isConstant || token.isKeyword Keyword.isUnaryOperator ||
    token.is .openParTk

theorem ExpressionRule.opens_of_run {fuel : Nat} {rule : ExpressionRule}
    {expr result : AbstractExpression} {tokens rest : List Token}
    (returned : run fuel rule expr tokens = .ok (result, rest)) (strict : rule.isStrict = true) :
    nextIs opensExpression tokens = true := by
  induction fuel generalizing rule expr result tokens rest with
  | zero => cases returned
  | succ fuel induction =>
      cases rule with
      | expressionRule =>
          obtain ⟨middle, between, one, _⟩ := run_bind_eq_ok returned
          exact induction one rfl
      | termRule =>
          obtain ⟨middle, between, one, _⟩ := run_bind_eq_ok returned
          exact induction one rfl
      | otherExpressionRule => cases strict
      | otherTermRule => cases strict
      | factorRule =>
          cases tokens with
          | nil => cases returned
          | cons aux tail =>
              rw [run] at returned
              apply nextIs_eq_true.mpr
              refine ⟨aux, tail, rfl, ?_⟩
              split at returned
              · rename_i atom
                simp [opensExpression, atom]
              · split at returned
                · rename_i unary
                  simp [opensExpression, unary]
                · split at returned
                  · rename_i opened
                    simp [opensExpression, opened]
                  · cases returned

theorem image_ne_close_of_opens {token : Token} (opens : opensExpression token = true) :
    token.image ≠ ")" := by
  intro closes
  cases token with
  | keyword word =>
      cases word with
      | closeParTk => exact absurd opens (by decide)
      | _ => exact absurd closes (by decide)
  | identifier name isIdentifier =>
      have same : name = ")" := closes
      rw [same] at isIdentifier
      exact absurd isIdentifier (by decide)
  | integer numeral isNumeral =>
      have same : numeral = ")" := closes
      rw [same] at isNumeral
      exact absurd isNumeral (by decide)

section Parsing

variable {translationUnit : TranslationUnit} {assignments result : List AbstractExpression}
  {tokens rest : List Token}

/-- An accepted assignment is added to the set. -/
theorem assignmentRule_adds
    (returned : assignmentRule translationUnit assignments tokens = .ok (result, rest)) :
    ∃ expr, expr.IsMarked translationUnit.clocks ∧ result = assignments ++ [expr] := by
  obtain ⟨⟨target, afterTarget⟩, targetRead, returned⟩ := Reading.bind_eq_ok.mp returned
  obtain ⟨⟨aux, afterSymbol⟩, symbolRead, returned⟩ := Reading.bind_eq_ok.mp returned
  obtain ⟨⟨expr, afterExpression⟩, expressionRead, returned⟩ := Reading.bind_eq_ok.mp returned
  cases returned
  obtain ⟨_, identified⟩ := consumeToken_eq_ok.mp targetRead
  obtain ⟨_, symbol⟩ := consumeToken_eq_ok.mp symbolRead
  obtain ⟨passed, records, nonempty⟩ := expressionRule_records expressionRead
  have opened := ExpressionRule.opens_of_run expressionRead rfl
  have isSymbol : aux = .keyword .assignment := by
    cases aux with
    | keyword word => rw [eq_of_beq symbol]
    | identifier name isIdentifier => cases symbol
    | integer numeral isNumeral => cases symbol
  cases target with
  | keyword word => cases identified
  | integer numeral isNumeral => cases identified
  | identifier name isIdentifier =>
      have recorded : expr.expression =
          .identifier name isIdentifier :: .keyword .assignment :: passed := by
        rw [records.result_eq, isSymbol]
        rfl
      refine ⟨expr, ⟨⟨name, isIdentifier, passed, recorded, nonempty, records.passes.each, ?_⟩,
        ?_⟩, rfl⟩
      · intro token member
        obtain ⟨first, others, whole, opens⟩ := nextIs_eq_true.mp opened
        have starts := records.passes.whole
        obtain ⟨head, tail, rfl⟩ := List.exists_cons_of_ne_nil nonempty
        rw [whole, List.cons_append] at starts
        rw [← Option.some.inj member, ← (List.cons.inj starts).1]
        exact image_ne_close_of_opens opens
      · rw [AbstractExpression.target, recorded, records.result_eq]
        rfl

/-- Every element of an accepted set is an assignment. -/
theorem statementRule_assignments
    (returned : statementRule translationUnit tokens = .ok (result, rest)) :
    ∀ expr ∈ result, expr.IsMarked translationUnit.clocks := by
  have grows : ∀ {assignments result : List AbstractExpression} {tokens rest : List Token},
      (∀ expr ∈ assignments, expr.IsMarked translationUnit.clocks) →
      assignmentRule translationUnit assignments tokens = .ok (result, rest) →
      ∀ expr ∈ result, expr.IsMarked translationUnit.clocks := by
    intro assignments result tokens rest earlier added expr member
    obtain ⟨last, isMarked, rfl⟩ := assignmentRule_adds added
    rcases List.mem_append.mp member with before | isLast
    · exact earlier expr before
    · rw [List.mem_singleton.mp isLast]
      exact isMarked
  obtain ⟨⟨_, after⟩, _, entered⟩ := Reading.bind_eq_ok.mp returned
  dsimp only at entered
  split at entered
  · exact grows (by simp) entered
  · split at entered
    · obtain ⟨⟨_, afterOpen⟩, _, entered⟩ := Reading.bind_eq_ok.mp entered
      obtain ⟨⟨first, afterFirst⟩, firstRead, entered⟩ := Reading.bind_eq_ok.mp entered
      obtain ⟨⟨all, afterAll⟩, looped, entered⟩ := Reading.bind_eq_ok.mp entered
      obtain ⟨⟨_, afterClose⟩, _, entered⟩ := Reading.bind_eq_ok.mp entered
      cases entered
      have kept := @repeatWhile_induction _ _ _ _ (fun assignments _ =>
        ∀ expr ∈ assignments, expr.IsMarked translationUnit.clocks) (by
          intro value next tokens rest earlier _ round
          obtain ⟨⟨_, afterBar⟩, _, added⟩ := Reading.bind_eq_ok.mp round
          exact grows earlier added) _ _ _ _ _ (grows (by simp) firstRead) looped
      exact kept.1
    · cases entered

end Parsing

namespace AbstractExpression

/-- The target and the text of the right-hand side. -/
def assignmentPair (expr : AbstractExpression) : String × String :=
  (expr.target, expr.rightHandSide.toString)

section Assignments

variable {expr : AbstractExpression}

theorem IsAssignment.target_isSolid (isAssignment : expr.IsAssignment) :
    IsSolid expr.target.toList := by
  obtain ⟨name, isIdentifier, rightHandSide, recorded, _⟩ := isAssignment.whole
  rw [target, recorded]
  exact (Token.identifier name isIdentifier).image_isSolid

theorem IsAssignment.rightHandSide_isSolid (isAssignment : expr.IsAssignment) :
    IsSolid expr.rightHandSide.toString.toList := by
  obtain ⟨name, isIdentifier, tokens, recorded, nonempty, _⟩ := isAssignment.whole
  rw [toString_toList, rightHandSide, recorded]
  exact Style.line_isSolid Token.style_solid tokens nonempty

/-- An assignment is printed as its target, the symbol and its right-hand side. -/
theorem IsAssignment.toString_toList (isAssignment : expr.IsAssignment) :
    expr.toString.toList = (expr.target.toList ++ [' ']) ++
      ([':', '='] ++ ' ' :: expr.rightHandSide.toString.toList) := by
  obtain ⟨name, isIdentifier, tokens, recorded, nonempty, _, starts⟩ := isAssignment.whole
  obtain ⟨head, tail, rfl⟩ := List.exists_cons_of_ne_nil nonempty
  have notOpen : Token.style.opens (.identifier name isIdentifier) = false := by
    apply beq_eq_false_iff_ne.mpr
    rintro (same : name = "(")
    rw [same] at isIdentifier
    exact absurd isIdentifier (by decide)
  have notClose : Token.style.closes head = false :=
    beq_eq_false_iff_ne.mpr (starts head rfl)
  have first : Token.style.joint (.identifier name isIdentifier) (.keyword .assignment) =
      [' '] := by
    rw [Style.joint, notOpen]
    rfl
  have second : Token.style.joint (.keyword .assignment) head = [' '] := by
    rw [Style.joint, notClose]
    rfl
  rw [AbstractExpression.toString_toList, AbstractExpression.toString_toList, target,
    rightHandSide, recorded, Style.line, Style.line, first, second]
  simp [Token.style, Token.image, Keyword.image]

end Assignments

end AbstractExpression

theorem Token.image_plain {token : Token} (inside : token.isExpressionToken = true) :
    ∀ c ∈ token.image.toList, c ≠ '|' ∧ c ≠ ':' := by
  have ofName : ∀ {c : Char}, isNameChar c = true → c ≠ '|' ∧ c ≠ ':' := by
    intro c nameChar
    constructor
    · rintro rfl
      exact absurd nameChar (by decide)
    · rintro rfl
      exact absurd nameChar (by decide)
  cases token with
  | identifier name isIdentifier =>
      simp only [Symbolrt.isIdentifier, Bool.and_eq_true] at isIdentifier
      exact fun c member => ofName ((isName_chars isIdentifier.1.1).2 c member)
  | integer numeral isNumeral =>
      exact fun c member => ofName (isDigit_isNameChar ((isNumeral_chars isNumeral).2 c member))
  | keyword word =>
      cases word with
      | notTk | andTk | orTk | trueTk | falseTk | modTk | moreThenTk | moreThenEqualsTk
      | equalsTk | lessThenTk | lessThenEqualsTk | diffTk | equivTk | minusTk | plusTk | multTk
      | divTk | openParTk | closeParTk => decide
      | _ => cases inside

section Splitting

open AbstractExpression

variable {expr : AbstractExpression}

theorem rightHandSide_plain (isAssignment : expr.IsAssignment) :
    ∀ c ∈ expr.rightHandSide.toString.toList, c ≠ '|' ∧ c ≠ ':' := by
  obtain ⟨name, isIdentifier, tokens, recorded, _, inside, _⟩ := isAssignment.whole
  intro c member
  rw [AbstractExpression.toString_toList, rightHandSide, recorded] at member
  rcases Style.mem_line member with rfl | ⟨token, listed, inToken⟩
  · decide
  · exact Token.image_plain (inside token listed) c inToken

theorem target_plain (isAssignment : expr.IsAssignment) :
    ∀ c ∈ expr.target.toList, c ≠ '|' ∧ c ≠ ':' := by
  obtain ⟨name, isIdentifier, tokens, recorded, _⟩ := isAssignment.whole
  rw [target, recorded]
  exact @Token.image_plain (.identifier name isIdentifier) rfl

theorem bar_not_mem (isAssignment : expr.IsAssignment) : '|' ∉ expr.toString.toList := by
  rw [isAssignment.toString_toList]
  intro member
  rcases List.mem_append.mp member with before | behind
  · rcases List.mem_append.mp before with inTarget | blank
    · exact (target_plain isAssignment _ inTarget).1 rfl
    · exact absurd blank (by decide)
  · rcases List.mem_append.mp behind with symbol | inside
    · exact absurd symbol (by decide)
    · rcases List.mem_cons.mp inside with blank | inText
      · exact absurd blank (by decide)
      · exact (rightHandSide_plain isAssignment _ inText).1 rfl

/-- A printed assignment is split into its target and its right-hand side, each with blanks
around it. -/
theorem split_padded (isAssignment : expr.IsAssignment) {part : List Char}
    (padded : IsPadded expr.toString.toList part) :
    ∃ first second, IsPadded expr.target.toList first ∧
      IsPadded expr.rightHandSide.toString.toList second ∧
      Text.split Constants.assignmentSymbol (String.ofList part) =
        [String.ofList first, String.ofList second] := by
  obtain ⟨before, after, beforeBlank, afterBlank, rfl⟩ := padded
  have isBlankChar : Text.isBlank ' ' = true := by decide
  have symbol : Constants.assignmentSymbol.toList = [':', '='] := by decide
  have colon : Text.isBlank ':' = false := by decide
  have front : IsPadded expr.target.toList (before ++ (expr.target.toList ++ [' '])) :=
    ⟨before, [' '], beforeBlank, by simpa using isBlankChar, by simp⟩
  have back : IsPadded expr.rightHandSide.toString.toList
      (' ' :: (expr.rightHandSide.toString.toList ++ after)) :=
    ⟨[' '], after, by simpa using isBlankChar, afterBlank, by simp⟩
  have frontPlain := front.not_mem colon (fun member => (target_plain isAssignment _ member).2 rfl)
  have backPlain := back.not_mem colon
    (fun member => (rightHandSide_plain isAssignment _ member).2 rfl)
  have plain : ∀ {word : List Char} (rest : List Char), ':' ∉ word →
      Text.NoMatchIn [':', '='] word rest := by
    intro word rest avoids
    have whole := (Text.noMatchIn_nil [':', '='] rest).word avoids
    rwa [List.append_nil] at whole
  refine ⟨before ++ (expr.target.toList ++ [' ']),
    ' ' :: (expr.rightHandSide.toString.toList ++ after), front, back, ?_⟩
  have whole : before ++ (expr.toString.toList ++ after) =
      (before ++ (expr.target.toList ++ [' '])) ++
        ([':', '='] ++ ' ' :: (expr.rightHandSide.toString.toList ++ after)) := by
    rw [isAssignment.toString_toList]
    simp
  have pieced : Text.pieces Constants.assignmentSymbol.toList 0 []
      (String.ofList (before ++ (expr.toString.toList ++ after))).toList =
        [before ++ (expr.target.toList ++ [' ']),
          ' ' :: (expr.rightHandSide.toString.toList ++ after)] := by
    rw [String.toList_ofList, whole, symbol, Text.pieces_cons (by simp) (plain _ frontPlain),
      Text.pieces_last (plain _ backPlain)]
  have single : ∀ item, [before ++ (expr.target.toList ++ [' ']),
      ' ' :: (expr.rightHandSide.toString.toList ++ after)] = [item] →
        item = (String.ofList (before ++ (expr.toString.toList ++ after))).toList := by
    intro item impossible
    exact absurd (congrArg List.length impossible) (by simp)
  have nonempty : ∀ item ∈ [before ++ (expr.target.toList ++ [' ']),
      ' ' :: (expr.rightHandSide.toString.toList ++ after)], item ≠ [] := by
    intro item member
    rcases List.mem_cons.mp member with first | last
    · rw [first]
      exact front.ne_nil isAssignment.target_isSolid.nonempty
    · rw [List.mem_singleton.mp last]
      exact List.cons_ne_nil _ _
  rw [Text.split_of_pieces pieced single nonempty, List.map_cons, List.map_cons, List.map_nil]

open SymbolicExecution

theorem splitAssignment_padded (isAssignment : expr.IsAssignment) {part : List Char}
    (padded : IsPadded expr.toString.toList part) :
    splitAssignment (String.ofList part) = .ok expr.assignmentPair := by
  obtain ⟨first, second, front, back, split⟩ := split_padded isAssignment padded
  rw [splitAssignment, split]
  simp only [Text.trim, String.toList_ofList]
  rw [front.trim isAssignment.target_isSolid, back.trim isAssignment.rightHandSide_isSolid,
    String.ofList_toList, String.ofList_toList]
  rfl

theorem clockToReset_padded (isAssignment : expr.IsAssignment) {part : List Char}
    (padded : IsPadded expr.toString.toList part) :
    clockToReset (String.ofList part) = .ok expr.target := by
  obtain ⟨first, second, front, back, split⟩ := split_padded isAssignment padded
  rw [clockToReset, split]
  simp only [Text.trim, String.toList_ofList]
  rw [front.trim isAssignment.target_isSolid, String.ofList_toList]

end Splitting

section Sets

variable {exprs others : List AbstractExpression}

/-- The text holds the printed assignments, and no text stands for none. -/
inductive HoldsAssignments : List AbstractExpression → Option String → Prop where
  | none : HoldsAssignments [] none
  | text {exprs : List AbstractExpression} {text : String} : exprs ≠ [] →
      Separated '|' (exprs.map fun expr => expr.toString.toList) text.toList →
      HoldsAssignments exprs (some text)

theorem transformAssignment_holds (isAssignment : ∀ expr ∈ exprs, expr.IsAssignment) :
    HoldsAssignments exprs (transformAssignment (some exprs)) := by
  cases exprs with
  | nil => exact .none
  | cons expr exprs =>
      have printed : ∀ (items : List AbstractExpression) (str : String),
          (items.foldl (fun str e => str ++ (" | " ++ e.toString)) str).toList = str.toList ++
            (items.map fun item => item.toString.toList).flatMap
              (fun item => ' ' :: '|' :: ' ' :: item) := by
        intro items
        induction items with
        | nil => simp
        | cons item items induction =>
            intro str
            rw [List.foldl_cons, induction]
            simp
      have nonempty : (expr :: exprs).map (fun expr => expr.toString.toList) ≠ [] := by simp
      have solid : ∀ item ∈ (expr :: exprs).map (fun expr => expr.toString.toList),
          IsSolid item := by
        intro item member
        obtain ⟨listed, inside, rfl⟩ := List.mem_map.mp member
        have isHere := isAssignment listed inside
        rw [isHere.toString_toList]
        have whole := isHere.target_isSolid.append isHere.rightHandSide_isSolid
          ([' '] ++ ([':', '='] ++ [' ']))
        simpa using whole
      have joinedSolid := join_isSolid '|' nonempty solid
      have padded : IsPadded (join '|' ((expr :: exprs).map fun expr => expr.toString.toList))
          (' ' :: join '|' ((expr :: exprs).map fun expr => expr.toString.toList)) :=
        (IsPadded.self _).before (by decide)
      refine .text (List.cons_ne_nil _ _) ?_
      rw [Text.trim, String.toList_ofList, String.toList_ofList, printed]
      have empty : "".toList = [] := rfl
      rw [empty, List.nil_append, flatMap_separator '|' nonempty]
      have dropped := padded.trim joinedSolid
      rw [List.drop_succ_cons, List.drop_succ_cons, List.drop_zero, dropped]
      exact separated_join '|' nonempty

open SynchronousProduct (createAssignments)

theorem HoldsAssignments.createAssignments {first second : Option String}
    (holds : HoldsAssignments exprs first) (behind : HoldsAssignments others second) :
    HoldsAssignments (exprs ++ others) (SynchronousProduct.createAssignments first second) := by
  cases behind with
  | none =>
      rw [List.append_nil]
      cases holds with
      | none => exact .none
      | text nonempty separated => exact .text nonempty separated
  | text otherNonempty further =>
      cases holds with
      | none => exact .text otherNonempty further
      | text nonempty separated =>
          refine .text (by simp [nonempty]) ?_
          have whole := separated.append further
          rw [List.map_append]
          simpa [Constants.assignmentSeparator] using whole

open SymbolicExecution

theorem split_holds (isAssignment : ∀ expr ∈ exprs, expr.IsAssignment) {text : String}
    (separated : Separated '|' (exprs.map fun expr => expr.toString.toList) text.toList) :
    ∃ parts, List.Forall₂ (fun expr part => IsPadded expr.toString.toList part) exprs parts ∧
      Text.split assignmentBar text = parts.map String.ofList := by
  have bar : assignmentBar = String.singleton '|' := by decide
  have absent : ∀ item ∈ exprs.map (fun expr => expr.toString.toList), '|' ∉ item := by
    intro item member
    obtain ⟨expr, listed, rfl⟩ := List.mem_map.mp member
    exact bar_not_mem (isAssignment expr listed)
  have nonempty : ∀ item ∈ exprs.map (fun expr => expr.toString.toList), item ≠ [] := by
    intro item member
    obtain ⟨expr, listed, rfl⟩ := List.mem_map.mp member
    rw [(isAssignment expr listed).toString_toList]
    simp
  obtain ⟨parts, matched, split⟩ := separated.split (by decide) absent nonempty
  refine ⟨parts, List.forall₂_map_left_iff.mp matched, ?_⟩
  rw [bar]
  exact split

theorem mapM_parts {β : Type} {decode : String → Except Failure β} {value : AbstractExpression → β}
    {parts : List (List Char)}
    (matched : List.Forall₂ (fun expr part => IsPadded expr.toString.toList part) exprs parts)
    (each : ∀ expr ∈ exprs, ∀ part, IsPadded expr.toString.toList part →
      decode (String.ofList part) = .ok (value expr)) :
    (parts.map String.ofList).mapM decode = .ok (exprs.map value) := by
  induction matched with
  | nil => rfl
  | @cons expr part exprs parts padded later induction =>
      have here := each expr List.mem_cons_self part padded
      have behind := induction (fun other member => each other (List.mem_cons_of_mem _ member))
      rw [List.map_cons, List.mapM_cons, here, behind]
      rfl

theorem HoldsAssignments.splitAssignments {assignments : Option String}
    (holds : HoldsAssignments exprs assignments)
    (isAssignment : ∀ expr ∈ exprs, expr.IsAssignment) :
    splitAssignments assignments = .ok (exprs.map AbstractExpression.assignmentPair) := by
  cases holds with
  | none => rfl
  | text nonempty separated =>
      obtain ⟨parts, matched, split⟩ := split_holds isAssignment separated
      rw [SymbolicExecution.splitAssignments, split]
      apply mapM_parts matched
      exact fun expr member part padded => splitAssignment_padded (isAssignment expr member) padded

theorem HoldsAssignments.getClocksToReset {assignments : Option String}
    (holds : HoldsAssignments exprs assignments)
    (isAssignment : ∀ expr ∈ exprs, expr.IsAssignment) :
    getClocksToReset assignments = .ok (exprs.map AbstractExpression.target) := by
  cases holds with
  | none => rfl
  | text nonempty separated =>
      obtain ⟨parts, matched, split⟩ := split_holds isAssignment separated
      rw [SymbolicExecution.getClocksToReset, split]
      apply mapM_parts matched
      exact fun expr member part padded => clockToReset_padded (isAssignment expr member) padded

end Sets

/-- The targets and right-hand sides of the assignments to variables, in source order. -/
def dataPairs (clocks : List String) (assignments : List AbstractExpression) :
    List (String × String) :=
  (assignments.filter (fun expr => expr.target ∉ clocks)).map AbstractExpression.assignmentPair

/-- The clocks that are assigned to, in source order. -/
def clockNames (clocks : List String) (assignments : List AbstractExpression) : List String :=
  (assignments.filter (fun expr => expr.target ∈ clocks)).map AbstractExpression.target

open SymbolicExecution in
/-- The two texts are read as the assignments and the clocks, and are null if there are
none. -/
structure Encode (pairs : List (String × String)) (names : List String)
    (dataAssignments clockAssignments : Option String) : Prop where
  decoded : splitAssignments dataAssignments = .ok pairs
  updates : ∀ symbolicValues, updateSymbolicValueWithAssignments dataAssignments symbolicValues =
    .ok (pairs.foldl assign symbolicValues)
  clocks : getClocksToReset clockAssignments = .ok names
  noData : dataAssignments = none ↔ pairs = []
  noClocks : clockAssignments = none ↔ names = []

section RoundTrip

open SynchronousProduct (createAssignments)

variable {exprs clockExprs : List AbstractExpression}
  {dataAssignments clockAssignments : Option String}

theorem eq_none_iff_of_holds (holds : HoldsAssignments exprs dataAssignments) :
    dataAssignments = none ↔ exprs = [] := by
  cases holds with
  | none => simp
  | text nonempty separated => simp [nonempty]

theorem HoldsAssignments.encode (holds : HoldsAssignments exprs dataAssignments)
    (clocksHold : HoldsAssignments clockExprs clockAssignments)
    (isAssignment : ∀ expr ∈ exprs, expr.IsAssignment)
    (isClockAssignment : ∀ expr ∈ clockExprs, expr.IsAssignment) :
    Encode (exprs.map AbstractExpression.assignmentPair)
      (clockExprs.map AbstractExpression.target) dataAssignments clockAssignments := by
  have decoded := holds.splitAssignments isAssignment
  constructor
  · exact decoded
  · intro symbolicValues
    rw [SymbolicExecution.updateSymbolicValueWithAssignments_eq, decoded]
    rfl
  · exact clocksHold.getClocksToReset isClockAssignment
  · rw [eq_none_iff_of_holds holds, List.map_eq_nil_iff]
  · rw [eq_none_iff_of_holds clocksHold, List.map_eq_nil_iff]

variable {translationUnit : TranslationUnit} {assignments : List AbstractExpression}

/-- The two texts of a declaration hold the assignments of the two kinds. -/
theorem transformAssignment_getAssignments {trans : AbstractTransition}
    (written : trans.assignments = some assignments)
    (marked : ∀ expr ∈ assignments, expr.IsMarked translationUnit.clocks) :
    HoldsAssignments (assignments.filter (fun expr => expr.target ∉ translationUnit.clocks))
        (transformAssignment trans.getDataAssignments) ∧
      HoldsAssignments (assignments.filter (fun expr => expr.target ∈ translationUnit.clocks))
        (transformAssignment trans.getClockAssignments) := by
  have kept : ∀ {kind : AbstractExpression → Bool}, ∀ expr ∈ assignments.filter kind,
      expr.IsAssignment :=
    fun expr member => (marked expr (List.mem_filter.mp member).1).isAssignment
  have dataClass : assignments.filter (fun expr => !expr.isClockAssignment) =
      assignments.filter (fun expr => expr.target ∉ translationUnit.clocks) := by
    apply List.filter_congr
    intro expr member
    rw [(marked expr member).isClockAssignment]
    simp
  have clockClass : assignments.filter AbstractExpression.isClockAssignment =
      assignments.filter (fun expr => expr.target ∈ translationUnit.clocks) :=
    List.filter_congr (fun expr member => (marked expr member).isClockAssignment)
  constructor
  · rw [AbstractTransition.getDataAssignments, written, Option.map_some, dataClass]
    exact transformAssignment_holds kept
  · rw [AbstractTransition.getClockAssignments, written, Option.bind_some, clockClass]
    have clockKept := @kept (fun expr => decide (expr.target ∈ translationUnit.clocks))
    cases listed : assignments.filter (fun expr => expr.target ∈ translationUnit.clocks) with
    | nil => exact .none
    | cons first rest =>
        rw [listed] at clockKept
        exact transformAssignment_holds clockKept

/-- Compiling the assignments that the parser accepts loses nothing of them, and neither
does joining the texts of two declarations. -/
theorem statementRule_encode {otherUnit : TranslationUnit} {others : List AbstractExpression}
    {tokens rest otherTokens otherRest : List Token} {trans otherTrans : AbstractTransition}
    (accepted : statementRule translationUnit tokens = .ok (assignments, rest))
    (otherAccepted : statementRule otherUnit otherTokens = .ok (others, otherRest))
    (written : trans.assignments = some assignments)
    (otherWritten : otherTrans.assignments = some others) :
    Encode (dataPairs translationUnit.clocks assignments)
        (clockNames translationUnit.clocks assignments)
        (transformAssignment trans.getDataAssignments)
        (transformAssignment trans.getClockAssignments) ∧
      Encode (dataPairs translationUnit.clocks assignments ++ dataPairs otherUnit.clocks others)
        (clockNames translationUnit.clocks assignments ++ clockNames otherUnit.clocks others)
        (createAssignments (transformAssignment trans.getDataAssignments)
          (transformAssignment otherTrans.getDataAssignments))
        (createAssignments (transformAssignment trans.getClockAssignments)
          (transformAssignment otherTrans.getClockAssignments)) := by
  have marked := statementRule_assignments accepted
  have otherMarked := statementRule_assignments otherAccepted
  have kept : ∀ {kind : AbstractExpression → Bool}, ∀ expr ∈ assignments.filter kind,
      expr.IsAssignment :=
    fun expr member => (marked expr (List.mem_filter.mp member).1).isAssignment
  have otherKept : ∀ {kind : AbstractExpression → Bool}, ∀ expr ∈ others.filter kind,
      expr.IsAssignment :=
    fun expr member => (otherMarked expr (List.mem_filter.mp member).1).isAssignment
  have both : ∀ {kind otherKind : AbstractExpression → Bool},
      ∀ expr ∈ assignments.filter kind ++ others.filter otherKind, expr.IsAssignment := by
    intro kind otherKind expr member
    rcases List.mem_append.mp member with first | second
    · exact kept expr first
    · exact otherKept expr second
  obtain ⟨holds, clocksHold⟩ := transformAssignment_getAssignments written marked
  obtain ⟨otherHolds, otherClocksHold⟩ :=
    transformAssignment_getAssignments otherWritten otherMarked
  constructor
  · exact holds.encode clocksHold kept kept
  · have merged := (holds.createAssignments otherHolds).encode
      (clocksHold.createAssignments otherClocksHold) both both
    rw [List.map_append, List.map_append] at merged
    exact merged

end RoundTrip

namespace StatementInstance

def translationUnit : TranslationUnit := ⟨["c"], ∅, ∅⟩

def name (text : String) (isIdentifier : isIdentifier text = true) : Token :=
  .identifier text isIdentifier

/-- Two assignments to variables with one to a clock between them. -/
def mixed : List Token :=
  [.keyword .doTk, .keyword .openBrace, name "x" isIdentifier_x, .keyword .assignment,
    name "y" isIdentifier_y, .keyword .plusTk, .integer "1" (by decide), .keyword .bar,
    name "c" (by decide), .keyword .assignment, .integer "0" isNumeral_zero, .keyword .bar,
    name "y" isIdentifier_y, .keyword .assignment, .keyword .openParTk, name "x" isIdentifier_x,
    .keyword .closeParTk, .keyword .closeBrace]

/-- One assignment to a clock. -/
def reset : List Token :=
  [.keyword .doTk, name "c" (by decide), .keyword .assignment, .integer "0" isNumeral_zero]

def transition (assignments : List AbstractExpression) : AbstractTransition :=
  (AbstractTransition.new "s").setAssignments (some assignments)

end StatementInstance

open StatementInstance SynchronousProduct in
theorem statementRule_encode_mixed : ∃ assignments others,
    statementRule translationUnit mixed = .ok (assignments, []) ∧
      statementRule translationUnit reset = .ok (others, []) ∧
      Encode (dataPairs ["c"] assignments) (clockNames ["c"] assignments)
        (transformAssignment (transition assignments).getDataAssignments)
        (transformAssignment (transition assignments).getClockAssignments) ∧
      Encode (dataPairs ["c"] assignments ++ dataPairs ["c"] others)
        (clockNames ["c"] assignments ++ clockNames ["c"] others)
        (createAssignments (transformAssignment (transition assignments).getDataAssignments)
          (transformAssignment (transition others).getDataAssignments))
        (createAssignments (transformAssignment (transition assignments).getClockAssignments)
          (transformAssignment (transition others).getClockAssignments)) ∧
      dataPairs ["c"] assignments = [("x", "y + 1"), ("y", "(x)")] ∧
      clockNames ["c"] assignments ++ clockNames ["c"] others = ["c", "c"] := by
  have read : (statementRule translationUnit mixed).toOption.map (fun result =>
      decide (result.2 = [] ∧ dataPairs ["c"] result.1 = [("x", "y + 1"), ("y", "(x)")] ∧
        clockNames ["c"] result.1 = ["c"])) = some true := by decide +kernel
  have otherRead : (statementRule translationUnit reset).toOption.map (fun result =>
      decide (result.2 = [] ∧ clockNames ["c"] result.1 = ["c"])) = some true := by
    decide +kernel
  obtain ⟨⟨assignments, rest⟩, accepted, checked⟩ := exists_read read
  obtain ⟨rfl, pairs, names⟩ := of_decide_eq_true checked
  obtain ⟨⟨others, rest⟩, otherAccepted, otherChecked⟩ := exists_read otherRead
  obtain ⟨rfl, otherNames⟩ := of_decide_eq_true otherChecked
  have written : (transition assignments).assignments = some assignments := rfl
  have otherWritten : (transition others).assignments = some others := rfl
  obtain ⟨encode, merged⟩ :=
    statementRule_encode accepted otherAccepted written otherWritten
  refine ⟨assignments, others, accepted, otherAccepted, encode, merged, pairs, ?_⟩
  rw [names, otherNames]
  rfl

end Symbolrt
