import Symbolrt.Compiler.CompiledAssignments

/-!
# The order of assignments

The assignments of a set are carried out in the order in which they are listed.  The order
makes no difference, and every target gets its right-hand side under the values before the
transition, if no right-hand side mentions the target of another assignment.
-/

namespace Symbolrt

open Reading Assignments

namespace SymbolicExecution

/-- The name is a token of the text. -/
def Mentions (expression name : String) : Prop :=
  name ∈ Text.tokensWithDelimiters expressionDelimiters expression

theorem updateExpression_insert {expression name : String} (value : String)
    (symbolicValues : SymbolicMapping) (unmentioned : ¬ Mentions expression name) :
    updateExpression expression (symbolicValues.insert name value) =
      updateExpression expression symbolicValues := by
  apply List.foldl_ext
  intro result token member
  have different : token ≠ name := by
    rintro rfl
    exact unmentioned member
  rw [symbolicValueOf, symbolicValueOf, Finmap.lookup_insert_of_ne _ different]

end SymbolicExecution

open SymbolicExecution

section Parsed

variable {translationUnit : TranslationUnit} {assignments ordered : List AbstractExpression}
  {tokens rest : List Token}

/-- What a right-hand side mentions is one of its tokens. -/
theorem exists_token_of_mentions {expr other : AbstractExpression}
    (isAssignment : expr.IsAssignment)
    (otherAssignment : other.IsAssignment)
    (mentions : Mentions expr.rightHandSide.toString other.target) :
    ∃ token, token ∈ expr.rightHandSide.expression ∧ token.image = other.target := by
  obtain ⟨name, isIdentifier, rightTokens, recorded, _, inside, _⟩ := isAssignment.whole
  obtain ⟨otherName, otherIdentifier, _, otherRecorded, _⟩ := otherAssignment.whole
  have target : other.target = otherName := by
    rw [AbstractExpression.target, otherRecorded]
    rfl
  have rightHandSide : expr.rightHandSide.expression = rightTokens := by
    rw [AbstractExpression.rightHandSide, recorded]
    rfl
  obtain ⟨word, listed, spelled⟩ := List.mem_map.mp mentions
  rw [AbstractExpression.toString_toList, rightHandSide] at listed
  have ordinary : ∀ c ∈ word, isExpressionDelimiter c = false := by
    have chars : word = otherName.toList := by
      rw [← target, ← spelled, String.toList_ofList]
    rw [chars]
    exact Token.identifier_isWord otherIdentifier
  obtain ⟨token, member, image⟩ :=
    (Token.isSeparated inside).mem_tokenRuns_line listed ordinary
  refine ⟨token, rightHandSide ▸ member, ?_⟩
  apply String.toList_injective
  rw [← spelled, String.toList_ofList]
  exact image

theorem target_of_mem_dataPairs {clocks : List String} {pair : String × String}
    (member : pair ∈ dataPairs clocks assignments) :
    ∃ expr, expr ∈ assignments ∧ pair = expr.assignmentPair := by
  obtain ⟨expr, listed, rfl⟩ := List.mem_map.mp member
  exact ⟨expr, (List.mem_filter.mp listed).1, rfl⟩

/-- No right-hand side of the set mentions the target of another assignment. -/
def MentionsNoOther (assignments : List AbstractExpression) : Prop :=
  ∀ expr ∈ assignments, ∀ other ∈ assignments, other.target ≠ expr.target →
    ∀ token ∈ expr.rightHandSide.expression, token.image ≠ other.target

theorem MentionsNoOther.independent {clocks : List String}
    (mentionsNoOther : MentionsNoOther assignments)
    (isAssignment : ∀ expr ∈ assignments, expr.IsAssignment) :
    Independent Mentions (dataPairs clocks assignments) := by
  intro pair member other otherMember different mentions
  obtain ⟨expr, listed, rfl⟩ := target_of_mem_dataPairs member
  obtain ⟨otherExpr, otherListed, rfl⟩ := target_of_mem_dataPairs otherMember
  obtain ⟨token, inside, image⟩ := exists_token_of_mentions (isAssignment expr listed)
    (isAssignment otherExpr otherListed) mentions
  exact mentionsNoOther expr listed otherExpr otherListed different token inside image

/-- In whatever order the assignments of an accepted set are listed, every target gets its
right-hand side under the values before the transition. -/
theorem assignments_in_any_order
    (accepted : statementRule translationUnit tokens = .ok (assignments, rest))
    (distinct : ((dataPairs translationUnit.clocks assignments).map Prod.fst).Nodup)
    (mentionsNoOther : MentionsNoOther assignments) (symbolicValues : SymbolicMapping) :
    ∃ next, IsSimultaneous updateExpression (dataPairs translationUnit.clocks assignments)
        symbolicValues next ∧
      ∀ ordered : List AbstractExpression, ordered.Perm assignments →
        ∀ trans : AbstractTransition, trans.assignments = some ordered →
          updateSymbolicValueWithAssignments (transformAssignment trans.getDataAssignments)
            symbolicValues = .ok next := by
  have marked := statementRule_assignments accepted
  have isAssignment : ∀ expr ∈ assignments, expr.IsAssignment :=
    fun expr member => (marked expr member).isAssignment
  have unaffected : ∀ expression name value values, ¬ Mentions expression name →
      updateExpression expression (Finmap.insert name value values) =
        updateExpression expression values :=
    fun expression name value values => updateExpression_insert value values
  have atOnce := isSimultaneous_of_independent unaffected distinct
    (mentionsNoOther.independent isAssignment) symbolicValues
  refine ⟨_, atOnce, ?_⟩
  intro ordered permutation trans written
  have orderedMarked : ∀ expr ∈ ordered, expr.IsMarked translationUnit.clocks :=
    fun expr member => marked expr (permutation.mem_iff.mp member)
  have pairs : (dataPairs translationUnit.clocks ordered).Perm
      (dataPairs translationUnit.clocks assignments) :=
    (permutation.filter _).map _
  have orderedAtOnce := isSimultaneous_of_independent unaffected
    ((pairs.map Prod.fst).nodup_iff.mpr distinct)
    (fun pair member other otherMember => (mentionsNoOther.independent isAssignment) pair
      (pairs.mem_iff.mp member) other (pairs.mem_iff.mp otherMember)) symbolicValues
  obtain ⟨holds, _⟩ := transformAssignment_getAssignments written orderedMarked
  have decoded := holds.splitAssignments
    (fun expr member => (orderedMarked expr (List.mem_filter.mp member).1).isAssignment)
  rw [updateSymbolicValueWithAssignments_eq, decoded]
  exact congrArg Except.ok ((orderedAtOnce.perm pairs).unique atOnce)

end Parsed

namespace OrderInstance

open StatementInstance

/-- Two assignments in braces. -/
def both (first second : String) (firstIdentifier : isIdentifier first = true)
    (secondIdentifier : isIdentifier second = true) : List Token :=
  [.keyword .doTk, .keyword .openBrace, name "x" isIdentifier_x, .keyword .assignment,
    name first firstIdentifier, .keyword .bar, name "y" isIdentifier_y, .keyword .assignment,
    name second secondIdentifier, .keyword .closeBrace]

def separate : List Token := both "p" "q" (by decide) (by decide)

def swap : List Token := both "y" "x" isIdentifier_y isIdentifier_x

def symbolicValues : SymbolicMapping :=
  ((∅ : SymbolicMapping).insert "x" "x_0").insert "y" "y_0"

/-- The value of a variable after a set of assignments. -/
def valueAfter (assignments : List AbstractExpression) (variableName : String) : Option String :=
  (updateSymbolicValueWithAssignments (transformAssignment
    (transition assignments).getDataAssignments) symbolicValues).toOption.bind
      (Finmap.lookup variableName)

instance (assignments : List AbstractExpression) : Decidable (MentionsNoOther assignments) :=
  inferInstanceAs (Decidable (∀ expr ∈ assignments, ∀ other ∈ assignments, _ → _))

end OrderInstance

open OrderInstance in
theorem assignments_in_any_order_separate : ∃ assignments,
    statementRule StatementInstance.translationUnit separate = .ok (assignments, []) ∧
      ∃ next, IsSimultaneous updateExpression (dataPairs ["c"] assignments) symbolicValues next ∧
        ∀ ordered : List AbstractExpression, ordered.Perm assignments →
          ∀ trans : AbstractTransition, trans.assignments = some ordered →
            updateSymbolicValueWithAssignments (transformAssignment trans.getDataAssignments)
              symbolicValues = .ok next := by
  have read : (statementRule StatementInstance.translationUnit separate).toOption.map
      (fun result => decide (result.2 = [] ∧ MentionsNoOther result.1 ∧
        ((dataPairs ["c"] result.1).map Prod.fst).Nodup)) = some true := by decide +kernel
  obtain ⟨⟨assignments, rest⟩, accepted, checked⟩ := exists_read read
  obtain ⟨rfl, mentionsNoOther, distinct⟩ := of_decide_eq_true checked
  exact ⟨assignments, accepted,
    assignments_in_any_order accepted distinct mentionsNoOther symbolicValues⟩

open OrderInstance in
/-- A swap does not exchange the values, and its order matters. -/
theorem assignments_order_matters : ∃ assignments,
    statementRule StatementInstance.translationUnit swap = .ok (assignments, []) ∧
      ((dataPairs ["c"] assignments).map Prod.fst).Nodup ∧
      ¬ ∃ next, IsSimultaneous updateExpression (dataPairs ["c"] assignments) symbolicValues next ∧
        ∀ ordered : List AbstractExpression, ordered.Perm assignments →
          ∀ trans : AbstractTransition, trans.assignments = some ordered →
            updateSymbolicValueWithAssignments (transformAssignment trans.getDataAssignments)
              symbolicValues = .ok next := by
  have read : (statementRule StatementInstance.translationUnit swap).toOption.map
      (fun result => decide (result.2 = [] ∧ ((dataPairs ["c"] result.1).map Prod.fst).Nodup ∧
        valueAfter result.1 "x" = some "y_0" ∧ valueAfter result.1.reverse "x" = some "x_0")) =
          some true := by decide +kernel
  obtain ⟨⟨assignments, rest⟩, accepted, checked⟩ := exists_read read
  obtain ⟨rfl, distinct, forward, backward⟩ := of_decide_eq_true checked
  refine ⟨assignments, accepted, distinct, ?_⟩
  rintro ⟨next, _, same⟩
  have first := same assignments (.refl _) (StatementInstance.transition assignments) rfl
  have second := same assignments.reverse (List.reverse_perm _)
    (StatementInstance.transition assignments.reverse) rfl
  rw [valueAfter, first] at forward
  rw [valueAfter, second, forward] at backward
  exact absurd (Option.some.inj backward) (by decide)

end Symbolrt
