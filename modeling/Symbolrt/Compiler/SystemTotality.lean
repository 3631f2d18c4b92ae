import Symbolrt.Compiler.SyncClauses

/-!
# The rule of a text is never cut off

Every repeated rule passes over a token, so the loops of the rules end within the
length of their input: the rule of a text returns or throws.
-/

namespace Symbolrt

open Reading

section Sections

variable {α : Type} {value : α} {tokens : List Token} {limit : Nat}

theorem identifierSection_ends (word : Keyword) (add : Token → α → α) (value : α)
    (short : tokens.length ≤ limit) : Ends limit (identifierSection word add value tokens) := by
  apply (Ends.consumeToken _ short).bind
  intro opened afterWord shorter
  apply Ends.bind
  · apply (Ends.consumeToken _ (Nat.le_of_lt shorter)).bind
    intro first afterFirst shorter
    apply Ends.repeatWhile ?_ _ shorter
    intro value tokens
    apply (Ends.consumeToken _ (Nat.le_refl _)).bind
    intro comma afterComma shorter
    apply (Ends.consumeToken _ (Nat.le_of_lt shorter)).bind
    exact fun aux rest shorter => Ends.ok _ shorter
  · intro all afterList shorter
    apply (Ends.consumeToken _ (Nat.le_of_lt shorter)).bind
    exact fun semicolon rest shorter => Ends.ok _ shorter

theorem optionalSection_ends {word : Keyword}
    {rule : α → List Token → Except ReadFailure (α × List Token)} (short : tokens.length < limit)
    (ends : Ends limit (rule value tokens)) :
    Ends limit (optionalSection word rule value tokens) := by
  apply (Ends.optionalPart short ends).bind
  exact fun read rest shorter => Ends.ok _ shorter

theorem repeatRule_ends {opens : Token → Bool}
    {rule : α → List Token → Except ReadFailure (α × List Token)}
    (ends : ∀ value tokens, Ends tokens.length (rule value tokens))
    (short : tokens.length ≤ limit) : Ends limit (repeatRule opens rule value tokens) := by
  have first : Ends limit (rule value tokens) :=
    ⟨(ends value tokens).settled,
      fun returned => Nat.lt_of_lt_of_le ((ends value tokens).shorter returned) short⟩
  apply first.bind
  exact fun value rest shorter => Ends.repeatWhile ends value shorter

theorem primitiveTypeRule_ends (short : tokens.length ≤ limit) :
    Ends limit (primitiveTypeRule tokens) := by
  rw [primitiveTypeRule.eq_def]
  split
  · exact Ends.ok _ short
  · exact Ends.ok _ short
  · exact Ends.failed (fun same => by cases same)

end Sections

section Rules

variable {tokens : List Token} {limit : Nat}

theorem gateTypes_ends (short : tokens.length ≤ limit) : Ends limit (gateTypes tokens) := by
  apply (Ends.consumeToken _ short).bind
  intro opened afterOpen shorter
  apply (Ends.optionalPart shorter ?_).bind
  · intro types afterTypes shorter
    apply (Ends.consumeToken _ (Nat.le_of_lt shorter)).bind
    exact fun closed rest shorter => Ends.ok _ shorter
  · apply (primitiveTypeRule_ends (Nat.le_of_lt shorter)).bind
    intro type afterFirst shorter
    apply Ends.repeatWhile ?_ _ shorter
    intro types tokens
    apply (Ends.consumeToken _ (Nat.le_refl _)).bind
    intro comma afterComma shorter
    apply (primitiveTypeRule_ends (Nat.le_of_lt shorter)).bind
    exact fun type rest shorter => Ends.ok _ shorter

theorem gateRule_ends (unit : SystemUnit) (tokens : List Token) :
    Ends tokens.length (gateRule unit tokens) := by
  apply (Ends.consumeToken _ (Nat.le_refl _)).bind
  intro tk afterName shorter
  apply (Ends.optionalPart shorter (gateTypes_ends (Nat.le_of_lt shorter))).bind
  intro types afterTypes shorter
  apply (Ends.consumeToken _ (Nat.le_of_lt shorter)).bind
  exact fun semicolon rest shorter => Ends.ok _ shorter

theorem constantRule_ends (value : Unit) (tokens : List Token) :
    Ends tokens.length (constantRule value tokens) := by
  apply (Ends.consumeToken _ (Nat.le_refl _)).bind
  intro name afterName shorter
  apply (Ends.consumeToken _ (Nat.le_of_lt shorter)).bind
  intro symbol afterSymbol shorter
  apply (Ends.consumeToken _ (Nat.le_of_lt shorter)).bind
  intro constant afterConstant shorter
  apply (Ends.consumeToken _ (Nat.le_of_lt shorter)).bind
  exact fun semicolon rest shorter => Ends.ok _ shorter

theorem constantSection_ends (short : tokens.length ≤ limit) :
    Ends limit (constantSection () tokens) := by
  apply (Ends.consumeToken _ short).bind
  exact fun opened rest shorter => repeatRule_ends constantRule_ends (Nat.le_of_lt shorter)

theorem variableRule_ends (process : AbstractTIOSTS) (tokens : List Token) :
    Ends tokens.length (variableRule process tokens) := by
  apply (Ends.consumeToken _ (Nat.le_refl _)).bind
  intro name afterName shorter
  apply (Ends.consumeToken _ (Nat.le_of_lt shorter)).bind
  intro colon afterColon shorter
  apply (primitiveTypeRule_ends (Nat.le_of_lt shorter)).bind
  intro type afterType shorter
  apply (Ends.consumeToken _ (Nat.le_of_lt shorter)).bind
  exact fun semicolon rest shorter => Ends.ok _ shorter

theorem variablesSection_ends (process : AbstractTIOSTS) (short : tokens.length ≤ limit) :
    Ends limit (variablesSection process tokens) := by
  apply (Ends.consumeToken _ short).bind
  exact fun opened rest shorter => Ends.repeatWhile variableRule_ends _ shorter

theorem stateDeclarationRule_ends (process : AbstractTIOSTS) (tokens : List Token) :
    Ends tokens.length (stateDeclarationRule process tokens) := by
  rw [stateDeclarationRule]
  split
  · apply (Ends.consumeToken _ (Nat.le_refl _)).bind
    intro init afterInit shorter
    apply (Ends.consumeToken _ (Nat.le_of_lt shorter)).bind
    intro colon afterColon shorter
    apply (Ends.consumeToken _ (Nat.le_of_lt shorter)).bind
    intro stateTk afterState shorter
    apply (Ends.consumeToken _ (Nat.le_of_lt shorter)).bind
    exact fun semicolon rest shorter => Ends.ok _ shorter
  · apply (Ends.consumeToken _ (Nat.le_refl _)).bind
    intro stateTk afterState shorter
    apply (Ends.consumeToken _ (Nat.le_of_lt shorter)).bind
    exact fun semicolon rest shorter => Ends.ok _ shorter

theorem ReadsClause.ends {α : Type} {word : Keyword}
    {rule : List Token → Except ReadFailure (α × List Token)} {fits : α → List Token → Prop}
    (reads : ReadsClause word rule fits) (settled : ∀ tokens, Settled (rule tokens))
    (short : tokens.length < limit) : Ends limit (rule tokens) := by
  apply Ends.of_suffix short (settled tokens)
  intro value rest returned
  obtain ⟨body, rfl, _, _⟩ := reads returned
  exact ⟨.keyword word :: body, rfl⟩

theorem transitionRule_ends (tables : TranslationUnit) (tokens : List Token) :
    Ends tokens.length (transitionRule tables tokens) := by
  apply (Ends.consumeToken _ (Nat.le_refl _)).bind
  intro opened afterFrom shorter
  apply (Ends.consumeToken _ (Nat.le_of_lt shorter)).bind
  intro source afterSource shorter
  apply (Ends.optionalPart shorter
    (ReadsClause.ends clockGuardRule_readsClause clockGuardRule_settled shorter)).bind
  intro clockExpr afterWhen shorter
  apply (Ends.optionalPart shorter
    (ReadsClause.ends dataGuardRule_readsClause dataGuardRule_settled shorter)).bind
  intro dataExpr afterIf shorter
  apply (Ends.optionalPart shorter
    (ReadsClause.ends (actionRule_readsClause tables) (actionRule_settled tables) shorter)).bind
  intro act afterSynk shorter
  apply (Ends.optionalPart shorter
    (ReadsClause.ends (statementRule_readsClause _) (statementRule_settled _) shorter)).bind
  intro assignments afterDo shorter
  apply (Ends.optionalPart shorter
    (ReadsClause.ends deadlineClause_readsClause deadlineClause_settled shorter)).bind
  intro deadlineType afterDeadline shorter
  apply (Ends.consumeToken _ (Nat.le_of_lt shorter)).bind
  intro arrow afterTo shorter
  apply (Ends.consumeToken _ (Nat.le_of_lt shorter)).bind
  intro destination afterDestination shorter
  apply (Ends.consumeToken _ (Nat.le_of_lt shorter)).bind
  exact fun finish rest shorter => Ends.ok _ shorter

theorem processTransition_ends (current : AbstractTIOSTS × SystemUnit) (tokens : List Token) :
    Ends tokens.length (processTransition current tokens) := by
  apply (transitionRule_ends current.2.toTranslationUnit tokens).bind
  exact fun read rest shorter => Ends.ok _ shorter

theorem gateParameters_settled (params : List String) (types : List DataType)
    (actparams : List TypedElement) : Settled (gateParameters params types actparams) := by
  rw [gateParameters]
  induction params.zipIdx generalizing actparams with
  | nil => exact Settled.ok _
  | cons param params induction =>
      rw [List.foldlM_cons]
      apply Settled.bind ?_ (fun value _ => induction value)
      obtain ⟨name, position⟩ := param
      cases found : types[position]? with
      | none =>
          simp only [found]
          exact fun same => by cases same
      | some type =>
          simp only [found]
          exact Settled.ok _

theorem actionParameters_settled (unit : SystemUnit) : Settled (actionParameters unit) := by
  rw [actionParameters]
  generalize ([] : List TypedElement) = actparams
  induction unit.gateIdentifiers generalizing actparams with
  | nil => exact Settled.ok _
  | cons gate gates induction =>
      rw [List.foldlM_cons]
      apply Settled.bind ?_ (fun value _ => induction value)
      split
      · exact gateParameters_settled _ _ _
      · exact Settled.ok _

theorem processRule_ends (unit : SystemUnit) (tokens : List Token) :
    Ends tokens.length (processRule unit tokens) := by
  apply (Ends.consumeToken _ (Nat.le_refl _)).bind
  intro opened afterWord shorter
  apply (Ends.consumeToken _ (Nat.le_of_lt shorter)).bind
  intro proc afterName shorter
  apply (Ends.consumeToken _ (Nat.le_of_lt shorter)).bind
  intro semicolon afterSemicolon shorter
  apply (optionalSection_ends shorter
    (identifierSection_ends _ _ _ (Nat.le_of_lt shorter))).bind
  intro withInputs afterInputs shorter
  apply (identifierSection_ends _ _ _ (Nat.le_of_lt shorter)).bind
  intro withOutputs afterOutputs shorter
  apply (optionalSection_ends shorter
    (identifierSection_ends _ _ _ (Nat.le_of_lt shorter))).bind
  intro withInternals afterInternals shorter
  apply (optionalSection_ends shorter (variablesSection_ends _ (Nat.le_of_lt shorter))).bind
  intro withVariables afterVariables shorter
  apply (Ends.consumeToken _ (Nat.le_of_lt shorter)).bind
  intro stateWord afterStateWord shorter
  apply (repeatRule_ends stateDeclarationRule_ends (Nat.le_of_lt shorter)).bind
  intro withStates afterStates shorter
  apply (Ends.consumeToken _ (Nat.le_of_lt shorter)).bind
  intro transitionWord afterTransitionWord shorter
  apply (repeatRule_ends processTransition_ends (Nat.le_of_lt shorter)).bind
  intro current rest shorter
  apply Ends.after (actionParameters_settled _)
  exact fun actparams => Ends.ok _ shorter

theorem systemHeader_ends (unit : SystemUnit) (short : tokens.length ≤ limit) :
    Ends limit (systemHeader unit tokens) := by
  apply (Ends.consumeToken _ short).bind
  intro opened afterWord shorter
  apply (Ends.consumeToken _ (Nat.le_of_lt shorter)).bind
  intro name afterName shorter
  apply (Ends.consumeToken _ (Nat.le_of_lt shorter)).bind
  intro semicolon afterSemicolon shorter
  apply (optionalSection_ends shorter (constantSection_ends (Nat.le_of_lt shorter))).bind
  intro constants afterConstants shorter
  apply (optionalSection_ends shorter
    (identifierSection_ends _ _ _ (Nat.le_of_lt shorter))).bind
  intro clocked afterClocks shorter
  apply (Ends.consumeToken _ (Nat.le_of_lt shorter)).bind
  exact fun gate rest shorter => repeatRule_ends gateRule_ends (Nat.le_of_lt shorter)

end Rules

/-- The rule of a text returns, or throws one of the exceptions of the source. -/
theorem systemRule_settled (specificationID : String) (tokens : List Token) :
    Settled (systemRule specificationID tokens) := by
  apply (systemHeader_ends _ (Nat.le_refl _)).settled.bind
  intro declared _
  apply (repeatRule_ends processRule_ends (Nat.le_refl _)).settled.bind
  rintro ⟨unit, rest⟩ _
  cases rest with
  | nil => exact Settled.ok _
  | cons token rest => exact fun same => by cases same

end Symbolrt
