import Symbolrt.Compiler.SystemRule
import Symbolrt.Compiler.SystemTotality
import Symbolrt.Compiler.TransitionTexts

/-!
# The texts of systems

What may be written as the text of a system, what it means, and that the rule of a
text reads these texts and no others.
-/

namespace Symbolrt

open Reading

/-- Texts of which there is at least one. -/
structure AtLeastOne (T : Type) where
  first : T
  others : List T

namespace AtLeastOne

variable {T : Type}

def toList (texts : AtLeastOne T) : List T := texts.first :: texts.others

/-- The first text and the others, as the readers return them. -/
def parts (texts : AtLeastOne T) : T × List T := (texts.first, texts.others)

theorem parts_surjective : Function.Surjective (parts (T := T)) := by
  rintro ⟨first, others⟩
  exact ⟨⟨first, others⟩, rfl⟩

end AtLeastOne

section Sections

variable {α T : Type}

theorem identifierList_reads (add : Token → α → α) (value : α) :
    Reads (identifierList add value)
      (fun names : AtLeastOne Identifier => commaSeparated Subtype.val names.toList)
      (fun names => .ok (names.toList.foldl (fun value name => add name.1 value) value))
      (fun _ rest => nextIs (Token.is .comma) rest = false) := by
  refine Reads.ofTexts (by
      apply Reads.andThen (Reads.token Token.isIdentifierToken)
      intro aux
      exact nextNames_reads add _)
    AtLeastOne.parts AtLeastOne.parts_surjective (fun _ => rfl) (fun _ => rfl) ?_
  exact fun text rest => (and_iff_left (fun _ => trivial)).symm

/-- A section of comma separated names, closed by a semicolon. -/
def writeSection (word : Keyword) (names : AtLeastOne Identifier) : List Token :=
  .keyword word :: (commaSeparated Subtype.val names.toList ++ [.keyword .semicolon])

theorem identifierSection_reads (word : Keyword) (add : Token → α → α) (value : α) :
    Reads (identifierSection word add value) (writeSection word)
      (fun names => .ok (names.toList.foldl (fun value name => add name.1 value) value))
      (fun _ _ => True) := by
  refine Reads.ofTexts (by
      apply Reads.andThen (reads_keyword word)
      intro _
      apply Reads.bind (identifierList_reads add value)
      · intro value
        apply Reads.andThen (reads_keyword .semicolon)
        intro _
        exact Reads.done _
      · exact fun _ _ _ _ => rfl)
    (fun names => ((), names, (), ())) ?_ (fun _ => rfl) (fun _ => rfl) (fun _ _ => Iff.rfl)
  rintro ⟨⟨⟩, names, ⟨⟩, ⟨⟩⟩
  exact ⟨names, rfl⟩

variable {write : T → List Token} {stops : T → List Token → Prop} {add : α → T → α}
  {stop : List Token → Prop} {meaning : α → T → Except ReadFailure α}
  {rule : α → List Token → Except ReadFailure (α × List Token)}

theorem optionalSection_reads {word : Keyword}
    (reads : ∀ value, Reads (rule value) write (fun text => .ok (add value text)) stops)
    (opened : ∀ text rest, nextIs (Token.is word) (write text ++ rest) = true) (value : α) :
    Reads (optionalSection word rule value) (fun text => text.elim [] write)
      (fun text => .ok (text.elim value (add value))) (optionalStops (Token.is word) stops) := by
  refine Reads.ofTexts (by
      exact ((reads value).optionalPart opened none).returns (fun read => read.getD value)
        (fun _ _ => rfl))
    id Function.surjective_id (fun _ => rfl) ?_ (fun _ _ => Iff.rfl)
  rintro (_ | text)
  · rfl
  · rfl

theorem repeatRule_reads {opens : Token → Bool}
    (reads : ∀ value, Reads (rule value) write (meaning value) (fun _ => stop))
    (opened : ∀ text rest, nextIs opens (write text ++ rest) = true)
    (follows : ∀ text rest, stop (write text ++ rest)) (value : α) :
    Reads (repeatRule opens rule value)
      (fun texts : AtLeastOne T => texts.toList.flatMap write)
      (fun texts => texts.toList.foldlM meaning value)
      (fun _ rest => nextIs opens rest = false ∧ stop rest) := by
  refine Reads.ofTexts (by
      apply Reads.sequence (reads value)
      intro value
      exact Reads.repeatWhile reads opened follows value)
    AtLeastOne.parts AtLeastOne.parts_surjective (fun _ => rfl) (fun _ => rfl) ?_
  rintro ⟨first, _ | ⟨other, others⟩⟩ rest
  · exact ⟨fun both => ⟨both.2, both.1, fun _ => both.2⟩, fun both => ⟨both.2.1, both.1⟩⟩
  · have begins : stop ((other :: others).flatMap write ++ rest) := by
      rw [List.flatMap_cons, List.append_assoc]
      exact follows other _
    exact ⟨fun both => ⟨begins, both.1, fun _ => both.2⟩,
      fun both => ⟨both.2.1, both.2.2 (List.cons_ne_nil _ _)⟩⟩

theorem repeatRule_readsAll {opens : Token → Bool}
    (reads : ∀ value, Reads (rule value) write (fun text => .ok (add value text)) (fun _ _ => True))
    (opened : ∀ text rest, nextIs opens (write text ++ rest) = true) (value : α) :
    Reads (repeatRule opens rule value)
      (fun texts : AtLeastOne T => texts.toList.flatMap write)
      (fun texts => .ok (texts.toList.foldl add value))
      (fun _ rest => nextIs opens rest = false) := by
  refine (repeatRule_reads reads opened (fun _ _ => trivial) value).ofTexts id
    Function.surjective_id (fun _ => rfl) ?_ (fun _ _ => (and_iff_left trivial).symm)
  intro texts
  exact (List.foldlM_pure (m := Except ReadFailure) (f := add)).symm

end Sections

def typeToken : DataType → Token
  | .integer => .keyword .intTk
  | .boolean => .keyword .boolTk

theorem primitiveTypeRule_reads :
    Reads primitiveTypeRule (fun type => [typeToken type]) (fun type => .ok type)
      (fun _ _ => True) := by
  constructor
  · intro type rest _
    cases type with
    | _ => rfl
  · intro tokens type rest returned
    rw [primitiveTypeRule.eq_def] at returned
    split at returned
    · cases returned
      exact ⟨.integer, rfl, trivial⟩
    · cases returned
      exact ⟨.boolean, rfl, trivial⟩
    · cases returned

/-- The types of a gate in parentheses. -/
def writeTypes (types : List DataType) : List Token :=
  .keyword .openParTk :: (commaSeparated typeToken types ++ [.keyword .closeParTk])

theorem nextType_reads (types : List DataType) :
    Reads (fun tokens => do
        let (_, tokens) ← consumeToken (Token.is .comma) tokens
        let (type, tokens) ← primitiveTypeRule tokens
        return (types ++ [type], tokens))
      (fun type => [.keyword .comma, typeToken type])
      (fun type => .ok (types ++ [type])) (fun _ _ => True) := by
  refine Reads.ofTexts (by
      apply Reads.andThen (reads_keyword .comma)
      intro _
      exact primitiveTypeRule_reads.returns (fun type => types ++ [type]) (fun _ _ => rfl))
    (fun type => ((), type)) ?_ (fun _ => rfl) (fun _ => rfl) (fun _ _ => Iff.rfl)
  rintro ⟨⟨⟩, type⟩
  exact ⟨type, rfl⟩

theorem foldl_append_singleton {T : Type} (added texts : List T) :
    added.foldl (fun texts text => texts ++ [text]) texts = texts ++ added := by
  induction added generalizing texts with
  | nil => simp
  | cons text added induction => simp [induction]

theorem isPrimitiveType_typeToken (type : DataType) (rest : List Token) :
    nextIs isPrimitiveType (typeToken type :: rest) = true := by
  cases type with
  | _ => rfl

theorem gateTypes_reads :
    Reads gateTypes writeTypes (fun types => .ok types) (fun _ _ => True) := by
  refine Reads.ofTexts (by
      apply Reads.andThen (reads_keyword .openParTk)
      intro _
      apply Reads.bind (Reads.optionalPart (Reads.andThen primitiveTypeRule_reads
        (fun type => Reads.repeatAll nextType_reads (fun _ _ => rfl) (fun _ _ => trivial) [type]))
        (fun text _ => by exact isPrimitiveType_typeToken text.1 _) none)
      · intro types
        apply Reads.andThen (reads_keyword .closeParTk)
        intro _
        exact Reads.done _
      · rintro (_ | text) other rest _
        · rfl
        · exact ⟨rfl, fun _ => trivial⟩)
    (fun types => ((), firstAndOthers types, (), ())) ?_ ?_ ?_ (fun _ _ => Iff.rfl)
  · rintro ⟨⟨⟩, types, ⟨⟩, ⟨⟩⟩
    obtain ⟨found, rfl⟩ := firstAndOthers_surjective types
    exact ⟨found, rfl⟩
  · rintro (_ | ⟨first, others⟩)
    · rfl
    · rfl
  · rintro (_ | ⟨first, others⟩)
    · rfl
    · exact congrArg Except.ok (foldl_append_singleton others [first]).symm

/-- The declaration of a gate. `none` stands for one without parentheses. -/
structure GateText where
  name : Identifier
  types : Option (List DataType)

namespace GateText

def write (text : GateText) : List Token :=
  text.name.1 :: (text.types.elim [] writeTypes ++ [.keyword .semicolon])

/-- The unit after the declaration is read. -/
def meaning (unit : SystemUnit) (text : GateText) : SystemUnit :=
  (unit.addGateIdentifier text.name.1).putTypes text.name.1 (text.types.getD [])

end GateText

theorem gateRule_reads (unit : SystemUnit) :
    Reads (gateRule unit) GateText.write (fun text => .ok (text.meaning unit))
      (fun _ _ => True) := by
  refine Reads.ofTexts (by
      apply Reads.andThen (Reads.token Token.isIdentifierToken)
      intro tk
      apply Reads.bind (gateTypes_reads.optionalPart (fun _ _ => rfl) none)
      · intro types
        apply Reads.andThen (reads_keyword .semicolon)
        intro _
        exact Reads.done _
      · rintro (_ | types) other rest _
        · rfl
        · trivial)
    (fun text => (text.name, text.types, (), ())) ?_ (fun _ => rfl) ?_ (fun _ _ => Iff.rfl)
  · rintro ⟨name, types, ⟨⟩, ⟨⟩⟩
    exact ⟨⟨name, types⟩, rfl⟩
  · rintro ⟨name, _ | types⟩
    · rfl
    · rfl

/-- The declaration of a constant. -/
structure ConstantText where
  name : Identifier
  value : TokenOf Token.isConstant

def ConstantText.write (text : ConstantText) : List Token :=
  [text.name.1, .keyword .equalsTk, text.value.1, .keyword .semicolon]

def writeConstants (texts : AtLeastOne ConstantText) : List Token :=
  .keyword .constTk :: texts.toList.flatMap ConstantText.write

theorem constantRule_reads (value : Unit) :
    Reads (constantRule value) ConstantText.write (fun _ => .ok ()) (fun _ _ => True) := by
  refine Reads.ofTexts (by
      apply Reads.andThen (Reads.token Token.isIdentifierToken)
      intro _
      apply Reads.andThen (reads_keyword .equalsTk)
      intro _
      apply Reads.andThen (Reads.token Token.isConstant)
      intro _
      apply Reads.andThen (reads_keyword .semicolon)
      intro _
      exact Reads.done _)
    (fun text => (text.name, (), text.value, (), ())) ?_ (fun _ => rfl) (fun _ => rfl)
    (fun _ _ => Iff.rfl)
  rintro ⟨name, ⟨⟩, value, ⟨⟩, ⟨⟩⟩
  exact ⟨⟨name, value⟩, rfl⟩

theorem constantSection_reads (value : Unit) :
    Reads (constantSection value) writeConstants (fun _ => .ok ())
      (fun _ rest => nextIs Token.isIdentifierToken rest = false) := by
  refine Reads.ofTexts (by
      apply Reads.andThen (reads_keyword .constTk)
      intro _
      exact repeatRule_readsAll constantRule_reads (fun text _ => by exact text.name.2) ())
    (fun texts => ((), texts)) ?_ (fun _ => rfl) (fun _ => rfl) (fun _ _ => Iff.rfl)
  rintro ⟨⟨⟩, texts⟩
  exact ⟨texts, rfl⟩

/-- The declaration of a variable. -/
structure VariableText where
  name : Identifier
  type : DataType

namespace VariableText

def write (text : VariableText) : List Token :=
  [text.name.1, .keyword .colon, typeToken text.type, .keyword .semicolon]

/-- The process after the declaration is read. -/
def meaning (process : AbstractTIOSTS) (text : VariableText) : AbstractTIOSTS :=
  process.addVariable ⟨text.name.1.image, text.type⟩

end VariableText

def writeVariables (texts : List VariableText) : List Token :=
  .keyword .variablesTk :: texts.flatMap VariableText.write

theorem variableRule_reads (process : AbstractTIOSTS) :
    Reads (variableRule process) VariableText.write (fun text => .ok (text.meaning process))
      (fun _ _ => True) := by
  refine Reads.ofTexts (by
      apply Reads.andThen (Reads.token Token.isIdentifierToken)
      intro aux
      apply Reads.andThen (reads_keyword .colon)
      intro _
      apply Reads.andThen primitiveTypeRule_reads
      intro type
      apply Reads.andThen (reads_keyword .semicolon)
      intro _
      exact Reads.done _)
    (fun text => (text.name, (), text.type, (), ())) ?_ (fun _ => rfl) (fun _ => rfl)
    (fun _ _ => Iff.rfl)
  rintro ⟨name, ⟨⟩, type, ⟨⟩, ⟨⟩⟩
  exact ⟨⟨name, type⟩, rfl⟩

theorem variablesSection_reads (process : AbstractTIOSTS) :
    Reads (variablesSection process) writeVariables
      (fun texts => .ok (texts.foldl VariableText.meaning process))
      (fun _ rest => nextIs Token.isIdentifierToken rest = false) := by
  refine Reads.ofTexts (by
      apply Reads.andThen (reads_keyword .variablesTk)
      intro _
      exact Reads.repeatAll variableRule_reads (fun text _ => by exact text.name.2)
        (fun _ _ => trivial) process)
    (fun texts => ((), texts)) ?_ (fun _ => rfl) (fun _ => rfl)
    (fun _ _ => (and_iff_left (fun _ => trivial)).symm)
  rintro ⟨⟨⟩, texts⟩
  exact ⟨texts, rfl⟩

/-- The declaration of a state. -/
structure StateText where
  name : Identifier
  isInitial : Bool

namespace StateText

def write (text : StateText) : List Token :=
  if text.isInitial then
    [.keyword .initStateTk, .keyword .colon, text.name.1, .keyword .semicolon]
  else
    [text.name.1, .keyword .semicolon]

/-- The process after the declaration is read. -/
def meaning (process : AbstractTIOSTS) (text : StateText) : AbstractTIOSTS :=
  process.addState ⟨text.name.1.image, text.isInitial⟩

/-- The two ways to declare a state. -/
def parts (text : StateText) :
    (Unit × Unit × Identifier × Unit × Unit) ⊕ (Identifier × Unit × Unit) :=
  if text.isInitial then .inl ((), (), text.name, (), ()) else .inr (text.name, (), ())

end StateText

theorem not_keyword_of_identifier (name : Identifier) (word : Keyword) (rest : List Token) :
    nextIs (Token.is word) (name.1 :: rest) = false := by
  obtain ⟨token, identified⟩ := name
  cases token with
  | keyword other => cases identified
  | identifier name isIdentifier => rfl
  | integer numeral isNumeral => rfl

theorem stateDeclarationRule_reads (process : AbstractTIOSTS) :
    Reads (stateDeclarationRule process) StateText.write (fun text => .ok (text.meaning process))
      (fun _ _ => True) := by
  refine Reads.ofTexts (by
      apply Reads.choose
      · apply Reads.andThen (reads_keyword .initStateTk)
        intro _
        apply Reads.andThen (reads_keyword .colon)
        intro _
        apply Reads.andThen (Reads.token Token.isIdentifierToken)
        intro stateTk
        apply Reads.andThen (reads_keyword .semicolon)
        intro _
        exact Reads.done _
      · apply Reads.andThen (Reads.token Token.isIdentifierToken)
        intro stateTk
        apply Reads.andThen (reads_keyword .semicolon)
        intro _
        exact Reads.done _
      · exact fun _ _ => rfl
      · exact fun text _ => not_keyword_of_identifier text.1 _ _)
    StateText.parts ?_ ?_ ?_ ?_
  · rintro (⟨⟨⟩, ⟨⟩, name, ⟨⟩, ⟨⟩⟩ | ⟨name, ⟨⟩, ⟨⟩⟩)
    · exact ⟨⟨name, true⟩, rfl⟩
    · exact ⟨⟨name, false⟩, rfl⟩
  · rintro ⟨name, _ | _⟩
    · rfl
    · rfl
  · rintro ⟨name, _ | _⟩
    · rfl
    · rfl
  · rintro ⟨name, _ | _⟩ rest
    · exact Iff.rfl
    · exact Iff.rfl

theorem opensStateDeclaration_write (text : StateText) (rest : List Token) :
    nextIs opensStateDeclaration (text.write ++ rest) = true := by
  obtain ⟨name, _ | _⟩ := text
  · show opensStateDeclaration name.1 = true
    rw [opensStateDeclaration, name.2, Bool.or_true]
  · rfl

/-- A process while its transitions are read, and the tables of all processes. -/
def enterTransition (current : AbstractTIOSTS × SystemUnit) (text : TransitionText) :
    AbstractTIOSTS × SystemUnit :=
  (current.1.addTransition (text.transition current.2.toTranslationUnit),
    current.2.setTables (text.tables current.2.toTranslationUnit))

theorem processTransition_reads (current : AbstractTIOSTS × SystemUnit) :
    Reads (processTransition current) TransitionText.write
      (fun text => .ok (enterTransition current text)) (fun _ _ => True) := by
  refine Reads.ofTexts (by
      exact (transitionRule_reads current.2.toTranslationUnit).returns
        (fun read => (current.1.addTransition read.1, current.2.setTables read.2))
        (fun _ _ => rfl))
    id Function.surjective_id (fun _ => rfl) (fun _ => rfl) (fun _ _ => Iff.rfl)

/-- What a process may write, section by section. Output actions, states and transitions
cannot be left out. -/
structure ProcessText where
  name : Identifier
  inputs : Option (AtLeastOne Identifier)
  outputs : AtLeastOne Identifier
  internals : Option (AtLeastOne Identifier)
  modelVariables : Option (List VariableText)
  states : AtLeastOne StateText
  transitions : AtLeastOne TransitionText

/-- The process takes its parameters from the gates and is finished. -/
def finishModel (current : AbstractTIOSTS × SystemUnit) : Except ReadFailure SystemUnit := do
  let actparams ← actionParameters current.2
  let process := actparams.foldl (fun process tp => process.addParameter tp) current.1
  return current.2.putModel process.finishProcess

namespace ProcessText

/-- The tokens of a process in the order of its sections. -/
def write (text : ProcessText) : List Token :=
  .keyword .processTk :: text.name.1 :: .keyword .semicolon ::
    (text.inputs.elim [] (writeSection .inputActTk) ++ (writeSection .outputActTk text.outputs ++
      (text.internals.elim [] (writeSection .internalActTk) ++
        (text.modelVariables.elim [] writeVariables ++ .keyword .stateTk ::
          (text.states.toList.flatMap StateText.write ++ .keyword .transitionTk ::
            text.transitions.toList.flatMap TransitionText.write)))))

/-- The names of a section, each added to the process. -/
def addNames (add : Token → AbstractTIOSTS → AbstractTIOSTS) (process : AbstractTIOSTS)
    (names : AtLeastOne Identifier) : AbstractTIOSTS :=
  names.toList.foldl (fun process name => add name.1 process) process

/-- The process up to its transitions. -/
def declared (specificationID : String) (text : ProcessText) : AbstractTIOSTS :=
  let process := AbstractTIOSTS.new text.name.1.image
  let process := process.setIsSpecification (text.name.1.image = specificationID)
  let process := text.inputs.elim process (addNames setInputAction process)
  let process := addNames setOutputAction process text.outputs
  let process := text.internals.elim process (addNames setInternalAction process)
  let process := text.modelVariables.elim process (List.foldl VariableText.meaning process)
  text.states.toList.foldl StateText.meaning process

/-- The unit after the process: its declarations, its transitions entered one after the
other, and the parameters found in the table. -/
def meaning (unit : SystemUnit) (text : ProcessText) : Except ReadFailure SystemUnit :=
  finishModel (text.transitions.toList.foldl enterTransition
    (text.declared unit.specificationID, unit))

end ProcessText

theorem finishes (process : AbstractTIOSTS) (unit : SystemUnit) (rest : List Token) :
    (do
      let actparams ← actionParameters unit
      let process := actparams.foldl (fun process tp => process.addParameter tp) process
      return (unit.putModel process.finishProcess, rest) : Except ReadFailure _) =
      (finishModel (process, unit)).map (fun result => (result, rest)) := by
  rw [finishModel]
  cases actionParameters unit with
  | error failure => rfl
  | ok actparams => rfl

theorem processRule_reads (unit : SystemUnit) :
    Reads (processRule unit) ProcessText.write (fun text => text.meaning unit)
      (fun _ rest => nextIs (Token.is .fromTk) rest = false) := by
  refine Reads.ofTexts (by
      apply Reads.andThen (reads_keyword .processTk)
      intro _
      apply Reads.andThen (Reads.token Token.isIdentifierToken)
      intro proc
      apply Reads.andThen (reads_keyword .semicolon)
      intro _
      apply Reads.bind (optionalSection_reads (identifierSection_reads .inputActTk setInputAction)
        (fun _ _ => rfl) _)
      · intro process
        apply Reads.andThen (identifierSection_reads .outputActTk setOutputAction process)
        intro process
        apply Reads.bind (optionalSection_reads
          (identifierSection_reads .internalActTk setInternalAction) (fun _ _ => rfl) process)
        · intro process
          apply Reads.bind (optionalSection_reads variablesSection_reads (fun _ _ => rfl) process)
          · intro process
            apply Reads.andThen (reads_keyword .stateTk)
            intro _
            apply Reads.bind (repeatRule_readsAll stateDeclarationRule_reads
              opensStateDeclaration_write process)
            · intro process
              apply Reads.andThen (reads_keyword .transitionTk)
              intro _
              refine Reads.ends (repeatRule_readsAll processTransition_reads (fun _ _ => rfl)
                (process, unit)) finishModel ?_
              exact fun current rest => finishes current.1 current.2 rest
            · exact fun _ _ _ _ => rfl
          · rintro (_ | texts) other rest _
            · rfl
            · rfl
        · rintro (_ | names) ⟨_ | texts, other⟩ rest _
          · rfl
          · rfl
          · trivial
          · trivial
      · rintro (_ | names) other rest _
        · rfl
        · trivial)
    (fun text => ((), text.name, (), text.inputs, text.outputs, text.internals, text.modelVariables,
      (), text.states, (), text.transitions)) ?_ ?_ ?_ (fun _ _ => Iff.rfl)
  · rintro ⟨⟨⟩, name, ⟨⟩, inputs, outputs, internals, modelVariables, ⟨⟩, states, ⟨⟩, transitions⟩
    exact ⟨⟨name, inputs, outputs, internals, modelVariables, states, transitions⟩, rfl⟩
  · intro text
    rfl
  · intro text
    rfl

/-- The declarations in front of the processes. -/
structure HeaderText where
  name : Identifier
  constants : Option (AtLeastOne ConstantText)
  clocks : Option (AtLeastOne Identifier)
  gates : AtLeastOne GateText

namespace HeaderText

/-- The tokens in front of the first process. -/
def write (text : HeaderText) : List Token :=
  .keyword .systemTk :: text.name.1 :: .keyword .semicolon ::
    (text.constants.elim [] writeConstants ++ (text.clocks.elim [] (writeSection .clocksTk) ++
      .keyword .gateTk :: text.gates.toList.flatMap GateText.write))

def addClocks (unit : SystemUnit) (names : AtLeastOne Identifier) : SystemUnit :=
  names.toList.foldl (fun unit name => unit.addClock name.1) unit

/-- The name of the system and its constants are forgotten. -/
def meaning (unit : SystemUnit) (text : HeaderText) : SystemUnit :=
  text.gates.toList.foldl GateText.meaning (text.clocks.elim unit (addClocks unit))

end HeaderText

theorem systemHeader_reads (unit : SystemUnit) :
    Reads (systemHeader unit) HeaderText.write (fun text => .ok (text.meaning unit))
      (fun _ rest => nextIs Token.isIdentifierToken rest = false) := by
  refine Reads.ofTexts (by
      apply Reads.andThen (reads_keyword .systemTk)
      intro _
      apply Reads.andThen (Reads.token Token.isIdentifierToken)
      intro _
      apply Reads.andThen (reads_keyword .semicolon)
      intro _
      apply Reads.bind (optionalSection_reads constantSection_reads (fun _ _ => rfl) ())
      · intro _
        apply Reads.bind (optionalSection_reads
          (identifierSection_reads .clocksTk SystemUnit.addClock) (fun _ _ => rfl) unit)
        · intro unit
          apply Reads.andThen (reads_keyword .gateTk)
          intro _
          exact repeatRule_readsAll gateRule_reads (by exact fun text _ => text.name.2) unit
        · rintro (_ | names) other rest _
          · rfl
          · trivial
      · rintro (_ | constants) ⟨_ | names, other⟩ rest _
        · rfl
        · rfl
        · rfl
        · rfl)
    (fun text => ((), text.name, (), text.constants, text.clocks, (), text.gates)) ?_
    (fun _ => rfl) (fun _ => rfl) (fun _ _ => Iff.rfl)
  rintro ⟨⟨⟩, name, ⟨⟩, constants, clocks, ⟨⟩, gates⟩
  exact ⟨⟨name, constants, clocks, gates⟩, rfl⟩

/-- A whole text: the header and the processes. -/
structure SystemText where
  header : HeaderText
  processes : AtLeastOne ProcessText

namespace SystemText

def write (text : SystemText) : List Token :=
  text.header.write ++ text.processes.toList.flatMap ProcessText.write

/-- What the parser keeps of the text, or the exception that it throws where a gate has
more parameters than types. -/
def meaning (specificationID : String) (text : SystemText) : Except ReadFailure SystemUnit :=
  text.processes.toList.foldlM ProcessText.meaning
    (text.header.meaning (SystemUnit.setUp specificationID))

end SystemText

theorem processes_read (specificationID : String) :
    Reads (fun tokens => systemHeader (SystemUnit.setUp specificationID) tokens >>= fun read =>
        repeatRule (Token.is .processTk) processRule read.1 read.2)
      SystemText.write (fun text => text.meaning specificationID)
      (fun _ rest => nextIs (Token.is .processTk) rest = false ∧
        nextIs (Token.is .fromTk) rest = false) := by
  refine Reads.ofTexts (by
      apply Reads.bind (systemHeader_reads (SystemUnit.setUp specificationID))
      · intro unit
        exact repeatRule_reads processRule_reads (fun _ _ => rfl) (fun _ _ => rfl) unit
      · exact fun _ _ _ _ => rfl)
    (fun text => (text.header, text.processes)) ?_ (fun _ => rfl) (fun _ => rfl)
    (fun _ _ => Iff.rfl)
  rintro ⟨header, processes⟩
  exact ⟨⟨header, processes⟩, rfl⟩

section Texts

variable {specificationID : String} {tokens : List Token} {unit : SystemUnit}

theorem systemRule_eq (specificationID : String) (tokens : List Token) :
    systemRule specificationID tokens =
      ((systemHeader (SystemUnit.setUp specificationID) tokens >>= fun read =>
        repeatRule (Token.is .processTk) processRule read.1 read.2) >>= fun read =>
          match read.2 with
          | [] => .ok read.1
          | _ :: _ => .error .parseException) := by
  rw [systemRule]
  cases systemHeader (SystemUnit.setUp specificationID) tokens with
  | error failure => rfl
  | ok read => rfl

theorem systemRule_write (specificationID : String) (text : SystemText) :
    systemRule specificationID text.write = text.meaning specificationID := by
  have whole := @(processes_read specificationID).ofWritten text [] ⟨rfl, rfl⟩
  rw [List.append_nil] at whole
  rw [systemRule_eq, whole]
  cases text.meaning specificationID with
  | error failure => rfl
  | ok unit => rfl

theorem systemRule_eq_ok_iff : systemRule specificationID tokens = .ok unit ↔
    ∃ text : SystemText, text.write = tokens ∧ text.meaning specificationID = .ok unit := by
  constructor
  · intro returned
    rw [systemRule_eq] at returned
    obtain ⟨⟨middle, rest⟩, read, ended⟩ := Reading.bind_eq_ok.mp returned
    obtain ⟨text, rfl, _, means⟩ := (processes_read specificationID).eq_ok_iff.mp read
    cases rest with
    | cons token rest => cases ended
    | nil =>
        cases ended
        exact ⟨text, (List.append_nil _).symm, means⟩
  · rintro ⟨text, rfl, means⟩
    rw [systemRule_write, means]

end Texts

/-- The rule of a text returns what a text of a system means or throws its exception, it
returns for no other text, and on no text it is cut off. -/
theorem systemRule_readsTexts (specificationID : String) :
    (∀ text : SystemText, systemRule specificationID text.write = text.meaning specificationID) ∧
      (∀ tokens unit, systemRule specificationID tokens = .ok unit ↔
        ∃ text : SystemText, text.write = tokens ∧ text.meaning specificationID = .ok unit) ∧
      ∀ tokens, Reading.Settled (systemRule specificationID tokens) :=
  ⟨systemRule_write specificationID, fun _ _ => systemRule_eq_ok_iff,
    systemRule_settled specificationID⟩

end Symbolrt
