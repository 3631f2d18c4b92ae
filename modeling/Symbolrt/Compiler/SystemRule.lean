import Symbolrt.Compiler.TransitionRule

/-!
# The rules of a whole text

The productions of the parser above a transition declaration: the gates, the
processes with their declarations, and the text of a system.  What the parser keeps
for the synthesis are the tables of all processes and the processes themselves.
-/

namespace Symbolrt

open Reading

/-- Two actions are equal if they have the same name. -/
def AbstractAction.equals (act other : AbstractAction) : Bool :=
  act.identifier == other.identifier

/-- A declared variable or parameter with its type. -/
structure TypedElement where
  name : String
  type : DataType
  deriving DecidableEq, Repr

/-- A declared state, with the mark of the initial one. -/
structure StateElement where
  name : String
  isInitial : Bool
  deriving DecidableEq, Repr

/-- A collection that keeps the first of equal elements. -/
def addDistinct {α : Type} (equals : α → α → Bool) (element : α) (elements : List α) : List α :=
  if elements.any (equals element) then elements else elements ++ [element]

/-- A process as the grammar reads it. Once `finished`, its adders do nothing. -/
structure AbstractTIOSTS where
  processName : String
  isSpecification : Bool
  transitions : List AbstractTransition
  internalActions : List AbstractAction
  outputActions : List AbstractAction
  inputActions : List AbstractAction
  modelVariables : List TypedElement
  states : List StateElement
  parameters : List TypedElement
  finished : Bool
  deriving DecidableEq

namespace AbstractTIOSTS

/-- A process of which only the name is read. -/
def new (processName : String) : AbstractTIOSTS where
  processName := processName
  isSpecification := false
  transitions := []
  internalActions := []
  outputActions := []
  inputActions := []
  modelVariables := []
  states := []
  parameters := []
  finished := false

/-- A finished process takes no more elements. -/
def change (update : AbstractTIOSTS → AbstractTIOSTS) (process : AbstractTIOSTS) :
    AbstractTIOSTS :=
  if process.finished then process else update process

/-! The declared actions of one kind have the same type and no parameters, so their
names alone tell whether two of them are equal. -/

/-- As the adders below: an element equal to a stored one is dropped, the first
declaration stays. -/
def addInternalAction (internalAction : AbstractAction) : AbstractTIOSTS → AbstractTIOSTS :=
  change (fun process => { process with
    internalActions := addDistinct AbstractAction.equals internalAction process.internalActions })

def addOutputAction (outputAction : AbstractAction) : AbstractTIOSTS → AbstractTIOSTS :=
  change (fun process => { process with
    outputActions := addDistinct AbstractAction.equals outputAction process.outputActions })

def addInputAction (inputAction : AbstractAction) : AbstractTIOSTS → AbstractTIOSTS :=
  change (fun process => { process with
    inputActions := addDistinct AbstractAction.equals inputAction process.inputActions })

/-- Variables are compared by name, whatever their types. -/
def addVariable (data : TypedElement) : AbstractTIOSTS → AbstractTIOSTS :=
  change (fun process => { process with
    modelVariables := addDistinct (fun element other => element.name == other.name) data
      process.modelVariables })

/-- Parameters are added without any comparison. -/
def addParameter (parameter : TypedElement) : AbstractTIOSTS → AbstractTIOSTS :=
  change (fun process => { process with parameters := process.parameters ++ [parameter] })

def addState (state : StateElement) : AbstractTIOSTS → AbstractTIOSTS :=
  change (fun process => { process with
    states := addDistinct (fun element other => element.name == other.name) state
      process.states })

/-- The lines of declarations are not modelled, so a declaration that repeats one
of its own line stays. -/
def addTransition (transition : AbstractTransition) : AbstractTIOSTS → AbstractTIOSTS :=
  change (fun process => { process with transitions := process.transitions ++ [transition] })

/-- Closes the process for the adders. -/
def finishProcess (process : AbstractTIOSTS) : AbstractTIOSTS := { process with finished := true }

def setIsSpecification (condition : Bool) (process : AbstractTIOSTS) : AbstractTIOSTS :=
  { process with isSpecification := condition }

end AbstractTIOSTS

/-- The translation unit with the fields that only the rules above a transition
use.  The processes stand in the order in which their names were first put. -/
structure SystemUnit extends TranslationUnit where
  models : List AbstractTIOSTS
  gateIdentifiers : List String
  specificationID : String

namespace SystemUnit

/-- The unit at the start of a text, with all tables empty. -/
def setUp (specificationID : String) : SystemUnit where
  clocks := []
  typeTable := ∅
  paramTable := ∅
  models := []
  gateIdentifiers := []
  specificationID := specificationID

def addClock (aux : Token) (unit : SystemUnit) : SystemUnit :=
  { unit with clocks := unit.clocks ++ [aux.image] }

def addGateIdentifier (aux : Token) (unit : SystemUnit) : SystemUnit :=
  { unit with gateIdentifiers := unit.gateIdentifiers ++ [aux.image] }

/-- A second declaration of a gate replaces the types of the first. -/
def putTypes (gate : Token) (types : List DataType) (unit : SystemUnit) : SystemUnit :=
  { unit with typeTable := unit.typeTable.insert gate.image types }

/-- The process takes the place of one of the same name. -/
def putModel (process : AbstractTIOSTS) (unit : SystemUnit) : SystemUnit :=
  if unit.models.any (fun other => other.processName == process.processName) then
    { unit with models := unit.models.map (fun other =>
        if other.processName = process.processName then process else other) }
  else
    { unit with models := unit.models ++ [process] }

/-- The tables as they are after a transition was read. -/
def setTables (tables : TranslationUnit) (unit : SystemUnit) : SystemUnit :=
  { unit with toTranslationUnit := tables }

end SystemUnit

/-- Identifiers separated by commas, each of them added to a value. -/
def identifierList {α : Type} (add : Token → α → α) (value : α) (tokens : List Token) :
    Except ReadFailure (α × List Token) := do
  let (aux, tokens) ← consumeToken Token.isIdentifierToken tokens
  repeatWhile (Token.is .comma)
    (fun value tokens => do
      let (_, tokens) ← consumeToken (Token.is .comma) tokens
      let (aux, tokens) ← consumeToken Token.isIdentifierToken tokens
      return (add aux value, tokens))
    (tokens.length + 1) (add aux value) tokens

/-- A section that is a keyword and a list of identifiers up to a semicolon. -/
def identifierSection {α : Type} (word : Keyword) (add : Token → α → α) (value : α)
    (tokens : List Token) : Except ReadFailure (α × List Token) := do
  let (_, tokens) ← consumeToken (Token.is word) tokens
  let (value, tokens) ← identifierList add value tokens
  let (_, tokens) ← consumeToken (Token.is .semicolon) tokens
  return (value, tokens)

/-- A section that may be left out. -/
def optionalSection {α : Type} (word : Keyword)
    (rule : α → List Token → Except ReadFailure (α × List Token)) (value : α)
    (tokens : List Token) : Except ReadFailure (α × List Token) := do
  let (read, tokens) ← optionalPart (Token.is word) (rule value) none tokens
  return (read.getD value, tokens)

/-- A rule that is repeated at least once, as long as the next token opens it. -/
def repeatRule {α : Type} (opens : Token → Bool)
    (rule : α → List Token → Except ReadFailure (α × List Token)) (value : α)
    (tokens : List Token) : Except ReadFailure (α × List Token) := do
  let (value, tokens) ← rule value tokens
  repeatWhile opens rule (tokens.length + 1) value tokens

def primitiveTypeRule : List Token → Except ReadFailure (DataType × List Token)
  | .keyword .intTk :: rest => .ok (.integer, rest)
  | .keyword .boolTk :: rest => .ok (.boolean, rest)
  | _ => .error .parseException

def isPrimitiveType (token : Token) : Bool := token.is .intTk || token.is .boolTk

/-- The types of a gate in parentheses, possibly none. -/
def gateTypes (tokens : List Token) : Except ReadFailure (List DataType × List Token) := do
  let (_, tokens) ← consumeToken (Token.is .openParTk) tokens
  let (types, tokens) ← optionalPart isPrimitiveType
    (fun tokens => do
      let (type, tokens) ← primitiveTypeRule tokens
      repeatWhile (Token.is .comma)
        (fun types tokens => do
          let (_, tokens) ← consumeToken (Token.is .comma) tokens
          let (type, tokens) ← primitiveTypeRule tokens
          return (types ++ [type], tokens))
        (tokens.length + 1) [type] tokens)
    none tokens
  let (_, tokens) ← consumeToken (Token.is .closeParTk) tokens
  return (types.getD [], tokens)

/-- A gate with its types. One without parentheses is entered with no types. -/
def gateRule (unit : SystemUnit) (tokens : List Token) :
    Except ReadFailure (SystemUnit × List Token) := do
  let (tk, tokens) ← consumeToken Token.isIdentifierToken tokens
  let unit := unit.addGateIdentifier tk
  let (types, tokens) ← optionalPart (Token.is .openParTk) gateTypes none tokens
  let (_, tokens) ← consumeToken (Token.is .semicolon) tokens
  return (unit.putTypes tk (types.getD []), tokens)

def setInputAction (aux : Token) (process : AbstractTIOSTS) : AbstractTIOSTS :=
  process.addInputAction ⟨aux.image, .input, []⟩

def setOutputAction (aux : Token) (process : AbstractTIOSTS) : AbstractTIOSTS :=
  process.addOutputAction ⟨aux.image, .output, []⟩

def setInternalAction (aux : Token) (process : AbstractTIOSTS) : AbstractTIOSTS :=
  process.addInternalAction ⟨aux.image, .internal, []⟩

/-- `name : type;`, added to the process. -/
def variableRule (process : AbstractTIOSTS) (tokens : List Token) :
    Except ReadFailure (AbstractTIOSTS × List Token) := do
  let (aux, tokens) ← consumeToken Token.isIdentifierToken tokens
  let (_, tokens) ← consumeToken (Token.is .colon) tokens
  let (type, tokens) ← primitiveTypeRule tokens
  let (_, tokens) ← consumeToken (Token.is .semicolon) tokens
  return (process.addVariable ⟨aux.image, type⟩, tokens)

/-- `variables` and as many declarations as follow. -/
def variablesSection (process : AbstractTIOSTS) (tokens : List Token) :
    Except ReadFailure (AbstractTIOSTS × List Token) := do
  let (_, tokens) ← consumeToken (Token.is .variablesTk) tokens
  repeatWhile Token.isIdentifierToken variableRule (tokens.length + 1) process tokens

/-- `initial : name;` or `name;`. -/
def stateDeclarationRule (process : AbstractTIOSTS) (tokens : List Token) :
    Except ReadFailure (AbstractTIOSTS × List Token) :=
  if nextIs (Token.is .initStateTk) tokens then do
    let (_, tokens) ← consumeToken (Token.is .initStateTk) tokens
    let (_, tokens) ← consumeToken (Token.is .colon) tokens
    let (stateTk, tokens) ← consumeToken Token.isIdentifierToken tokens
    let (_, tokens) ← consumeToken (Token.is .semicolon) tokens
    return (process.addState ⟨stateTk.image, true⟩, tokens)
  else do
    let (stateTk, tokens) ← consumeToken Token.isIdentifierToken tokens
    let (_, tokens) ← consumeToken (Token.is .semicolon) tokens
    return (process.addState ⟨stateTk.image, false⟩, tokens)

def opensStateDeclaration (token : Token) : Bool :=
  token.is .initStateTk || token.isIdentifierToken

/-- A transition of the process; its action enters the tables of all processes. -/
def processTransition (current : AbstractTIOSTS × SystemUnit) (tokens : List Token) :
    Except ReadFailure ((AbstractTIOSTS × SystemUnit) × List Token) := do
  let (process, unit) := current
  let (read, tokens) ← transitionRule unit.toTranslationUnit tokens
  return ((process.addTransition read.1, unit.setTables read.2), tokens)

/-- The parameters of one gate; the list of its types may be too short. -/
def gateParameters (params : List String) (types : List DataType)
    (actparams : List TypedElement) : Except ReadFailure (List TypedElement) :=
  params.zipIdx.foldlM (fun actparams (param, i) =>
    match types[i]? with
    | none => .error .actionException
    | some type =>
        .ok (addDistinct (fun element other => element.name == other.name) ⟨param, type⟩
          actparams)) actparams

/-- The parameters that a process gets from the gates of the text. -/
def actionParameters (unit : SystemUnit) : Except ReadFailure (List TypedElement) :=
  unit.gateIdentifiers.foldlM (fun actparams gate =>
    match unit.paramTable.lookup gate, unit.typeTable.lookup gate with
    | some params, some types => gateParameters params types actparams
    | _, _ => .ok actparams) []

/-- A whole process. Its transitions are read against the tables of the unit, and the
finished process joins the models. -/
def processRule (unit : SystemUnit) (tokens : List Token) :
    Except ReadFailure (SystemUnit × List Token) := do
  let (_, tokens) ← consumeToken (Token.is .processTk) tokens
  let (proc, tokens) ← consumeToken Token.isIdentifierToken tokens
  let (_, tokens) ← consumeToken (Token.is .semicolon) tokens
  let process := AbstractTIOSTS.new proc.image
  let process := process.setIsSpecification (process.processName = unit.specificationID)
  let (process, tokens) ← optionalSection .inputActTk
    (identifierSection .inputActTk setInputAction) process tokens
  let (process, tokens) ← identifierSection .outputActTk setOutputAction process tokens
  let (process, tokens) ← optionalSection .internalActTk
    (identifierSection .internalActTk setInternalAction) process tokens
  let (process, tokens) ← optionalSection .variablesTk variablesSection process tokens
  let (_, tokens) ← consumeToken (Token.is .stateTk) tokens
  let (process, tokens) ← repeatRule opensStateDeclaration stateDeclarationRule process tokens
  let (_, tokens) ← consumeToken (Token.is .transitionTk) tokens
  let ((process, unit), tokens) ← repeatRule (Token.is .fromTk) processTransition (process, unit)
    tokens
  let actparams ← actionParameters unit
  let process := actparams.foldl (fun process tp => process.addParameter tp) process
  return (unit.putModel process.finishProcess, tokens)

/-- A constant is read and forgotten: nothing looks its value up. -/
def constantRule (_ : Unit) (tokens : List Token) : Except ReadFailure (Unit × List Token) := do
  let (_, tokens) ← consumeToken Token.isIdentifierToken tokens
  let (_, tokens) ← consumeToken (Token.is .equalsTk) tokens
  let (_, tokens) ← consumeToken Token.isConstant tokens
  let (_, tokens) ← consumeToken (Token.is .semicolon) tokens
  return ((), tokens)

/-- Constants are read and forgotten. -/
def constantSection (_ : Unit) (tokens : List Token) : Except ReadFailure (Unit × List Token) := do
  let (_, tokens) ← consumeToken (Token.is .constTk) tokens
  repeatRule Token.isIdentifierToken constantRule () tokens

/-- The declarations in front of the processes. -/
def systemHeader (unit : SystemUnit) (tokens : List Token) :
    Except ReadFailure (SystemUnit × List Token) := do
  let (_, tokens) ← consumeToken (Token.is .systemTk) tokens
  let (_, tokens) ← consumeToken Token.isIdentifierToken tokens
  let (_, tokens) ← consumeToken (Token.is .semicolon) tokens
  let (_, tokens) ← optionalSection .constTk constantSection () tokens
  let (unit, tokens) ← optionalSection .clocksTk (identifierSection .clocksTk SystemUnit.addClock)
    unit tokens
  let (_, tokens) ← consumeToken (Token.is .gateTk) tokens
  repeatRule Token.isIdentifierToken gateRule unit tokens

/-- The rule of a whole text. -/
def systemRule (specificationID : String) (tokens : List Token) :
    Except ReadFailure SystemUnit := do
  let (unit, tokens) ← systemHeader (SystemUnit.setUp specificationID) tokens
  let (unit, tokens) ← repeatRule (Token.is .processTk) processRule unit tokens
  match tokens with
  | [] => return unit
  | _ :: _ => .error .parseException

end Symbolrt
