import ScriptEngine.Evaluate.Statement

/-!
# Scripts and function bodies

Running a whole script, and the body of a function that is called. A script ends normally or with a
thrown value: errors of the engine become objects here at the latest, and only faults go further.
-/
namespace ScriptEngine.Evaluate

open Evaluation Operation

variable (call : Caller) (bound : Nat)

/-- Reads a reference that a statement left, and leaves its value instead. -/
def readRemainder : Option Remainder → Evaluation (Option Remainder)
  | some (.reference r) => do return some (.value (← getValue call r))
  | remainder => return remainder

/-- A statement of a script. One that is just a name or a property access leaves its reference
unread. -/
def executeOutermost (statement : Statement) : Evaluation (Completion Remainder) :=
  match statement with
  | .expression _ e =>
    if e.isReference then do return .normal (some (.reference (← reference call e)))
    else do return .normal (some (.value (← evaluate call e)))
  | _ => do
    match ← execute call bound [] statement with
    | .normal value => return .normal (value.map .value)
    | .returns value => return .returns (.value value)
    | .throws value => return .throws (.value value)
    | .breaks label value => return .breaks label (value.map .value)
    | .continues label value => return .continues label (value.map .value)

/-- The statements of a script. A reference that one leaves is read before the next one runs. -/
def executeScript (last : Option Remainder) : List Statement → Evaluation (Completion Remainder)
  | [] => return .normal last
  | statement :: rest => do
    let last ← readRemainder call last
    let ending ← executeOutermost call bound statement
    if ending.isNormal then executeScript (ending.value?.or last) rest else return ending

/-- Runs a script in an environment, which its `var` names and functions belong to. -/
def runScript (script : ScriptTree) (env : EnvironmentId) :
    Evaluation (Completion Remainder) := do
  let result ← attempt .script do
    let lexical ← declareScript env script.scope
    withFrame ⟨lexical, env, .object WellKnown.globalObject, script.scope.strict, none⟩
      (executeScript call bound none script.body)
  match result with
  | .ok ending =>
    match ending.departure? with
    | none => return ending
    | some departure => raise (.fault (.escapedProgram departure))
  | .error raised => return .throws (.value (← caught raised))

/-- The `this` of a function that is called. Strict code gets it as it is; other code gets an
object. -/
def receiverFor (strict : Bool) (receiver : Value) : Evaluation Value := do
  if strict then return receiver
  else if receiver.isNullish then return .object WellKnown.globalObject
  else return .object (← toObject receiver)

/-- What a call returns when the body has ended in some way. -/
def callResultOf : Ending → Evaluation Value
  | .returns value => return value
  | .normal _ => return .undefined
  | .throws value => raise (.thrown value)
  | .breaks .. | .continues .. => raise (.fault .escapedFunction)

/-- Runs the body of a function. -/
def runFunction (f : ObjectId) (code : FunctionCode) (closure : EnvironmentId) (receiver : Value)
    (arguments : List Value) : Evaluation Value := do
  let receiver ← receiverFor code.strict receiver
  let env ← openScope closure
  let ending ← withFrame ⟨env, env, receiver, code.strict, some f⟩ do
    let lexical ← declareCall f code env arguments
    withScope lexical (executeList call bound none code.body)
  callResultOf ending

end ScriptEngine.Evaluate
