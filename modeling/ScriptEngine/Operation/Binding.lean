import ScriptEngine.Operation.Access

/-!
# Bindings of an environment

What can be done to the bindings that an environment has itself, wherever it has them: among its
own bindings, or as the properties of an object.
-/
namespace ScriptEngine.Operation

open Evaluation

/-- Declares a name that can be assigned to. -/
def createMutable (env : EnvironmentId) (name : String) (deletable : Bool) :
    Evaluation Unit := do
  match ← ask fun s => (s.environment env).record with
  | .declarative _ => create env name { deletable }
  | .object id =>
    if !(← define id name (.ofProperty (.data .undefined true true deletable))) then
      fail (.globalVariable name)

/-- Declares a name that keeps its first value. -/
def createImmutable (env : EnvironmentId) (name : String) (strict : Bool) : Evaluation Unit := do
  match ← ask fun s => (s.environment env).record with
  | .declarative _ => create env name (.constant strict)
  | .object _ => fail (.immutableOnObject name)

/-- Assigns to a name that the environment has a binding of. -/
def setBinding (env : EnvironmentId) (name : String) (value : Value) (strict : Bool) :
    Evaluation Unit := do
  match ← ask fun s => (s.environment env).record with
  | .declarative _ => assign env name value strict
  | .object id =>
    let written ← setOwn id name value
    if !written && strict then fail (.readOnlyBinding name)

/-- Gives a declared name its first value. -/
def setInitialBinding (env : EnvironmentId) (name : String) (value : Value) :
    Evaluation Unit := do
  match ← ask fun s => (s.environment env).record with
  | .declarative _ => setInitial env name value
  | .object _ => setBinding env name value false

/-- Declares a `let` or `const` name, which waits for its first value. -/
def createLexical (env : EnvironmentId) (name : String) (isConst : Bool) : Evaluation Unit := do
  if isConst then createImmutable env name true else createMutable env name false
  note (.declared env name isConst)

/-- Gives a `let` or `const` name its first value. -/
def initializeLexical (env : EnvironmentId) (name : String) (value : Value) :
    Evaluation Unit := do
  note (.initialized env name)
  setInitialBinding env name value

/-- The value of a name. No getter runs: an accessor property counts as `undefined`. -/
def getBinding (env : EnvironmentId) (name : String) (strict : Bool) : Evaluation Value := do
  match ← ask fun s => (s.environment env).record with
  | .declarative bindings =>
    match bindings.read name with
    | .ok value => return value
    | .error cause => fail cause
  | .object id =>
    match ← ask (·.lookup id name) with
    | some (.data value _ _ _) => return value
    | some (.accessor ..) => return .undefined
    | none => if strict then fail (.notDefined name) else return .undefined

/-- Removes a name if it may be removed; the value says whether it is gone. -/
def deleteBinding (env : EnvironmentId) (name : String) : Evaluation Bool := do
  match ← ask fun s => (s.environment env).record with
  | .declarative bindings =>
    forget env name
    return (bindings.delete name).2
  | .object id => delete id name

/-- Whether the environment has a binding of a name. -/
def hasBinding (env : EnvironmentId) (name : String) : Evaluation Bool :=
  ask (·.hasBinding env name)

/-- Declares a name and gives it its first value. -/
def declare (env : EnvironmentId) (name : String) (deletable : Bool) (value : Value) :
    Evaluation Unit := do
  createMutable env name deletable
  setInitialBinding env name value

end ScriptEngine.Operation
