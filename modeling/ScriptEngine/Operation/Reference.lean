import ScriptEngine.Operation.Binding
import ScriptEngine.Operation.Convert

/-!
# References

Reading, writing and deleting at the place that a reference denotes. A name is looked up once, when
its reference is made: what happens to the environments afterwards does not change where it reads
and writes.
-/
namespace ScriptEngine.Operation

open Evaluation

variable (call : Caller)

/-- The reference of a name, seen from an environment. -/
def resolve (env : EnvironmentId) (name : String) (strict : Bool) : Evaluation Reference :=
  ask fun s => {
    base := match s.resolve env name with
      | some env => .environment env
      | none => .unresolvable
    name
    strict }

/-- The reference of a name, seen from the code that is running. -/
def resolveHere (name : String) : Evaluation Reference := do
  resolve (← askControl (·.lexical)) name (← askControl (·.strict))

def getValue (r : Reference) : Evaluation Value := do
  match r.base with
  | .unresolvable => fail (.notDefined r.name)
  | .property base => getV call base r.name
  | .environment env =>
    match ← ask fun s => (s.environment env).record with
    | .declarative _ => getBinding env r.name r.strict
    | .object id =>
      if r.strict && !(← ask (·.hasProperty id r.name)) then fail (.notDefined r.name)
      else getOwn call id r.name

/-- Writes a value. A name without a binding becomes a property of the global object, unless the
code is strict. -/
def putValue (r : Reference) (value : Value) : Evaluation Unit := do
  match r.base with
  | .unresolvable =>
    if r.strict then fail (.notDefined r.name)
    else putV call (.object WellKnown.globalObject) r.name value false
  | .property base => putV call base r.name value r.strict
  | .environment env =>
    match ← ask fun s => (s.environment env).record with
    | .declarative _ => setBinding env r.name value r.strict
    | .object id => putV call (.object id) r.name value r.strict

/-- The operator `delete`: whether nothing is left at the place. -/
def deleteReference (r : Reference) : Evaluation Bool := do
  match r.base with
  | .unresolvable => return true
  | .property base =>
    let deleted ← delete (← toObject base) r.name
    if !deleted && r.strict then fail (.deletion r.name (← ask (·.display base)))
    else return deleted
  | .environment env => deleteBinding env r.name

/-- The operator `typeof`. A name without a binding is no error here. -/
def typeOfReference (r : Reference) : Evaluation String := do
  if r.isUnresolvable then return "undefined"
  else
    let value ← getValue call r
    ask (·.typeOf value)

end ScriptEngine.Operation
