import ScriptEngine.Library.Basic

/-!
# The library of objects
-/
namespace ScriptEngine.Library

open Evaluation Operation

variable (services : Services)

/-- `Object(value)`, also with `new`. -/
def object : NativeBody := fun _ arguments => do
  let value := argument arguments 0
  if value.isNullish then return .object (← newObject WellKnown.objectPrototype)
  else return .object (← toObject value)

def objectKeys : NativeBody := fun _ arguments => do
  let o ← toObject (argument arguments 0)
  let keys ← ask (·.enumerableKeys o)
  return .object (← newArrayOf (keys.map .string))

/-- Makes a property permanent, and read-only if it has a value. -/
def freezeProperty (o : ObjectId) (key : String) : Evaluation Unit := do
  let isData ← ask fun s => ((s.object o).property? key).any Property.isData
  defineOrFail o key
    { configurable := some false, writable := if isData then some false else none }

/-- Makes all properties of an object permanent and keeps new ones out. -/
def objectFreeze : NativeBody := fun _ arguments => do
  let value := argument arguments 0
  if let .object o := value then
    let keys ← ask fun s => (s.object o).keys
    keys.forM (freezeProperty o)
    preventExtensions o
  return value

/-- Whether nothing about an object can change. -/
def isFrozen (o : Object) : Bool :=
  !o.extensible && o.properties.entries.all fun (_, p) => !p.configurable && !p.writable

def objectIsFrozen : NativeBody := fun _ arguments => do
  match argument arguments 0 with
  | .object o => return .boolean (← ask fun s => isFrozen (s.object o))
  | _ => return .boolean true

/-- The value of a property of a description, if the description has the property. -/
def described (o : ObjectId) (key : String) : Evaluation (Option Value) := do
  if ← ask (·.hasProperty o key) then some <$> getOwn services.call o key else return none

/-- A function of an accessor property as a description gives it. -/
def describedAccessor (role : AccessorRole) (value : Value) :
    Evaluation (Option ObjectId) := do
  match value with
  | .undefined => return none
  | .object f =>
    if ← ask (·.isCallable value) then return some f
    else fail (.accessorNotFunction role (← ask (·.display value)))
  | _ => fail (.accessorNotFunction role (← ask (·.display value)))

/-- The definition that an object describes. -/
def describedProperty (o : ObjectId) : Evaluation Descriptor := do
  let enumerable ← described services o "enumerable"
  let configurable ← described services o "configurable"
  let value ← described services o "value"
  let writable ← described services o "writable"
  let getter ← (← described services o "get").mapM (describedAccessor .getter)
  let setter ← (← described services o "set").mapM (describedAccessor .setter)
  let d : Descriptor :=
    { value, getter, setter
      writable := writable.map Value.isTrue
      enumerable := enumerable.map Value.isTrue
      configurable := configurable.map Value.isTrue }
  if d.isAccessor && d.isData then fail .mixedDescription else return d

def objectDefineProperty : NativeBody := fun _ arguments => do
  let target := argument arguments 0
  match target with
  | .object o =>
    let key ← toKey services.call (argument arguments 1)
    match argument arguments 2 with
    | .object description =>
      let d ← describedProperty services description
      defineOrFail o key d
      return target
    | _ => fail .descriptionNotObject
  | _ => fail .definitionOnNonObject

def objectGetPrototypeOf : NativeBody := fun _ arguments => do
  let o ← toObject (argument arguments 0)
  let prototype ← ask fun s => (s.object o).prototype
  return prototype.elim .null .object

def hasOwnProperty : NativeBody := fun receiver arguments => do
  let key ← toKey services.call (argument arguments 0)
  let o ← toObject receiver
  return .boolean (← ask fun s => (s.object o).properties.contains key)

/-- The class of a value, as `Object.prototype.toString` shows it. -/
def classOf : Value → Evaluation String
  | .undefined => return "Undefined"
  | .null => return "Null"
  | .boolean _ => return "Boolean"
  | .number _ => return "Number"
  | .string _ => return "String"
  | .object o => ask fun s => (s.object o).kind.className

def objectToString : NativeBody := fun receiver _ => do
  return .string s!"[object {← classOf receiver}]"

def objectValueOf : NativeBody := fun receiver _ => do
  return .object (← toObject receiver)

end ScriptEngine.Library
