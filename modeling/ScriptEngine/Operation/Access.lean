import ScriptEngine.Machine.Completion
import ScriptEngine.Machine.Evaluation
import ScriptEngine.Text.Units

/-!
# Properties and calls

Reading and writing the properties of values, and calling and constructing with values. Reading
and writing may run functions, those of accessor properties; how a function runs is a parameter.
-/
namespace ScriptEngine

/-- How a function runs: the function, its `this` and its arguments. It is only asked for objects
that are functions. -/
abbrev Caller := ObjectId → Value → List Value → Evaluation Value

namespace Operation

open Evaluation

variable (call : Caller)

/-- Calls a value, which must be a function. -/
def callValue (f receiver : Value) (arguments : List Value) : Evaluation Value := do
  match f with
  | .object id =>
    if ← ask (·.isCallable f) then call id receiver arguments
    else fail (.notCallable (← ask (·.plainText f)))
  | _ => fail (.notCallable (← ask (·.plainText f)))

/-- The value of a property, own or inherited. A getter runs on the receiver. -/
def get (id : ObjectId) (key : String) (receiver : Value) : Evaluation Value := do
  match ← ask (·.lookup id key) with
  | none | some (.accessor none _ _ _) => return .undefined
  | some (.data value _ _ _) => return value
  | some (.accessor (some getter) _ _ _) => callValue call (.object getter) receiver []

/-- The value of a property of an object. -/
def getOwn (id : ObjectId) (key : String) : Evaluation Value := get call id key (.object id)

/-- What a string has by itself: its length and its code units. -/
def stringProperty? (text key : String) : Option Value :=
  if key = "length" then some (.ofNat (Text.unitLength text))
  else ((Text.readDecimal? key).bind (Text.unitAt? text)).map Value.string

/-- The value of a property of any value. Primitive values inherit from `Object.prototype`. -/
def getV (base : Value) (key : String) : Evaluation Value := do
  match base with
  | .object id => get call id key base
  | .undefined | .null => fail (.readOfNothing key (← ask (·.plainText base)))
  | .string text =>
    match stringProperty? text key with
    | some value => return value
    | none => get call WellKnown.objectPrototype key base
  | .boolean _ | .number _ => get call WellKnown.objectPrototype key base

/-- Writes an own property of a receiver, where no setter and no read-only property is in the
way. -/
def setOwn (id : ObjectId) (key : String) (value : Value) : Evaluation Bool := do
  match ← ask fun s => (s.object id).property? key with
  | some (.data _ true _ _) => define id key (.ofValue value)
  | some _ => return false
  | none => define id key (.ofProperty (.plain value))

/-- Writes a property on a receiver as the property that an object has or inherits asks for. The
value says whether the property was written. -/
def set (id : ObjectId) (key : String) (value receiver : Value) : Evaluation Bool := do
  match ← ask (·.lookup id key) with
  | some (.data _ false _ _) | some (.accessor _ none _ _) => return false
  | some (.accessor _ (some setter) _ _) =>
    let _ ← callValue call (.object setter) receiver [value]
    return true
  | some (.data _ true _ _) | none =>
    match receiver with
    | .object receiver => setOwn receiver key value
    | _ => return false

/-- Writes a property of any value. Strict code learns of a write that was refused. -/
def putV (base : Value) (key : String) (value : Value) (strict : Bool) : Evaluation Unit := do
  match base with
  | .object id =>
    let written ← set call id key value base
    if !written && strict then fail (.readOnlyProperty key)
  | .undefined | .null => fail (.writeOfNothing key (← ask (·.plainText base)))
  | _ =>
    if strict then
      fail (.writeOfPrimitive key (← ask (·.typeOf base)) (← ask (·.plainText base)))

/-- Defines a property, which must be allowed. -/
def defineOrFail (id : ObjectId) (key : String) (d : Descriptor) : Evaluation Unit := do
  if !(← define id key d) then fail (.redefinition key)

/-- Adds an ordinary object. -/
def newObject (prototype : ObjectId) : Evaluation ObjectId :=
  allocate { kind := .ordinary, prototype := some prototype } (Object.wellFormed_of_not_array rfl)

/-- Adds an array with the given elements; the places without one are holes. -/
def newArray (places : List (Option Value)) : Evaluation ObjectId :=
  allocate (Object.array WellKnown.arrayPrototype places) (Object.wellFormed_array _ places)

/-- Adds an array with the given elements. -/
def newArrayOf (values : List Value) : Evaluation ObjectId := newArray (values.map some)

/-- Constructs with a value, which must be a constructor. It runs on a new object that inherits
from its `prototype`, and may return another object instead. -/
def construct (f : Value) (arguments : List Value) : Evaluation Value := do
  match f with
  | .object id =>
    if !(← ask (·.isConstructor f)) then fail (.notConstructor (← ask (·.plainText f)))
    else
      let prototype := match ← getOwn call id "prototype" with
        | .object prototype => prototype
        | _ => WellKnown.objectPrototype
      let receiver ← newObject prototype
      match ← callValue call f (.object receiver) arguments with
      | .object result => return .object result
      | _ => return .object receiver
  | _ => fail (.notConstructor (← ask (·.plainText f)))

/-- Whether an object inherits from the `prototype` of a function. -/
def hasInstance (f value : Value) : Evaluation Bool := do
  match f with
  | .object id =>
    if !(← ask (·.isCallable f)) then fail .instanceOfNonFunction
    else match value with
      | .object instanceId =>
        match ← getOwn call id "prototype" with
        | .object prototype => ask (·.inherits instanceId prototype)
        | _ => fail .instanceOfNonPrototype
      | _ => return false
  | _ => fail .instanceOfNonFunction

end Operation

end ScriptEngine
