import ScriptEngine.Operation.Access

/-!
# Conversions

From one type of value to another. Objects become primitive values through their own methods, in
an order that depends on what is wanted.
-/
namespace ScriptEngine

/-- What a conversion of an object is for. -/
inductive Hint where
  | default
  | string
  | number
deriving DecidableEq, Repr

/-- The methods that convert an object, in the order in which they are tried. -/
def Hint.methods : Hint → List String
  | string => ["toString", "valueOf"]
  | default | number => ["valueOf", "toString"]

namespace Operation

open Evaluation

variable (call : Caller)

/-- The first primitive value that one of some methods of an object returns. -/
def tryMethods (id : ObjectId) : List String → Evaluation Value
  | [] => fail .noPrimitive
  | name :: rest => do
    let method ← getOwn call id name
    if ← ask (·.isCallable method) then
      let result ← callValue call method (.object id) []
      if result.isObject then tryMethods id rest else return result
    else tryMethods id rest

def toPrimitive (hint : Hint) : Value → Evaluation Value
  | .object id => tryMethods call id hint.methods
  | value => return value

/-- The number of a primitive value. -/
def plainNumber : Value → Number
  | .undefined | .object _ => .nan
  | .null | .boolean false => .zero
  | .boolean true => .integer 1
  | .string text => .ofText text
  | .number n => n

def toNumber (value : Value) : Evaluation Number :=
  plainNumber <$> toPrimitive call .number value

def toText (value : Value) : Evaluation String := do
  let primitive ← toPrimitive call .string value
  ask (·.plainText primitive)

/-- The key that a value stands for in a property access. -/
def toKey (value : Value) : Evaluation String := toText call value

def toInt32 (value : Value) : Evaluation Int32 := Number.toInt32 <$> toNumber call value

def toUInt32 (value : Value) : Evaluation UInt32 := Number.toUInt32 <$> toNumber call value

/-- The object that shows the code units of a text as read-only elements. -/
def stringObject (text : String) : Object where
  kind := .ordinary
  prototype := some WellKnown.objectPrototype
  extensible := false
  properties :=
    (Dictionary.indexed ((Text.units text).map fun unit =>
      some (.data (.string (Text.ofUnit unit)) false true false))).insert "length"
      (.fixed (.ofNat (Text.unitLength text)))

/-- The object of a value. A primitive value gets a new one each time. -/
def toObject : Value → Evaluation ObjectId
  | .object id => return id
  | .string text => allocate (stringObject text) (Object.wellFormed_of_not_array rfl)
  | .boolean _ | .number _ => newObject WellKnown.objectPrototype
  | value => do fail (.noObject (← ask (·.plainText value)))

end Operation

end ScriptEngine
