import ScriptEngine.Operation.Convert

/-!
# Binary operators

Equality, order, arithmetic, and the questions about objects.
-/
namespace ScriptEngine.Operation

open Evaluation

variable (call : Caller)

/-- A boolean as a number; other values as they are. -/
def unboolean : Value → Value
  | .boolean b => .number (plainNumber (.boolean b))
  | value => value

/-- The operator `==` on values of which none is boolean and none has to be converted from an
object. -/
def looselyEqualPlain : Value → Value → Bool
  | .undefined, .null | .null, .undefined => true
  | .number a, .string b => a.equal (.ofText b)
  | .string a, .number b => (Number.ofText a).equal b
  | a, b => a.strictlyEqual b

/-- The operator `==`. A conversion is followed by no more than one comparison of what is primitive by
then, where the language starts over with the value it has got. -/
def looselyEqual (left right : Value) : Evaluation Bool := do
  match unboolean left, unboolean right with
  | .object id, right@(.number _) | .object id, right@(.string _) =>
    let primitive ← toPrimitive call .default (.object id)
    return looselyEqualPlain (unboolean primitive) right
  | left@(.number _), .object id | left@(.string _), .object id =>
    let primitive ← toPrimitive call .default (.object id)
    return looselyEqualPlain left (unboolean primitive)
  | left, right => return looselyEqualPlain left right

/-- Whether one primitive value is less than another; nothing if one of them is NaN. -/
def lessPlain : Value → Value → Option Bool
  | .string a, .string b => some (Text.less a b)
  | left, right =>
    let a := plainNumber left
    let b := plainNumber right
    if a.isNaN || b.isNaN then none else some (a.less b)

/-- Whether one value is less than another. The one that stands first in the source is converted
first. -/
def less (left right : Value) (leftFirst : Bool) : Evaluation (Option Bool) := do
  if leftFirst then
    let left ← toPrimitive call .number left
    let right ← toPrimitive call .number right
    return lessPlain left right
  else
    let right ← toPrimitive call .number right
    let left ← toPrimitive call .number left
    return lessPlain left right

/-- The sum of primitive values: a text if one of them is one. -/
def addPlain (left right : Value) : Evaluation Value := do
  match left, right with
  | .string _, _ | _, .string _ =>
    return .string ((← ask (·.plainText left)) ++ (← ask (·.plainText right)))
  | _, _ => return .number ((plainNumber left).add (plainNumber right))

def add (left right : Value) : Evaluation Value := do
  let left ← toPrimitive call .default left
  let right ← toPrimitive call .default right
  addPlain left right

/-- An operator on numbers. -/
def numeric (operator : Number → Number → Number) (left right : Value) : Evaluation Value := do
  let left ← toNumber call left
  let right ← toNumber call right
  return .number (operator left right)

/-- An operator on the bits of signed words. -/
def bitwise (operator : Int32 → Int32 → Int32) (left right : Value) : Evaluation Value := do
  let left ← toInt32 call left
  let right ← toInt32 call right
  return .ofInt (operator left right).toInt

/-- The number of places to shift by: only five bits count. -/
def toShift (value : Value) : Evaluation UInt32 := do
  return (← toUInt32 call value) &&& 0x1F

def shiftLeft (left right : Value) : Evaluation Value := do
  let left ← toInt32 call left
  let places ← toShift call right
  return .ofInt (left.toUInt32 <<< places).toInt32.toInt

/-- The shift to the right that keeps the sign. -/
def shiftRight (left right : Value) : Evaluation Value := do
  let left ← toInt32 call left
  let places ← toShift call right
  return .ofInt (left >>> places.toInt32).toInt

def shiftRightUnsigned (left right : Value) : Evaluation Value := do
  let left ← toUInt32 call left
  let places ← toShift call right
  return .ofNat (left >>> places).toNat

def instanceOf (left right : Value) : Evaluation Value := do
  if right.isObject then return .boolean (← hasInstance call right left)
  else fail .instanceOfNonObject

def isIn (left right : Value) : Evaluation Value := do
  match right with
  | .object id =>
    let key ← toKey call left
    return .boolean (← ask (·.hasProperty id key))
  | _ => fail (.membershipInNonObject (← ask (·.plainText left)) (← ask (·.plainText right)))

/-- Applies an operator to two values. -/
def applyBinary (operator : BinaryOperator) (left right : Value) : Evaluation Value :=
  match operator with
  | .looselyEqual => Value.boolean <$> looselyEqual call left right
  | .looselyUnequal => (fun equal => .boolean !equal) <$> looselyEqual call left right
  | .strictlyEqual => return .boolean (left.strictlyEqual right)
  | .strictlyUnequal => return .boolean !(left.strictlyEqual right)
  | .lessThan => (fun less => .boolean (less == some true)) <$> less call left right true
  | .lessThanEqual => (fun less => .boolean (less == some false)) <$> less call right left false
  | .greaterThan => (fun less => .boolean (less == some true)) <$> less call right left false
  | .greaterThanEqual => (fun less => .boolean (less == some false)) <$> less call left right true
  | .leftShift => shiftLeft call left right
  | .rightShift => shiftRight call left right
  | .unsignedRightShift => shiftRightUnsigned call left right
  | .add => add call left right
  | .subtract => numeric call Number.sub left right
  | .multiply => numeric call Number.mul left right
  | .divide => numeric call Number.div left right
  | .modulo => numeric call Number.mod left right
  | .bitwiseOr => bitwise call (· ||| ·) left right
  | .bitwiseXor => bitwise call (· ^^^ ·) left right
  | .bitwiseAnd => bitwise call (· &&& ·) left right
  | .isIn => isIn call left right
  | .instanceOf => instanceOf call left right

end ScriptEngine.Operation
