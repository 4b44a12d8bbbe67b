import ScriptEngine.Library.Basic

/-!
# The library of arrays
-/
namespace ScriptEngine.Library

open Evaluation Operation

variable (services : Services)

/-- `Array(length)`, or `Array` with the elements. -/
def array : NativeBody := fun _ arguments => do
  match arguments with
  | [.number n] =>
    match n with
    | .integer length =>
      if 0 ≤ length ∧ length ≤ Object.maxLength then
        let o ← newArray []
        let _ ← define o "length" (.ofValue (.ofInt length))
        return .object o
      else fail .arrayLength
    | _ =>
      if n.isZero then return .object (← newArray []) else fail .arrayLength
  | _ => return .object (← newArrayOf arguments)

def arrayIsArray : NativeBody := fun _ arguments => do
  match argument arguments 0 with
  | .object o => return .boolean (← ask fun s => (s.object o).kind.isArray)
  | _ => return .boolean false

/-- The length that an object states, as far as an array can have it. -/
def lengthOf (o : ObjectId) : Evaluation Nat := do
  let length ← toNumber services.call (← getOwn services.call o "length")
  return length.clampNat Object.maxLength

/-- The largest size of a joined text, in bytes. -/
def maxJoined : Nat := Nat.pow 2 30 - 25

/-- The text that an element adds to a joined text. -/
def elementText : Value → Evaluation String
  | .undefined | .null => return ""
  | value => toText services.call value

/-- Adds the elements of an object from an index on to a text. -/
def joinFrom (o : ObjectId) (separator joined : String) (index : Nat) :
    Nat → Evaluation String
  | 0 => return joined
  | count + 1 => do
    let joined := if index = 0 then joined else joined ++ separator
    let element ← getOwn services.call o (Text.decimal index)
    let joined := joined ++ (← elementText services element)
    if maxJoined < joined.utf8ByteSize then fail .textLength
    else joinFrom o separator joined (index + 1) count

/-- Joins the elements of an object. A text that would be too long for its separators alone is
refused before the elements are looked at. -/
def arrayJoin : NativeBody := fun receiver arguments => do
  let o ← toObject receiver
  let length ← lengthOf services o
  let separator ← match argument arguments 0 with
    | .undefined => pure ","
    | value => toText services.call value
  if maxJoined < (length - 1) * separator.utf8ByteSize then fail .textLength
  else return .string (← joinFrom services o separator "" 0 length)

/-- Writes values at the end of an object; the value is the length afterwards. -/
def pushEach (o : ObjectId) (length : Nat) : List Value → Evaluation Nat
  | [] => return length
  | value :: rest => do
    if ← set services.call o (Text.decimal length) value (.object o) then
      pushEach o (length + 1) rest
    else fail (.elementAddition length)

def arrayPush : NativeBody := fun receiver arguments => do
  let o ← toObject receiver
  let length ← pushEach services o (← lengthOf services o) arguments
  if ← set services.call o "length" (.ofNat length) (.object o) then return .ofNat length
  else fail (.readOnlyBinding "length")

def arrayToString : NativeBody := fun receiver _ => arrayJoin services receiver []

end ScriptEngine.Library
