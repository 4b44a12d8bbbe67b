import ScriptEngine.Library.Basic

/-!
# The library of errors
-/
namespace ScriptEngine.Library

open Evaluation Operation

variable (services : Services)

/-- Whether an object looks as if `new` had just made it. -/
def isFresh (o : Object) : Bool :=
  match o.kind with
  | .ordinary => o.keys.isEmpty
  | _ => false

/-- The prototype of a new error: that of the receiver if `new` made it for the error, and
otherwise that of the kind of error. -/
def errorPrototypeFor (kind : Option ErrorKind) (receiver : Value) : Evaluation ObjectId := do
  match receiver with
  | .object o =>
    let o ← ask (·.object o)
    return (if isFresh o then o.prototype else none).getD (WellKnown.errorPrototype kind)
  | _ => return WellKnown.errorPrototype kind

def errorObject (prototype : ObjectId) (message : Option String) : Object where
  kind := .error
  prototype := some prototype
  properties :=
    match message with
    | some message => .singleton "message" (.hidden (.string message))
    | none => .empty

/-- The constructor of a kind of error; it works without `new` too. -/
def error (kind : Option ErrorKind) : NativeBody := fun receiver arguments => do
  let prototype ← errorPrototypeFor kind receiver
  let message ← match argument arguments 0 with
    | .undefined => pure none
    | value => some <$> toText services.call value
  return .object (← allocate (errorObject prototype message) (Object.wellFormed_of_not_array rfl))

/-- The text of a property of an error, with a default for one that is not there. -/
def errorPart (receiver : Value) (key default : String) : Evaluation String := do
  match ← getV services.call receiver key with
  | .undefined => return default
  | value => toText services.call value

/-- The name and the message of an error, leaving out an empty one. -/
def describeError (name message : String) : String :=
  if name.isEmpty then message
  else if message.isEmpty then name
  else s!"{name}: {message}"

def errorToString : NativeBody := fun receiver _ => do
  if !receiver.isObject then fail .errorTextOfNonObject
  else
    let name ← errorPart services receiver "name" "Error"
    let message ← errorPart services receiver "message" ""
    return .string (describeError name message)

end ScriptEngine.Library
