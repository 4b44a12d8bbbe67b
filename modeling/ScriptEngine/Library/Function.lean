import ScriptEngine.Library.Basic

/-!
# The library of functions
-/
namespace ScriptEngine.Library

open Evaluation Operation

variable (services : Services)

/-- The texts of values, in order. -/
def texts : List Value → Evaluation (List String)
  | [] => return []
  | value :: rest => do
    let text ← toText services.call value
    return text :: (← texts rest)

/-- The source of a function with given parameters and body. -/
def functionSource (parameters : List String) (body : String) : String :=
  "(function anonymous(" ++ ",".intercalate parameters ++ "\n) \x7b\n" ++ body ++ "\n\x7d)"

/-- The value that a script leaves; a reference that was not read does not count. -/
def leftValue : Completion Remainder → Value
  | completion =>
    match completion.value? with
    | some (.value value) => value
    | _ => .undefined

/-- `Function(parameter, …, body)`: the function belongs to the global scope, never to the scope of
the caller, and it is strict only if its body says so. -/
def function : NativeBody := fun _ arguments => do
  compiling
  let given ← texts services arguments
  let source := functionSource given.dropLast (given.getLast?.getD "")
  match Program.compile source "anonymous" false with
  | .error e =>
    match e.diagnostics with
    | d :: _ => fail (.source d.problem)
    | [] => fail (.host .syntaxError e.message)
  | .ok program =>
    let completion ← services.run program.tree WellKnown.globalEnvironment
    match completion with
    | .throws _ => raise (.thrown (leftValue completion))
    | _ => return leftValue completion

/-- The function that a method of functions is called on. -/
def receiverFunction (method : String) (receiver : Value) : Evaluation ObjectId := do
  match receiver with
  | .object f =>
    if ← ask (·.isCallable receiver) then return f else fail (.receiverNotFunction method)
  | _ => fail (.receiverNotFunction method)

def functionCall : NativeBody := fun receiver arguments => do
  let f ← receiverFunction "call" receiver
  callValue services.call (.object f) (argument arguments 0) arguments.tail

/-- The largest number of arguments that a list can stand for. -/
def maxArguments : Nat := 65535

/-- The elements of an object that has a `length`. -/
def elementsOf (list : ObjectId) : Evaluation (List Value) := do
  let length ← toNumber services.call (← getOwn services.call list "length")
  let count := length.clampNat (maxArguments + 1)
  if maxArguments < count then fail .argumentCount
  else collect (fun index => getOwn services.call list (Text.decimal index)) [] 0 count

def functionApply : NativeBody := fun receiver arguments => do
  let f ← receiverFunction "apply" receiver
  let spread ← match argument arguments 1 with
    | .undefined | .null => pure []
    | .object list => elementsOf services list
    | _ => fail .argumentList
  callValue services.call (.object f) (argument arguments 0) spread

/-- The text of a function. Its body is not shown. -/
def functionText : ObjectKind → String
  | .script code _ =>
    s!"function {code.name}(" ++ ", ".intercalate (code.parameters.map Identifier.name) ++
      ") \x7b [code] \x7d"
  | .native code => s!"function {code.name}() \x7b [native code] \x7d"
  | _ => ""

def functionToString : NativeBody := fun receiver _ => do
  let f ← receiverFunction "toString" receiver
  return .string (← ask fun s => functionText (s.object f).kind)

end ScriptEngine.Library
