import ScriptEngine.Operation.Convert

/-!
# Functions

Making function objects. A script function closes over the environment that it is made in, and
comes with an object that its `new` objects inherit from.
-/
namespace ScriptEngine.Evaluate

open Evaluation

/-- The `length` and `name` of a function: read-only and hidden, but they can be redefined. -/
def functionProperties (name : String) (parameters : Nat) : Dictionary Property :=
  (Dictionary.singleton "length" (.data (.ofNat parameters) false false true)).insert "name"
    (.data (.string name) false false true)

/-- Makes a function object under a name, which is not always the one that was declared. -/
def newFunction (code : FunctionCode) (env : EnvironmentId) (name : String) :
    Evaluation ObjectId := do
  let f ← allocate
    { kind := .script code env
      prototype := some WellKnown.functionPrototype
      properties := functionProperties name code.parameters.length }
    (Object.wellFormed_of_not_array rfl)
  let prototype ← allocate
    { kind := .ordinary
      prototype := some WellKnown.objectPrototype
      properties := .singleton "constructor" (.hidden (.object f)) }
    (Object.wellFormed_of_not_array rfl)
  let _ ← define f "prototype" (.ofProperty (.data (.object prototype) true false false))
  return f

/-- Makes the function of a declaration. -/
def newDeclared (code : FunctionCode) (env : EnvironmentId) : Evaluation ObjectId :=
  newFunction code env code.name

/-- The function of an expression. One with a name has an environment of its own, in which its body
finds it under that name; another one takes the name of the place that it is for. -/
def functionExpression (code : FunctionCode) (place : String) : Evaluation ObjectId := do
  match code.id with
  | none => newFunction code (← askControl (·.lexical)) place
  | some id =>
    let env ← openScopeHere
    let f ← newFunction code env id.name
    create env id.name (.constant false)
    setInitial env id.name (.object f)
    return f

/-- The value of an expression for a place with a name, which an anonymous function takes. -/
def named (place : String) (e : Expression) (value : Evaluation Value) : Evaluation Value :=
  match e with
  | .function code => if code.id.isNone then .object <$> functionExpression code place else value
  | _ => value

/-- Makes the object that a function sees its arguments in. -/
def newArguments (f : ObjectId) (arguments : List Value) (strict : Bool) : Evaluation ObjectId :=
  let indexed := Dictionary.indexed (arguments.map fun value => some (Property.plain value))
  let counted := indexed.insert "length" (.hidden (.ofNat arguments.length))
  allocate
    { kind := .arguments
      prototype := some WellKnown.objectPrototype
      properties := if strict then counted else counted.insert "callee" (.hidden (.object f)) }
    (Object.wellFormed_of_not_array rfl)

/-- Makes a native function object. -/
def nativeObject (code : NativeCode) : Object where
  kind := .native code
  prototype := some WellKnown.functionPrototype
  properties := functionProperties code.name code.parameters.length

/-- Makes the object of an error of the engine. -/
def newError (cause : Cause) : Evaluation ObjectId :=
  allocate
    { kind := .error
      prototype := some (WellKnown.errorPrototype (some cause.kind))
      properties := .singleton "message" (.hidden (.string cause.message)) }
    (Object.wellFormed_of_not_array rfl)

/-- What a script gets to see of something raised. It never sees a fault. -/
def caught : Raised → Evaluation Value
  | .thrown value => return value
  | .error cause => return .object (← newError cause)
  | .fault fault => raise (.fault fault)

end ScriptEngine.Evaluate
