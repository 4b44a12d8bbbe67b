import ScriptEngine.Evaluate.Function
import ScriptEngine.Operation.Binding

/-!
# Declarations

What happens on entering a script, a function or a block, before any of its statements runs: the
names that it declares come into being. Functions are there from the start, `var` names and
parameters have values, and names declared with `let` and `const` wait for their declaration.
-/
namespace ScriptEngine.Evaluate

open Evaluation Operation

/-- Declares the `let` and `const` names of a scope. -/
def declareLexical (env : EnvironmentId) (scope : Scope) : Evaluation Unit :=
  scope.lexical.forM fun lexical => createLexical env lexical.name lexical.isConst

/-- Declares a name with a value, unless it is declared already. -/
def declareOnce (env : EnvironmentId) (deletable : Bool) (name : String) : Evaluation Unit := do
  if !(← hasBinding env name) then declare env name deletable .undefined

/-- Gives a function to its name, which is declared if it is new. -/
def bindFunction (env : EnvironmentId) (deletable : Bool) (name : String) (f : ObjectId) :
    Evaluation Unit := do
  if ← hasBinding env name then setBinding env name (.object f) false
  else declare env name deletable (.object f)

/-- The environment for the `let` and `const` names of a function or script: one of its own if
there are any. -/
def lexicalScope (varScope : EnvironmentId) (scope : Scope) : Evaluation EnvironmentId := do
  if scope.lexical.isEmpty then return varScope
  else
    let env ← openScope varScope
    declareLexical env scope
    return env

/-- Declares the functions of a scope in `varScope`, closing over `env`. -/
def declareFunctions (varScope env : EnvironmentId) (deletable : Bool) (scope : Scope) :
    Evaluation Unit :=
  scope.functions.forM fun code => do
    let f ← newDeclared code env
    bindFunction varScope deletable code.name f

/-- Declares the `let` and `const` names of a function or script, and its functions, which become
variables in `varScope`. The value is the environment for its statements. -/
def declareInside (varScope : EnvironmentId) (deletable : Bool) (scope : Scope) :
    Evaluation EnvironmentId := do
  let lexical ← lexicalScope varScope scope
  declareFunctions varScope lexical deletable scope
  return lexical

/-- Declares the names of a block, whose functions are ready to be called. -/
def declareBlock (env : EnvironmentId) (scope : Scope) : Evaluation Unit := do
  declareLexical env scope
  scope.functions.forM fun code => do
    let f ← newDeclared code env
    -- A function that is declared again takes over the binding of its name.
    if !(← hasBinding env code.name) then createMutable env code.name false
    setInitialBinding env code.name (.object f)

/-- Evaluates in an environment for the declarations of a block, if it has any. -/
def inBlock {α : Type} (scope : Scope) (x : Evaluation α) : Evaluation α := do
  if scope.hasLexicalDeclarations then
    let env ← openScopeHere
    declareBlock env scope
    withScope env x
  else x

/-! ## Functions -/

/-- Whether a function gets an object of its arguments: not if it declares the name `arguments`. -/
def bindsArguments (code : FunctionCode) : Bool :=
  !code.parameters.any (·.name == "arguments") &&
    !code.scope.functions.any (·.name == "arguments") &&
    !code.scope.declaresLexically "arguments"

/-- Assigns arguments to parameters; a name that repeats gets the last one. -/
def assignParameters (env : EnvironmentId) : List Identifier → List Value → Evaluation Unit
  | [], _ => return ()
  | parameter :: parameters, arguments => do
    setBinding env parameter.name (arguments.head?.getD .undefined) false
    assignParameters env parameters arguments.tail

/-- Declares the parameters of a function that is called, the object of its arguments, and its
`var` names. -/
def declareVariables (f : ObjectId) (code : FunctionCode) (env : EnvironmentId)
    (arguments : List Value) : Evaluation Unit := do
  -- The object is made before anything else, but bound only behind the parameters.
  let argumentsObject ←
    if bindsArguments code then some <$> newArguments f arguments code.strict else pure none
  code.parameters.forM fun parameter => declareOnce env false parameter.name
  assignParameters env code.parameters arguments
  if let some object := argumentsObject then
    if code.strict then createImmutable env "arguments" false
    else createMutable env "arguments" false
    setInitialBinding env "arguments" (.object object)
  code.scope.varNames.forM (declareOnce env false)

/-- Declares the names of a function that is called. The value is the environment for its body. -/
def declareCall (f : ObjectId) (code : FunctionCode) (env : EnvironmentId)
    (arguments : List Value) : Evaluation EnvironmentId := do
  declareVariables f code env arguments
  declareInside env false code.scope

/-! ## Scripts -/

/-- The last declaration of each name, the last one first. -/
def lastOfEach (functions : List FunctionCode) : List FunctionCode :=
  (functions.reverse.foldl
    (fun kept code => if kept.any (·.name == code.name) then kept else code :: kept) []).reverse

/-- Whether a global name is taken by a property that cannot go away. -/
def isRestricted (name : String) : Evaluation Bool :=
  ask fun s => ((s.object WellKnown.globalObject).property? name).any (!·.configurable)

/-- Fails on the first of some names that is declared. -/
def failOnDeclared (env : EnvironmentId) (names : List String) : Evaluation Unit :=
  names.forM fun name => do
    if ← hasBinding env name then fail (.alreadyDeclared name)

/-- Fails if a global function cannot be declared. -/
def checkGlobalFunction (code : FunctionCode) : Evaluation Unit := do
  let declarable ← ask fun s =>
    ((s.object WellKnown.globalObject).property? code.name).all fun p =>
      p.configurable || (p.writable && p.enumerable)
  if !declarable then fail (.globalFunction code.name)

/-- Declares a global function. Over a property that can be reconfigured, it becomes a permanent
one; otherwise only the value changes. -/
def declareGlobalFunction (env : EnvironmentId) (code : FunctionCode) : Evaluation Unit := do
  let f ← newDeclared code env
  let reconfigurable ← ask fun s =>
    ((s.object WellKnown.globalObject).property? code.name).all Property.configurable
  defineOrFail WellKnown.globalObject code.name
    (if reconfigurable then .ofProperty (.data (.object f) true true false)
      else .ofValue (.object f))

/-- Declares a global `var` name, unless the global object has a property of that name. -/
def declareGlobalVariable (name : String) : Evaluation Unit := do
  if !(← ask fun s => (s.object WellKnown.globalObject).properties.contains name) then
    createMutable WellKnown.globalObjectEnvironment name false

/-- Declares the names of a script that runs in the global environment. All conflicts are found
before anything is declared. -/
def declareGlobal (env : EnvironmentId) (scope : Scope) : Evaluation Unit := do
  scope.lexical.forM fun lexical => do
    if (← hasBinding env lexical.name) || (← isRestricted lexical.name) then
      fail (.alreadyDeclared lexical.name)
  failOnDeclared env (scope.varNames ++ scope.functions.map FunctionCode.name)
  let functions := lastOfEach scope.functions
  functions.forM checkGlobalFunction
  -- From here on only a global object that gets no further properties is in the way.
  functions.forM (declareGlobalFunction env)
  scope.varNames.forM declareGlobalVariable
  declareLexical env scope

/-- Declares the names of a script that runs in some other environment. The value is the
environment for its statements. -/
def declareScoped (env : EnvironmentId) (scope : Scope) : Evaluation EnvironmentId := do
  scope.varNames.forM (declareOnce env true)
  declareInside env true scope

/-- Declares the names of a script. The value is the environment for its statements. -/
def declareScript (env : EnvironmentId) (scope : Scope) : Evaluation EnvironmentId := do
  if env = WellKnown.globalEnvironment then
    declareGlobal env scope
    return env
  else declareScoped env scope

end ScriptEngine.Evaluate
