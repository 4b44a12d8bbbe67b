import ScriptEngine.Evaluate.Function
import ScriptEngine.Operation.Binary
import ScriptEngine.Operation.Reference

/-!
# Expressions

The value of an expression, and the reference of one that denotes a place. What an operator does
with its operands is defined apart from the walk over the tree, for operands that are any
evaluations.
-/
namespace ScriptEngine.Evaluate

open Evaluation Operation

variable (call : Caller)

def literalValue : Literal → Value
  | .null => .null
  | .boolean b => .boolean b
  | .string text => .string text
  | .integer n => .ofNat n
  | .double x => .number (.ofFloat x)

/-- The reference of a property access with a name. -/
def memberReference (object : Evaluation Value) (name : String) : Evaluation Reference := do
  let base ← object
  if base.isNullish then fail (.readOfNothing name (← ask (·.plainText base)))
  else return ⟨.property base, name, ← askControl (·.strict)⟩

/-- The reference of a property access with a computed key. A base without properties is
complained about before the key is converted. -/
def indexReference (object property : Evaluation Value) : Evaluation Reference := do
  let base ← object
  let key ← property
  if base.isNullish then
    fail (.readOfNothing (← ask (·.plainText key)) (← ask (·.plainText base)))
  else
    let key ← toKey call key
    return ⟨.property base, key, ← askControl (·.strict)⟩

/-- The operator `delete` on a reference. -/
def deleteOf (target : Evaluation Reference) : Evaluation Value := do
  return .boolean (← deleteReference (← target))

/-- The operator `typeof` on a reference. -/
def typeOfPlace (target : Evaluation Reference) : Evaluation Value := do
  return .string (← typeOfReference call (← target))

/-- The unary operators on values. -/
def applyUnary (operator : UnaryOperator) (value : Value) : Evaluation Value := do
  match operator with
  | .delete => return .boolean true
  | .typeOf => return .string (← ask (·.typeOf value))
  | .void => return .undefined
  | .minus => return .number (← toNumber call value).neg
  | .plus => return .number (← toNumber call value)
  | .logicalNot => return .boolean !value.isTrue
  | .bitwiseNot => return .ofInt (~~~(← toInt32 call value)).toInt

def UpdateOperator.apply : UpdateOperator → Number → Number
  | .increment, n => n.add (.integer 1)
  | .decrement, n => n.sub (.integer 1)

/-- The operators `++` and `--`: the value is the number before or after. -/
def update (operator : UpdateOperator) (isPrefix : Bool) (target : Evaluation Reference) :
    Evaluation Value := do
  let place ← target
  let old ← toNumber call (← getValue call place)
  let new := UpdateOperator.apply operator old
  putValue call place (.number new)
  return .number (if isPrefix then new else old)

def logical (operator : LogicalOperator) (left right : Evaluation Value) : Evaluation Value := do
  let value ← left
  match operator with
  | .and => if value.isTrue then right else return value
  | .or => if value.isTrue then return value else right

def binary (operator : BinaryOperator) (left right : Evaluation Value) : Evaluation Value := do
  let left ← left
  let right ← right
  applyBinary call operator left right

/-- Assigns a value to a place. The place is found before the value is computed. -/
def assignTo (target : Evaluation Reference) (value : Evaluation Value) : Evaluation Value := do
  let place ← target
  let value ← value
  putValue call place value
  return value

/-- An assignment that first applies an operator to the value that is there. -/
def assignCompound (operator : BinaryOperator) (target : Evaluation Reference)
    (operand : Evaluation Value) : Evaluation Value := do
  let place ← target
  let old ← getValue call place
  let operand ← operand
  let value ← applyBinary call operator old operand
  putValue call place value
  return value

/-- The value of an assignment, which an anonymous function that is assigned to a name takes as its
name. -/
def namedAfter (target e : Expression) (value : Evaluation Value) : Evaluation Value :=
  match target with
  | .identifier id => named id.name e value
  | _ => value

def conditional (test consequent alternate : Evaluation Value) : Evaluation Value := do
  if (← test).isTrue then consequent else alternate

/-- How the callee of a call is described when it cannot be called. -/
def describe : Expression → String
  | .identifier id => id.name
  | .this _ => "this"
  | .member _ object property => s!"{describe object}.{property.name}"
  | .index _ object _ => s!"{describe object}[...]"
  | .function code =>
    match code.id with
    | some id => s!"function {id.name}"
    | none => "function"
  | _ => "expression"

/-- Calls what a callee evaluated to. -/
def applyCallee (callee : Expression) (f receiver : Value) (arguments : List Value) :
    Evaluation Value := do
  if ← ask (·.isCallable f) then callValue call f receiver arguments
  else fail (.notCallable (describe callee))

/-- A call through a reference, whose base is the `this` of the function. -/
def callPlace (callee : Expression) (target : Evaluation Reference)
    (arguments : Evaluation (List Value)) : Evaluation Value := do
  let place ← target
  let f ← getValue call place
  let arguments ← arguments
  applyCallee call callee f place.receiver arguments

/-- A call of any other callee. -/
def callResult (callee : Expression) (value : Evaluation Value)
    (arguments : Evaluation (List Value)) : Evaluation Value := do
  let f ← value
  let arguments ← arguments
  applyCallee call callee f .undefined arguments

def constructWith (callee : Expression) (value : Evaluation Value)
    (arguments : Evaluation (List Value)) : Evaluation Value := do
  let f ← value
  let arguments ← arguments
  if ← ask (·.isConstructor f) then construct call f arguments
  else fail (.notConstructor (describe callee))

/-- Adds a property with a value to an object literal. -/
def addData (object : ObjectId) (key : String) (value : Evaluation Value) : Evaluation Unit := do
  let _ ← define object key (.ofProperty (.plain (← value)))

/-- Adds a getter or a setter to an object literal; the other one of the same key stays. -/
def addAccessor (object : ObjectId) (key : String) (role : AccessorRole) (code : FunctionCode) :
    Evaluation Unit := do
  let f ← functionExpression code key
  let flags : Descriptor := { enumerable := some true, configurable := some true }
  defineOrFail object key (match role with
    | .getter => { flags with getter := some (some f) }
    | .setter => { flags with setter := some (some f) })

mutual

/-- The value of an expression. -/
def evaluate : Expression → Evaluation Value
  | .literal _ value => return literalValue value
  | .identifier id => do getValue call (← resolveHere id.name)
  | .this _ => askControl (·.receiver)
  | .array _ elements => do return .object (← newArray (← evaluatePlaces elements))
  | .object _ properties => do
    let object ← newObject WellKnown.objectPrototype
    addProperties object properties
    return .object object
  | .function code => .object <$> functionExpression code ""
  | .unary _ operator argument =>
    if argument.isReference && operator = .delete then deleteOf (reference argument)
    else if argument.isReference && operator = .typeOf then
      typeOfPlace call (reference argument)
    else do applyUnary call operator (← evaluate argument)
  | .update _ operator isPrefix argument => update call operator isPrefix (reference argument)
  | .binary _ operator left right => binary call operator (evaluate left) (evaluate right)
  | .logical _ operator left right => logical operator (evaluate left) (evaluate right)
  | .assign _ none target value =>
    assignTo call (reference target) (namedAfter target value (evaluate value))
  | .assign _ (some operator) target value =>
    assignCompound call operator (reference target) (evaluate value)
  | .conditional _ test consequent alternate =>
    conditional (evaluate test) (evaluate consequent) (evaluate alternate)
  | .member _ object property => do
    getValue call (← memberReference (evaluate object) property.name)
  | .index _ object property => do
    getValue call (← indexReference call (evaluate object) (evaluate property))
  | .call _ callee arguments =>
    if callee.isReference then
      callPlace call callee (reference callee) (evaluateAll arguments)
    else callResult call callee (evaluate callee) (evaluateAll arguments)
  | .new _ callee arguments =>
    constructWith call callee (evaluate callee) (evaluateAll arguments)
  | .sequence _ expressions => do return (← evaluateAll expressions).getLast?.getD .undefined

/-- The reference of an expression that denotes a place. -/
def reference : Expression → Evaluation Reference
  | .identifier id => resolveHere id.name
  | .member _ object property => memberReference (evaluate object) property.name
  | .index _ object property => indexReference call (evaluate object) (evaluate property)
  | _ => raise (.fault .notReference)

/-- The values of expressions, in order. -/
def evaluateAll : List Expression → Evaluation (List Value)
  | [] => return []
  | e :: rest => do
    let value ← evaluate e
    return value :: (← evaluateAll rest)

/-- The elements of an array literal, with its holes. -/
def evaluatePlaces : List (Option Expression) → Evaluation (List (Option Value))
  | [] => return []
  | none :: rest => do return none :: (← evaluatePlaces rest)
  | some e :: rest => do
    let value ← evaluate e
    return some value :: (← evaluatePlaces rest)

/-- Adds the properties of an object literal, in order. -/
def addProperties (object : ObjectId) : List PropertyNode → Evaluation Unit
  | [] => return ()
  | .data _ key value :: rest => do
    addData object key (named key value (evaluate value))
    addProperties object rest
  | .getter _ key code :: rest => do
    addAccessor object key .getter code
    addProperties object rest
  | .setter _ key code :: rest => do
    addAccessor object key .setter code
    addProperties object rest

end

end ScriptEngine.Evaluate
