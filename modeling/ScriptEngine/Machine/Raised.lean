import ScriptEngine.Machine.Native
import ScriptEngine.Machine.Value
import ScriptEngine.Source.Diagnostic

/-!
# Raised conditions

What can end an evaluation other than with a value. A script throws values; the engine raises
errors, which become objects only where a script catches them or a program ends; a fault is
beyond any script.
-/
namespace ScriptEngine

/-- The two functions of an accessor property. -/
inductive AccessorRole where
  | getter
  | setter
deriving DecidableEq, Repr

/-- The reasons for which the engine raises an error. Names and texts are kept as the message shows
them. -/
inductive Cause where
  | notDefined (name : String)
  | uninitialized (name : String)
  | alreadyDeclared (name : String)
  | constantAssignment
  | immutableOnObject (name : String)
  | globalVariable (name : String)
  | globalFunction (name : String)
  | readOnlyBinding (name : String)
  | readOnlyProperty (key : String)
  | readOfNothing (key base : String)
  | writeOfNothing (key base : String)
  | writeOfPrimitive (key type base : String)
  | deletion (key base : String)
  | redefinition (key : String)
  | notCallable (described : String)
  | notConstructor (described : String)
  | instanceOfNonObject
  | instanceOfNonFunction
  | instanceOfNonPrototype
  | membershipInNonObject (key target : String)
  | noPrimitive
  | noObject (described : String)
  | callDepth
  | arrayLength
  | elementAddition (index : Nat)
  | textLength
  | argumentCount
  | argumentList
  | receiverNotFunction (method : String)
  | errorTextOfNonObject
  | definitionOnNonObject
  | descriptionNotObject
  | accessorNotFunction (role : AccessorRole) (described : String)
  | mixedDescription
  /-- The source given to the `Function` constructor does not compile. -/
  | source (problem : Problem)
  /-- Raised by a host function. -/
  | host (kind : ErrorKind) (message : String)

namespace Cause

def kind : Cause → ErrorKind
  | notDefined _ | uninitialized _ => .referenceError
  | alreadyDeclared _ | source _ => .syntaxError
  | callDepth | arrayLength | textLength | argumentCount => .rangeError
  | host kind _ => kind
  | _ => .typeError

def message : Cause → String
  | notDefined name => s!"{name} is not defined"
  | uninitialized name => s!"Cannot access '{name}' before initialization"
  | alreadyDeclared name => s!"Identifier '{name}' has already been declared"
  | constantAssignment => "Assignment to constant variable."
  | immutableOnObject name => s!"Cannot create an immutable binding '{name}' on an object"
  | globalVariable name => s!"Cannot define global variable '{name}'"
  | globalFunction name => s!"Cannot redefine global function '{name}'"
  | readOnlyBinding name => s!"Cannot assign to read only property '{name}'"
  | readOnlyProperty key => s!"Cannot assign to read only property '{key}' of object"
  | readOfNothing key base => s!"Cannot read property '{key}' of {base}"
  | writeOfNothing key base => s!"Cannot set property '{key}' of {base}"
  | writeOfPrimitive key type base => s!"Cannot create property '{key}' on {type} '{base}'"
  | deletion key base => s!"Cannot delete property '{key}' of {base}"
  | redefinition key => s!"Cannot redefine property: {key}"
  | notCallable described => s!"{described} is not a function"
  | notConstructor described => s!"{described} is not a constructor"
  | instanceOfNonObject => "Right-hand side of 'instanceof' is not an object"
  | instanceOfNonFunction => "Right-hand side of 'instanceof' is not callable"
  | instanceOfNonPrototype => "Function has non-object prototype in instanceof check"
  | membershipInNonObject key target =>
    s!"Cannot use 'in' operator to search for '{key}' in {target}"
  | noPrimitive => "Cannot convert object to primitive value"
  | noObject described => s!"Cannot convert {described} to object"
  | callDepth => "Maximum call stack size exceeded"
  | arrayLength => "Invalid array length"
  | elementAddition index => s!"Cannot add property {index}, object is not extensible"
  | textLength => "Invalid string length"
  | argumentCount => "Too many arguments in function call"
  | argumentList => "CreateListFromArrayLike called on non-object"
  | receiverNotFunction method =>
    s!"Function.prototype.{method} called on a value that is not a function"
  | errorTextOfNonObject => "Error.prototype.toString called on non-object"
  | definitionOnNonObject => "Object.defineProperty called on non-object"
  | descriptionNotObject => "Property description must be an object"
  | accessorNotFunction .getter described => s!"Getter must be a function: {described}"
  | accessorNotFunction .setter described => s!"Setter must be a function: {described}"
  | mixedDescription =>
    "Invalid property descriptor. Cannot both specify accessors and a value or writable attribute"
  | source problem => problem.message
  | host _ message => message

end Cause

/-- Ways in which a statement can end other than normally. -/
inductive Departure where
  | returns
  | throws
  | breaks
  | continues
deriving DecidableEq, Repr

def Departure.name : Departure → String
  | returns => "Return"
  | throws => "Throw"
  | breaks => "Break"
  | continues => "Continue"

/-- Conditions that no script that was judged can bring about, and those that a host function
reports. -/
inductive Fault where
  /-- An expression that is not a reference was used as one. -/
  | notReference
  /-- A `break` or `continue` has left the body of a function. -/
  | escapedFunction
  /-- A completion has left a program. -/
  | escapedProgram (departure : Departure)
  /-- A program has ended with such a completion. -/
  | atTopLevel (departure : Departure)
  | host (message : String)

namespace Fault

def message : Fault → String
  | notReference => "expression does not denote a reference"
  | escapedFunction => "break or continue escaped a function body"
  | escapedProgram departure => s!"{departure.name} completion escaped the program"
  | atTopLevel departure => s!"{departure.name} completion at the top level"
  | host message => message

end Fault

/-- What ends an evaluation that has no value. -/
inductive Raised where
  | thrown (value : Value)
  | error (cause : Cause)
  | fault (fault : Fault)

end ScriptEngine
