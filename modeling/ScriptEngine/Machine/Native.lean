/-!
# Native functions

Functions that are not written in script: the functions of the library, and the functions that a
host can put beside them. This module only names them; what they do is for the library to say.
-/
namespace ScriptEngine

/-- The errors that the engine raises itself. Each has a constructor in the library. -/
inductive ErrorKind where
  | referenceError
  | typeError
  | rangeError
  | syntaxError
deriving DecidableEq, Repr

def ErrorKind.name : ErrorKind → String
  | referenceError => "ReferenceError"
  | typeError => "TypeError"
  | rangeError => "RangeError"
  | syntaxError => "SyntaxError"

/-- The functions of the `Math` object. -/
inductive MathFunction where
  | log
  | abs
  | floor
  | ceil
  | sqrt
  | pow
  | max
  | min
deriving DecidableEq, Repr

/-- Functions that a host can define. -/
inductive HostFunction where
  /-- The sum of its arguments as numbers. -/
  | sum
  /-- The value that it is called on. -/
  | receiver
  /-- A new array of its arguments. -/
  | arguments
  /-- The name of the type of its argument. -/
  | typeOf
  /-- The text of its argument. -/
  | string
  /-- The number of calls in progress, this one included. -/
  | depth
  /-- Calls the first argument on the second, with the rest. -/
  | call
  /-- Constructs with the first argument, from the rest. -/
  | construct
  /-- Throws its argument. -/
  | throw
  /-- Fails in a way that no script can catch. -/
  | fault
  /-- Raises an error of the engine. -/
  | raise (kind : ErrorKind)
  /-- Adds a line with its arguments to the log. -/
  | print
deriving DecidableEq, Repr

/-- What a native function does. -/
inductive Native where
  /-- Returns `undefined`, whatever it is called with. -/
  | nothing
  | object
  | objectKeys
  | objectFreeze
  | objectIsFrozen
  | objectDefineProperty
  | objectGetPrototypeOf
  | hasOwnProperty
  | objectToString
  | objectValueOf
  | function
  | functionCall
  | functionApply
  | functionToString
  | array
  | arrayIsArray
  | arrayJoin
  | arrayPush
  | arrayToString
  /-- The constructor of one kind of error, or of errors in general. -/
  | error (kind : Option ErrorKind)
  | errorToString
  | math (function : MathFunction)
  | isNaN
  | host (function : HostFunction)
deriving DecidableEq, Repr

/-- A native function with the name and the parameters that it shows to scripts. -/
structure NativeCode where
  name : String
  parameters : List String
  behaviour : Native
  isConstructor : Bool := false

end ScriptEngine
