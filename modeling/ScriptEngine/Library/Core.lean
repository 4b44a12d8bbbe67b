import ScriptEngine.Library.Registry

/-!
# The core library

The library that every engine has unless it is told otherwise.
-/
namespace ScriptEngine.Library

/-- Euler's number and the circle number, as the nearest doubles. -/
def mathConstants : List (String × Value) :=
  [("E", .number (.double 2.718281828459045)), ("PI", .number (.double 3.141592653589793))]

def objectLibrary : BuiltIn where
  name := "Object"
  constructor := some (["value"], .object)
  methods :=
    [⟨"keys", ["o"], .objectKeys⟩, ⟨"freeze", ["o"], .objectFreeze⟩,
      ⟨"isFrozen", ["o"], .objectIsFrozen⟩,
      ⟨"defineProperty", ["o", "p", "attributes"], .objectDefineProperty⟩,
      ⟨"getPrototypeOf", ["o"], .objectGetPrototypeOf⟩]
  prototypeMethods :=
    [⟨"hasOwnProperty", ["v"], .hasOwnProperty⟩, ⟨"toString", [], .objectToString⟩,
      ⟨"valueOf", [], .objectValueOf⟩]

def functionLibrary : BuiltIn where
  name := "Function"
  constructor := some (["p1", "body"], .function)
  prototypeMethods :=
    [⟨"call", ["thisArg"], .functionCall⟩, ⟨"apply", ["thisArg", "argArray"], .functionApply⟩,
      ⟨"toString", [], .functionToString⟩]

def arrayLibrary : BuiltIn where
  name := "Array"
  constructor := some (["item1"], .array)
  methods := [⟨"isArray", ["arg"], .arrayIsArray⟩]
  prototypeMethods :=
    [⟨"join", ["separator"], .arrayJoin⟩, ⟨"push", ["item1"], .arrayPush⟩,
      ⟨"toString", [], .arrayToString⟩]

def errorLibrary : BuiltIn where
  name := "Error"
  constructor := some (["message"], .error none)
  prototypeMethods := [⟨"toString", [], .errorToString⟩]

def errorKindLibrary (kind : ErrorKind) : BuiltIn where
  name := kind.name
  parent := some "Error"
  constructor := some (["message"], .error (some kind))

def mathLibrary : BuiltIn where
  name := "Math"
  properties := mathConstants
  methods :=
    [⟨"log", ["x"], .math .log⟩, ⟨"abs", ["x"], .math .abs⟩, ⟨"floor", ["x"], .math .floor⟩,
      ⟨"ceil", ["x"], .math .ceil⟩, ⟨"sqrt", ["x"], .math .sqrt⟩, ⟨"pow", ["x", "y"], .math .pow⟩,
      ⟨"max", ["value1", "value2"], .math .max⟩, ⟨"min", ["value1", "value2"], .math .min⟩]

/-- The core library. Objects come first, since all prototypes hang off theirs. -/
def core : Registry where
  objects :=
    [objectLibrary, functionLibrary, arrayLibrary, errorLibrary,
      errorKindLibrary .typeError, errorKindLibrary .referenceError,
      errorKindLibrary .syntaxError, errorKindLibrary .rangeError, mathLibrary]
  functions := [⟨"isNaN", ["number"], .isNaN⟩]
  values :=
    [("NaN", .number .nan), ("Infinity", .number .infinity), ("undefined", .undefined)]

end ScriptEngine.Library
