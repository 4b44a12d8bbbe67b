import ScriptEngine.Library.Array
import ScriptEngine.Library.Error
import ScriptEngine.Library.Function
import ScriptEngine.Library.Host
import ScriptEngine.Library.Math
import ScriptEngine.Library.Object

/-!
# Native functions at work
-/
namespace ScriptEngine.Library

/-- What a native function does. -/
def perform (services : Services) : Native → NativeBody
  | .nothing => fun _ _ => return .undefined
  | .object => object
  | .objectKeys => objectKeys
  | .objectFreeze => objectFreeze
  | .objectIsFrozen => objectIsFrozen
  | .objectDefineProperty => objectDefineProperty services
  | .objectGetPrototypeOf => objectGetPrototypeOf
  | .hasOwnProperty => hasOwnProperty services
  | .objectToString => objectToString
  | .objectValueOf => objectValueOf
  | .function => function services
  | .functionCall => functionCall services
  | .functionApply => functionApply services
  | .functionToString => functionToString
  | .array => array
  | .arrayIsArray => arrayIsArray
  | .arrayJoin => arrayJoin services
  | .arrayPush => arrayPush services
  | .arrayToString => arrayToString services
  | .error kind => error services kind
  | .errorToString => errorToString services
  | .math function => math services function
  | .isNaN => isNaN services
  | .host function => fun receiver arguments =>
    Evaluation.reporting (host services function receiver arguments)

end ScriptEngine.Library
