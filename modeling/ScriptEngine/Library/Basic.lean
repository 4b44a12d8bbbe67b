import ScriptEngine.Evaluate.Function
import ScriptEngine.Operation.Reference
import ScriptEngine.Program

/-!
# What library functions work with

A native function gets its `this` and its arguments, and can call other functions and run whole
scripts.
-/
namespace ScriptEngine

/-- What the engine does for native functions. -/
structure Services where
  /-- Calls a function. -/
  call : Caller
  /-- Runs a script in an environment. -/
  run : ScriptTree → EnvironmentId → Evaluation (Completion Remainder)

/-- A native function: what it does with its `this` and its arguments. -/
abbrev NativeBody := Value → List Value → Evaluation Value

namespace Library

open Evaluation

/-- The argument at an index; a missing one is `undefined`. -/
def argument (arguments : List Value) (index : Nat) : Value := arguments[index]?.getD .undefined

/-- The values of evaluations for `count` indices from one on, after the values collected so far,
which are in reverse order. -/
def collect {α : Type} (item : Nat → Evaluation α) (collected : List α) (index : Nat) :
    Nat → Evaluation (List α)
  | 0 => return collected.reverse
  | count + 1 => do
    let value ← item index
    collect item (value :: collected) (index + 1) count

end Library

end ScriptEngine
