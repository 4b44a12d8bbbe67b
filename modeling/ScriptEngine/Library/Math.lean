import ScriptEngine.Library.Basic

/-!
# The library of numbers
-/
namespace ScriptEngine.Library

open Evaluation Operation

variable (services : Services)

/-- A power. Neither a NaN exponent nor an infinite power of one is a number. -/
def power (base exponent : Number) : Number :=
  if exponent.isNaN || (base.abs.equal (.integer 1) && exponent.abs.equal .infinity) then .nan
  else .ofFloat (base.toFloat.pow exponent.toFloat)

/-- The larger of two numbers, and the first of two zeros. -/
def larger (a b : Number) : Number := if a.less b then b else a

/-- The smaller of two numbers, and the first of two zeros. -/
def smaller (a b : Number) : Number := if b.less a then b else a

/-- The number that a choice between two makes among values; NaN if one of them is. -/
def choose (pick : Number → Number → Number) (best : Number) : List Value → Evaluation Number
  | [] => return best
  | value :: rest => do
    let n ← toNumber services.call value
    choose pick (if best.isNaN || n.isNaN then .nan else pick best n) rest

/-- Applies a function to the first argument. -/
def ofOne (f : Number → Number) (arguments : List Value) : Evaluation Value := do
  return .number (f (← toNumber services.call (argument arguments 0)))

def math (function : MathFunction) : NativeBody := fun _ arguments => do
  match function with
  | .log => ofOne services (fun n => .ofFloat n.toFloat.log) arguments
  | .abs => ofOne services Number.abs arguments
  | .floor => ofOne services Number.floor arguments
  | .ceil => ofOne services Number.ceil arguments
  | .sqrt => ofOne services (fun n => .ofFloat n.toFloat.sqrt) arguments
  | .pow =>
    let base ← toNumber services.call (argument arguments 0)
    let exponent ← toNumber services.call (argument arguments 1)
    return .number (power base exponent)
  | .max => return .number (← choose services larger .negInfinity arguments)
  | .min => return .number (← choose services smaller .infinity arguments)

def isNaN : NativeBody := fun _ arguments => do
  return .boolean (← toNumber services.call (argument arguments 0)).isNaN

end ScriptEngine.Library
