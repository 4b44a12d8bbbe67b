/-!
# Binary64

A finite double is `± mantissa * 2 ^ exponent` with natural `mantissa`. Everything that has to be
exact (integrality, remainders, reduction to machine words, the digits of a number) is computed on
this decomposition with natural numbers, and not with floating-point operations.
-/
namespace ScriptEngine.Binary64

/-- The absolute value `mantissa * 2 ^ exponent` of a finite double. -/
structure Magnitude where
  mantissa : Nat
  exponent : Int
deriving DecidableEq, Repr

def isNegative (x : Float) : Bool := x.toBits ≥ 0x8000000000000000

/-- The magnitude of a finite double; infinities and NaN have none. -/
def magnitude? (x : Float) : Option Magnitude :=
  let bits := x.toBits.toNat
  let biased : Nat := bits / Nat.pow 2 52 % 2048
  let fraction : Nat := bits % Nat.pow 2 52
  if biased = 2047 then none
  else if biased = 0 then some ⟨fraction, -1074⟩
  else some ⟨fraction + Nat.pow 2 52, (biased : Int) - 1075⟩

namespace Magnitude

/-- Whether the value is a whole number. -/
def isIntegral (a : Magnitude) : Bool :=
  0 ≤ a.exponent || a.mantissa % Nat.pow 2 (-a.exponent).toNat = 0

/-- The value without its fraction. -/
def floor (a : Magnitude) : Nat :=
  if 0 ≤ a.exponent then a.mantissa * Nat.pow 2 a.exponent.toNat
  else a.mantissa / Nat.pow 2 (-a.exponent).toNat

/-- The remainder of two values, exact: both are whole multiples of the smaller power of two. -/
def mod (a b : Magnitude) : Magnitude :=
  let exponent := min a.exponent b.exponent
  ⟨a.mantissa * Nat.pow 2 (a.exponent - exponent).toNat %
    (b.mantissa * Nat.pow 2 (b.exponent - exponent).toNat), exponent⟩

/-- The double of a magnitude that a double can hold; bits below its last place are dropped. -/
def toFloat (negative : Bool) (a : Magnitude) : Float :=
  let sign := if negative then Nat.pow 2 63 else 0
  if a.mantissa = 0 then Float.ofBits (UInt64.ofNat sign)
  else
    let exponent := max (a.exponent + a.mantissa.log2 - 52) (-1074)
    let mantissa :=
      if exponent ≤ a.exponent then a.mantissa * Nat.pow 2 (a.exponent - exponent).toNat
      else a.mantissa / Nat.pow 2 (exponent - a.exponent).toNat
    let word :=
      if mantissa < Nat.pow 2 52 then mantissa
      else (exponent + 1075).toNat * Nat.pow 2 52 + (mantissa - Nat.pow 2 52)
    Float.ofBits (UInt64.ofNat (sign + word))

end Magnitude

/-- A double without its fraction, as an integer. -/
def truncate? (x : Float) : Option Int :=
  (magnitude? x).map fun a => if isNegative x then -(a.floor : Int) else a.floor

/--
The remainder with the sign of the dividend. It is exact, since the remainder of two doubles is
again a double. There is none by zero and none of an infinity.
-/
def remainder (x y : Float) : Float :=
  match magnitude? x, magnitude? y with
  | some a, some b => if b.mantissa = 0 then 0.0 / 0.0 else (a.mod b).toFloat (isNegative x)
  | some _, none => if y.isNaN then y else x
  | none, _ => 0.0 / 0.0

/-- The largest integer `n` for which `n` and `n + 1` are both doubles of their own. -/
def maxSafe : Nat := Nat.pow 2 53 - 1

/-- The integer that a double equals, if it lies in the range where integers are exact. Negative
zero is not an integer. -/
def safeInteger? (x : Float) : Option Int :=
  match magnitude? x with
  | none => none
  | some a =>
    if a.isIntegral && a.floor ≤ maxSafe && !(a.mantissa = 0 && isNegative x) then
      some (if isNegative x then -(a.floor : Int) else a.floor)
    else none

example : safeInteger? (-0.0) = none ∧ safeInteger? 4.0 = some 4 ∧ safeInteger? 0.5 = none := by
  decide +kernel

example : (remainder (-5.5) 2.0).toBits = (-1.5 : Float).toBits := by decide +kernel

end ScriptEngine.Binary64
