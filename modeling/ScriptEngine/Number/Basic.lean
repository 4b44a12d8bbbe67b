import ScriptEngine.Number.Binary64

/-!
# Numbers

A number of the script language is a double. It is kept in a canonical form in which each number
has one representation: whole numbers in the range where integers are exact are integers, and the
values that are no numbers in the usual sense have constructors of their own. Arithmetic goes
through doubles, so that it rounds as doubles do.
-/
namespace ScriptEngine

/-- A number. `ofInt` and `ofFloat` choose the canonical constructor; negative zero and integers
beyond `2 ^ 53 - 1` are doubles. -/
inductive Number where
  | integer (n : Int)
  | double (x : Float)
  | nan
  | infinity
  | negInfinity

namespace Number

/-- The canonical form of a double. -/
def ofFloat (x : Float) : Number :=
  match Binary64.safeInteger? x with
  | some n => integer n
  | none =>
    if x.isNaN then nan
    else if x.isInf then (if Binary64.isNegative x then negInfinity else infinity)
    else double x

def toFloat : Number → Float
  | integer n => Float.ofInt n
  | double x => x
  | nan => 0.0 / 0.0
  | infinity => 1.0 / 0.0
  | negInfinity => -1.0 / 0.0

/-- An integer as a number: itself where integers are exact, the nearest double beyond. -/
def ofInt (n : Int) : Number :=
  if n.natAbs ≤ Binary64.maxSafe then integer n else ofFloat (Float.ofInt n)

def ofNat (n : Nat) : Number := ofInt n

instance : Inhabited Number := ⟨integer 0⟩

def zero : Number := integer 0

def negZero : Number := double (-0.0)

def isNaN : Number → Bool
  | nan => true
  | _ => false

/-- Both zeros are zero. -/
def isZero : Number → Bool
  | integer n => n == 0
  | double x => x == 0.0
  | _ => false

def isNegative : Number → Bool
  | integer n => n < 0
  | double x => Binary64.isNegative x
  | negInfinity => true
  | _ => false

/-- Equality of values: NaN equals nothing and the two zeros are equal. -/
def equal : Number → Number → Bool
  | integer a, integer b => a == b
  | nan, _ | _, nan => false
  | infinity, infinity | negInfinity, negInfinity => true
  | a, b => a.toFloat == b.toFloat

/-- Equality of the doubles that are meant: NaN equals itself and the two zeros differ. -/
def same (a b : Number) : Bool :=
  (a.isNaN && b.isNaN) || a.toFloat.toBits == b.toFloat.toBits

/-- Equality under which NaN equals itself and the two zeros are equal. -/
def indistinct (a b : Number) : Bool := (a.isNaN && b.isNaN) || a.equal b

def less : Number → Number → Bool
  | integer a, integer b => a < b
  | a, b => a.toFloat < b.toFloat

def neg (a : Number) : Number := ofFloat (-a.toFloat)

def add (a b : Number) : Number := ofFloat (a.toFloat + b.toFloat)

def sub (a b : Number) : Number := ofFloat (a.toFloat - b.toFloat)

def mul (a b : Number) : Number := ofFloat (a.toFloat * b.toFloat)

def div (a b : Number) : Number := ofFloat (a.toFloat / b.toFloat)

/-- The remainder, which has the sign of the dividend. -/
def mod (a b : Number) : Number := ofFloat (Binary64.remainder a.toFloat b.toFloat)

/-- The integer part; the values that are no numbers in the usual sense have none. -/
def truncate? : Number → Option Int
  | integer n => some n
  | double x => Binary64.truncate? x
  | _ => none

/-- Reduction to an unsigned 32-bit word: the integer part modulo `2 ^ 32`. -/
def toUInt32 (a : Number) : UInt32 := UInt32.ofNat ((a.truncate?.getD 0) % 4294967296).toNat

/-- Reduction to a signed 32-bit word. -/
def toInt32 (a : Number) : Int32 := a.toUInt32.toInt32

/-- The integer part of a number that is above or equal to zero, at most `bound`; all other
numbers give zero. -/
def clampNat (bound : Nat) : Number → Nat
  | infinity => bound
  | a => min bound (a.truncate?.getD 0).toNat

/-- The largest integer not above the number. -/
def floor : Number → Number
  | double x =>
    match Binary64.magnitude? x with
    | some a =>
      if a.isIntegral then double x
      else integer (if Binary64.isNegative x then -(a.floor : Int) - 1 else a.floor)
    | none => double x
  | a => a

/-- The smallest integer not below the number; it is negative zero above minus one. -/
def ceil : Number → Number
  | double x =>
    match Binary64.magnitude? x with
    | some a =>
      if a.isIntegral then double x
      else if Binary64.isNegative x then (if a.floor = 0 then negZero else integer (-(a.floor : Int)))
      else integer (a.floor + 1)
    | none => double x
  | a => a

def abs : Number → Number
  | integer n => integer n.natAbs
  | double x => ofFloat (if Binary64.isNegative x then -x else x)
  | negInfinity => infinity
  | a => a

def isIntegral : Number → Bool
  | integer _ => true
  | double x => (Binary64.magnitude? x).any (·.isIntegral)
  | _ => false

end Number

end ScriptEngine
