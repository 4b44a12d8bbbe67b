import ScriptEngine.Number.Binary64

/-!
# Shortest digits

The decimal text of a double has as few digits as can be while it still reads back as the same
double, and among the texts of that length it is the one nearest to the double. The reals that
read back as a double form an interval around it; for one digit, two digits, and so on, the two
neighbours of the double on the grid of that many digits are tested, and the first grid with a
neighbour inside the interval gives the answer. Seventeen digits always suffice.
-/
namespace ScriptEngine.Shortest

open Binary64 (Magnitude)

/-- The decimal number `digits * 10 ^ exponent`. -/
structure Decimal where
  digits : Nat
  exponent : Int
deriving DecidableEq, Repr

/--
The interval of reals that read back as a double, over a common denominator: the double is
`value / denominator`, and its ends belong to it exactly when the mantissa is even.
-/
structure Interval where
  low : Nat
  value : Nat
  high : Nat
  denominator : Nat
  closed : Bool

/--
The interval of a magnitude. Its ends lie half way to the neighbouring doubles; below a power of
two the doubles lie twice as close.
-/
def Interval.ofMagnitude (a : Magnitude) : Interval :=
  let scale := Nat.pow 2 (a.exponent - 2).toNat
  let below := if a.mantissa = Nat.pow 2 52 && -1074 < a.exponent then 1 else 2
  { low := (4 * a.mantissa - below) * scale
    value := 4 * a.mantissa * scale
    high := (4 * a.mantissa + 2) * scale
    denominator := Nat.pow 2 (2 - a.exponent).toNat
    closed := a.mantissa % 2 = 0 }

/-- Whether the decimal lies in the interval. -/
def Interval.contains (i : Interval) (d : Decimal) : Bool :=
  let numerator := d.digits * Nat.pow 10 d.exponent.toNat * i.denominator
  let scale := Nat.pow 10 (-d.exponent).toNat
  if i.closed then i.low * scale ≤ numerator && numerator ≤ i.high * scale
  else i.low * scale < numerator && numerator < i.high * scale

/-- The number of decimal digits before the point, negative by the zeros that follow the point. -/
def Interval.pointPosition (i : Interval) : Int :=
  if i.denominator ≤ i.value then (Nat.toDigits 10 (i.value / i.denominator)).length
  else
    let inverse := (i.denominator + i.value - 1) / i.value
    1 - ((Nat.toDigits 10 (inverse - 1)).length : Int)

/-- Of the two neighbours on one decimal grid, the one that is in the interval; of two such the
nearer, and the upper one if they are equally near. -/
def Interval.onGrid? (i : Interval) (exponent : Int) : Option Decimal :=
  let numerator := i.value * Nat.pow 10 (-exponent).toNat
  let unit := i.denominator * Nat.pow 10 exponent.toNat
  let lower : Decimal := ⟨numerator / unit, exponent⟩
  let upper : Decimal := ⟨numerator / unit + 1, exponent⟩
  let nearerBelow := 2 * (numerator % unit) < unit
  match i.contains lower, i.contains upper with
  | true, true => some (if nearerBelow then lower else upper)
  | true, false => some lower
  | false, true => some upper
  | false, false => none

/-- The first grid, from `count` digits on, that has a decimal in the interval. -/
def Interval.search (i : Interval) (position : Int) : (attempts count : Nat) → Decimal
  | 0, count => ⟨i.value * Nat.pow 10 (count - position).toNat /
      (i.denominator * Nat.pow 10 (position - count).toNat), position - count⟩
  | attempts + 1, count =>
    (i.onGrid? (position - count)).getD (i.search position attempts (count + 1))

/-- The shortest decimal that reads back as the (nonzero) magnitude. -/
def ofMagnitude (a : Magnitude) : Decimal :=
  let i := Interval.ofMagnitude a
  i.search i.pointPosition 17 1

end ScriptEngine.Shortest
