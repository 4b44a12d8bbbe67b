import ScriptEngine.Number.Basic
import ScriptEngine.Number.Shortest
import ScriptEngine.Text.Blank
import ScriptEngine.Text.Digit

/-!
# The text of numbers

How numbers are written and read. A number is written with the fewest digits that read back;
positionally from `0.000001` up to below `10 ^ 21`, and in scientific form outside. A text is
read as a number if, apart from the white space around it, it is empty, an infinity, a
hexadecimal literal or a decimal literal; every other text reads as NaN.
-/
namespace ScriptEngine.Number

/-- The point stands after the first `position` digits of `digits`; zeros are filled in. -/
def positional (digits : List Char) (position : Int) : List Char :=
  if position ≤ 0 then '0' :: '.' :: (List.replicate (-position).toNat '0' ++ digits)
  else if digits.length ≤ position then
    digits ++ List.replicate (position - digits.length).toNat '0'
  else digits.take position.toNat ++ '.' :: digits.drop position.toNat

/-- One digit before the point, and the exponent with its sign. -/
def scientific (digits : List Char) (position : Int) : List Char :=
  let mantissa := match digits with
    | first :: second :: rest => first :: '.' :: second :: rest
    | _ => digits
  let exponent := position - 1
  mantissa ++ 'e' :: (if exponent < 0 then '-' else '+') :: Nat.toDigits 10 exponent.natAbs

/-- Writes a decimal: positionally if at most six zeros precede or 21 digits stand before the
point, and otherwise in scientific form. -/
def writeDecimal (d : Shortest.Decimal) : List Char :=
  let all := Nat.toDigits 10 d.digits
  let position := all.length + d.exponent
  let digits := (all.reverse.dropWhile (· == '0')).reverse
  if -6 < position ∧ position ≤ 21 then positional digits position else scientific digits position

/-- The text of a double. Both zeros are written as `0`. -/
def floatText (x : Float) : String :=
  match Binary64.magnitude? x with
  | some a =>
    if a.mantissa = 0 then "0"
    else
      let digits := writeDecimal (Shortest.ofMagnitude a)
      String.ofList (if Binary64.isNegative x then '-' :: digits else digits)
  | none =>
    if x.isNaN then "NaN" else if Binary64.isNegative x then "-Infinity" else "Infinity"

/-- The text of a number. An integer is written without going through a double. -/
def text : Number → String
  | nan => "NaN"
  | infinity => "Infinity"
  | negInfinity => "-Infinity"
  | integer n => Text.signedDecimal n
  | double x => floatText x

/-- A decimal literal taken apart: whole digits, digits after the point, and the exponent. -/
structure Literal where
  whole : List Char
  fraction : List Char
  exponent : Int

/-- The exponent part after `e`: an optional sign and at least one digit, up to the end. -/
def readExponent? (chars : List Char) : Option Int :=
  let (negative, digits) := match chars with
    | '-' :: rest => (true, rest)
    | '+' :: rest => (false, rest)
    | rest => (false, rest)
  if digits.isEmpty || !digits.all Char.isDigit then none
  else some (if negative then -(Text.ofDigits digits : Int) else Text.ofDigits digits)

/-- An unsigned decimal literal that makes up the whole text: digits with an optional point and at
least one digit on some side of it, and an optional exponent. -/
def readLiteral? (chars : List Char) : Option Literal :=
  let whole := chars.takeWhile Char.isDigit
  let (fraction, rest) := match chars.dropWhile Char.isDigit with
    | '.' :: rest => (rest.takeWhile Char.isDigit, rest.dropWhile Char.isDigit)
    | rest => ([], rest)
  if whole.isEmpty && fraction.isEmpty then none
  else match rest with
    | [] => some ⟨whole, fraction, 0⟩
    | 'e' :: rest | 'E' :: rest => (readExponent? rest).map fun e => ⟨whole, fraction, e⟩
    | _ => none

/--
The double nearest to a literal, ties to the even one. Exponents far outside the range of doubles
are decided without computing a power: with `count` digits the literal is below
`10 ^ (count + exponent)`.
-/
def Literal.toFloat (l : Literal) : Float :=
  let digits := l.whole ++ l.fraction
  let value := Text.ofDigits digits
  let exponent := l.exponent - l.fraction.length
  if value = 0 then 0.0
  else if 400 < (Nat.toDigits 10 value).length + exponent then 1.0 / 0.0
  else if (Nat.toDigits 10 value).length + exponent < -400 then 0.0
  else Float.ofScientific value (exponent < 0) exponent.natAbs

/-- The nearest double of the hexadecimal digits, rounded digit by digit. -/
def hexFloat (digits : List Char) : Float :=
  digits.foldl (fun acc c => acc * 16.0 + Float.ofNat ((Text.hexDigit? c).getD 0)) 0.0

/-- The words that the reader of doubles knows in either letter case. -/
def readWord? (chars : List Char) : Option Float :=
  let word := chars.map Char.toLower
  if word = "inf".toList ∨ word = "infinity".toList then some (1.0 / 0.0)
  else if word = "nan".toList then some (0.0 / 0.0)
  else none

/-- Reads a word or a decimal literal. -/
def readUnsigned? (chars : List Char) : Option Float :=
  (readWord? chars).or ((readLiteral? chars).map Literal.toFloat)

/-- Reads a word or a decimal literal, optionally signed. -/
def readSigned? : List Char → Option Float
  | '-' :: rest => (readUnsigned? rest).map fun x => -x
  | '+' :: rest => readUnsigned? rest
  | rest => readUnsigned? rest

/-- What decimal literals with their signs are made of. The words are kept out by it. -/
def isLiteralChar (c : Char) : Bool :=
  c.isDigit || c == '.' || c == 'e' || c == 'E' || c == '+' || c == '-'

/-- Reads the text between the white space. -/
def readTrimmed (chars : List Char) : Number :=
  match chars with
  | [] => zero
  | '0' :: 'x' :: digits | '0' :: 'X' :: digits =>
    if !digits.isEmpty && digits.all Text.isHexDigit then ofFloat (hexFloat digits) else nan
  | _ =>
    if chars = "Infinity".toList ∨ chars = "+Infinity".toList then infinity
    else if chars = "-Infinity".toList then negInfinity
    else if chars.all isLiteralChar then ((readSigned? chars).map ofFloat).getD nan
    else nan

/-- The number that a text denotes; NaN if it denotes none. -/
def ofText (source : String) : Number := readTrimmed (Text.trim source.toList)

end ScriptEngine.Number
