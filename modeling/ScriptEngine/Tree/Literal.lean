import ScriptEngine.Number.Text
import ScriptEngine.Source.Diagnostic
import ScriptEngine.Tree.Basic

/-!
# Reading literals

From the text of a literal token to its value: numbers, the escapes of strings, and the names of
properties, which may be written as numbers.
-/
namespace ScriptEngine.Literal

/-- The largest integer literal. -/
def maxInteger : Nat := Nat.pow 2 63 - 1

/-- The value of a numeric token: hexadecimal after `0x`, otherwise decimal. A whole number is
kept as an integer as long as it fits a word. -/
def ofNumeric? (token : List Char) : Option Literal :=
  match token with
  | '0' :: 'x' :: digits | '0' :: 'X' :: digits =>
    let value := Text.ofHexDigits digits
    some (if value ≤ maxInteger then .integer value else .double (Number.hexFloat digits))
  | _ =>
    (Number.readLiteral? token).map fun literal =>
      if token.all Char.isDigit && Text.ofDigits token ≤ maxInteger then
        .integer (Text.ofDigits token)
      else .double literal.toFloat

/-- The name of a property that is written as a number: the text of the double that it denotes. -/
def propertyName? (token : List Char) : Option String :=
  match ofNumeric? token with
  | some (.integer value) => some (Number.floatText (Float.ofNat value))
  | some (.double value) => some (Number.floatText value)
  | _ => none

/-- Exactly `count` hexadecimal digits, and what follows them. -/
def hexDigits? (chars : List Char) (count : Nat) : Option (Nat × List Char) :=
  let digits := chars.take count
  if digits.length = count ∧ digits.all Text.isHexDigit then
    some (Text.ofHexDigits digits, chars.drop count)
  else none

/-- A code point; a surrogate is none and is replaced. -/
def codePoint (code : Nat) : Char :=
  if h : Nat.isValidChar code then Char.ofNatAux code h else '\ufffd'

def isHighSurrogate (code : Nat) : Bool := 0xD800 ≤ code && code < 0xDC00

def isLowSurrogate (code : Nat) : Bool := 0xDC00 ≤ code && code < 0xE000

/-- A second escape that completes a surrogate pair, and what follows it. -/
def lowSurrogate? : List Char → Option (Nat × List Char)
  | '\\' :: 'u' :: rest => (hexDigits? rest 4).filter fun found => isLowSurrogate found.1
  | _ => none

/-- The character of a code unit, joined with the next escape if the two are a surrogate pair. -/
def joinUnit (code : Nat) (rest : List Char) : Char × List Char :=
  if isHighSurrogate code then
    match lowSurrogate? rest with
    | some (low, rest) => (codePoint (0x10000 + (code - 0xD800) * 0x400 + (low - 0xDC00)), rest)
    | none => ('\ufffd', rest)
  else (codePoint code, rest)

/-- What an escape stands for, if anything, and what follows it; `chars` begins after the
backslash. -/
def escape (chars : List Char) : Except Problem (Option Char × List Char) :=
  match chars with
  | [] => .error .invalidEscape
  | 'n' :: rest => .ok ('\n', rest)
  | 't' :: rest => .ok ('\t', rest)
  | 'r' :: rest => .ok ('\r', rest)
  | 'b' :: rest => .ok ('\x08', rest)
  | 'f' :: rest => .ok ('\x0c', rest)
  | 'v' :: rest => .ok ('\x0b', rest)
  | '0' :: rest =>
    .ok (if (rest.head?.map Char.isDigit).getD false then '0' else '\x00', rest)
  | 'x' :: rest =>
    match hexDigits? rest 2 with
    | some (code, rest) => .ok (codePoint code, rest)
    | none => .error .invalidHexEscape
  | 'u' :: rest =>
    match hexDigits? rest 4 with
    | some (code, rest) =>
      let (c, rest) := joinUnit code rest
      .ok (c, rest)
    | none => .error .invalidHexEscape
  | '\r' :: '\n' :: rest => .ok (none, rest)
  | '\r' :: rest | '\n' :: rest | '\u2028' :: rest | '\u2029' :: rest => .ok (none, rest)
  | c :: rest => .ok (c, rest)

/-- Replaces the escapes. Each round reads at least one character, so as many rounds as there are
characters suffice. -/
def unescapeWithin : (rounds : Nat) → List Char → Except Problem (List Char)
  | _, [] => .ok []
  | 0, _ :: _ => .ok []
  | rounds + 1, '\\' :: rest => do
    let (c, rest) ← escape rest
    let chars ← unescapeWithin rounds rest
    pure (c.toList ++ chars)
  | rounds + 1, c :: rest => do
    let chars ← unescapeWithin rounds rest
    pure (c :: chars)

/-- The text that the characters between the quotes of a string stand for. -/
def unescape (raw : List Char) : Except Problem (List Char) := unescapeWithin raw.length raw

example : (unescape "\\ud83d\\ude00\\x41".toList).toOption = some ['😀', 'A'] := by decide

end ScriptEngine.Literal
