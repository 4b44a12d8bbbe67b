import ScriptEngine.Text.Unprintable

/-!
# Quoted texts

A text in double quotes in which every character can be seen: quotes and backslashes are escaped,
some controls have names, and other unprintable characters are written by their code points.
-/
namespace ScriptEngine.Text

/-- A code point in hexadecimal, in braces. -/
def codeEscape (c : Char) : String :=
  "\\u\x7b" ++ String.ofList (Nat.toDigits 16 c.toNat) ++ "\x7d"

/-- A character as it is written between quotes. -/
def quoteChar (c : Char) : String :=
  if c = '"' then "\\\""
  else if c = '\\' then "\\\\"
  else if c = '\n' then "\\n"
  else if c = '\r' then "\\r"
  else if c = '\t' then "\\t"
  else if c = '\x00' then "\\0"
  else if ' ' ≤ c ∧ c ≤ '~' then String.singleton c
  else if isUnprintable c then codeEscape c
  else String.singleton c

/-- A text in double quotes. -/
def quote (chars : List Char) : String := "\"" ++ String.join (chars.map quoteChar) ++ "\""

end ScriptEngine.Text
