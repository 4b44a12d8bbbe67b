/-!
# The nesting limit

A script may nest brackets at most 128 deep, and this is checked before anything else is read.
Brackets inside string literals and comments do not count; for that the check has a rough idea
of its own of what these are. A string ends at its quote or at a line feed, and a backslash in it
hides the next character; a line comment ends at a line feed.
-/
namespace ScriptEngine.Nesting

/-- The deepest nesting that is accepted. -/
def limit : Nat := 128

/-- What the characters at hand belong to. -/
inductive Region where
  | code
  /-- After a slash that may open a comment. -/
  | slash
  | string (quote : Char)
  /-- After a backslash in a string. -/
  | escaped (quote : Char)
  | lineComment
  /-- In a block comment; `star` tells whether the last character was a star. -/
  | blockComment (star : Bool)
deriving DecidableEq, Repr

/-- The depth after a character of code, or nothing if it opens a bracket beyond the limit. -/
def bracket? (depth : Nat) (c : Char) : Option Nat :=
  if c = '(' ∨ c = '[' ∨ c = '\x7b' then (if depth < limit then some (depth + 1) else none)
  else if c = ')' ∨ c = ']' ∨ c = '\x7d' then some (depth - 1)
  else some depth

/-- The region that a character of code leads to. -/
def Region.ofCode (c : Char) : Region :=
  if c = '"' ∨ c = '\'' then .string c else if c = '/' then .slash else .code

/-- The byte offset of the first bracket that nests too deep, reading on from a region. -/
def search : List Char → (offset depth : Nat) → Region → Option Nat
  | [], _, _, _ => none
  | c :: rest, offset, depth, region =>
    let next := offset + c.utf8Size
    match region with
    | .string quote =>
      search rest next depth
        (if c = '\\' then .escaped quote else if c = '\n' ∨ c = quote then .code else .string quote)
    | .escaped quote => search rest next depth (.string quote)
    | .lineComment => search rest next depth (if c = '\n' then .code else .lineComment)
    | .blockComment star =>
      search rest next depth (if star ∧ c = '/' then .code else .blockComment (c = '*'))
    | .slash =>
      if c = '/' then search rest next depth .lineComment
      else if c = '*' then search rest next depth (.blockComment false)
      else match bracket? depth c with
        | some depth => search rest next depth (Region.ofCode c)
        | none => some offset
    | .code =>
      match bracket? depth c with
      | some depth => search rest next depth (Region.ofCode c)
      | none => some offset

/-- The byte offset of the first bracket that nests deeper than the limit, if there is one. -/
def firstTooDeep? (source : List Char) : Option Nat := search source 0 0 .code

end ScriptEngine.Nesting
