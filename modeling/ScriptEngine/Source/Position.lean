/-!
# Places in a source text

Trees and tokens are placed by byte offsets; what a person reads is a line and a column, both
counted from one, a column counting characters. Two conventions are in use for the end of a line.
Problems found while reading the text end a line at a line feed or at a carriage return with a
line feed; problems found in the finished tree end a line at a line feed only, so that a carriage
return is an ordinary character.
-/
namespace ScriptEngine

/-- A stretch of source text, from the byte at `start` up to before the byte at `stop`. -/
structure Span where
  start : Nat
  stop : Nat
deriving DecidableEq, Repr, Inhabited

/-- The smallest stretch that covers two others. -/
def Span.hull (a b : Span) : Span := ⟨min a.start b.start, max a.stop b.stop⟩

/-- A line and a column, counted from one. -/
structure Position where
  line : Nat
  column : Nat
deriving DecidableEq, Repr, Inhabited

namespace Position

def first : Position := ⟨1, 1⟩

def nextColumn (p : Position) : Position := ⟨p.line, p.column + 1⟩

def nextLine (p : Position) : Position := ⟨p.line + 1, 1⟩

/-- The order of reading: by line, then by column. -/
def before (a b : Position) : Bool :=
  a.line < b.line || (a.line == b.line && a.column < b.column)

/-- The position after the characters that start in the next `bytes` bytes; a line feed ends a
line. -/
def advanceByFeed : List Char → (bytes : Nat) → Position → Position
  | [], _, here => here
  | _ :: _, 0, here => here
  | c :: rest, bytes + 1, here =>
    advanceByFeed rest (bytes + 1 - c.utf8Size) (if c = '\n' then here.nextLine else here.nextColumn)

/-- The position of a byte offset, where only a line feed ends a line. -/
def byFeed (source : List Char) (offset : Nat) : Position := advanceByFeed source offset first

/-- As `advanceByFeed`, but a carriage return together with its line feed is one line end. -/
def advanceByBreak : List Char → (bytes : Nat) → Position → Position
  | [], _, here => here
  | _ :: _, 0, here => here
  | '\r' :: '\n' :: rest, bytes + 1, here => advanceByBreak rest (bytes - 1) here.nextLine
  | c :: rest, bytes + 1, here =>
    advanceByBreak rest (bytes + 1 - c.utf8Size) (if c = '\n' then here.nextLine else here.nextColumn)

/-- The position of a byte offset, where a line feed ends a line, alone or after a carriage
return. -/
def byBreak (source : List Char) (offset : Nat) : Position := advanceByBreak source offset first

example : byBreak "a\r\nb".toList 3 = ⟨2, 1⟩ ∧ byFeed "a\rb".toList 2 = ⟨1, 3⟩ := by decide

end Position

/-- The characters that start in the first `bytes` bytes. -/
def takeBytes : (bytes : Nat) → List Char → List Char
  | _, [] => []
  | 0, _ :: _ => []
  | bytes + 1, c :: rest => c :: takeBytes (bytes + 1 - c.utf8Size) rest

/-- What is left after the characters that start in the first `bytes` bytes. -/
def dropBytes : (bytes : Nat) → List Char → List Char
  | _, [] => []
  | 0, c :: rest => c :: rest
  | bytes + 1, c :: rest => dropBytes (bytes + 1 - c.utf8Size) rest

/-- The characters of a stretch of the source. -/
def Span.slice (span : Span) (source : List Char) : List Char :=
  takeBytes (span.stop - span.start) (dropBytes span.start source)

/-- The number of bytes of a text. -/
def byteLength (chars : List Char) : Nat := chars.foldl (fun count c => count + c.utf8Size) 0

end ScriptEngine
