/-!
# Code units

Scripts see a text as a sequence of 16-bit code units, although it is stored as characters:
`length`, indexing and the order of strings all count units. A character beyond the basic plane
has two units, its surrogates; one of them taken alone is no character and reads as U+FFFD.
-/
namespace ScriptEngine.Text

/-- The code units of a character: one, or the two surrogates of a supplementary character. -/
def charUnits (c : Char) : List Nat :=
  let n := c.toNat
  if n < 0x10000 then [n] else [0xD800 + (n - 0x10000) / 0x400, 0xDC00 + (n - 0x10000) % 0x400]

/-- The code units of a text. -/
def units (text : String) : List Nat := text.toList.flatMap charUnits

/-- The number of code units of a text, which scripts know as its length. -/
def unitLength (text : String) : Nat :=
  text.toList.foldl (fun count c => count + (if c.toNat < 0x10000 then 1 else 2)) 0

/-- A single unit as a text; a surrogate becomes the replacement character. -/
def ofUnit (unit : Nat) : String :=
  if h : Nat.isValidChar unit then String.singleton (Char.ofNatAux unit h) else "\uFFFD"

/-- The unit at an index, as a text. -/
def unitAt? (text : String) (index : Nat) : Option String := (units text)[index]?.map ofUnit

/-- The lexicographic order on sequences of units; a proper beginning is smaller. -/
def unitsLess : List Nat → List Nat → Bool
  | [], [] => false
  | [], _ :: _ => true
  | _ :: _, [] => false
  | a :: as, b :: bs => if a = b then unitsLess as bs else decide (a < b)

/-- The order of strings: by code units, not by characters. -/
def less (left right : String) : Bool := unitsLess (units left) (units right)

example : less "\uFFFF" "😀" = false ∧ less "😀" "\uFFFF" = true := by decide

end ScriptEngine.Text
