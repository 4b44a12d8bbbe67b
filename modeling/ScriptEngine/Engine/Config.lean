import ScriptEngine.Text.Blank
import ScriptEngine.Text.Digit

/-!
# Configuration

How an engine is set up, and how settings given as texts change that. A setting that does not read
is left alone.
-/
namespace ScriptEngine

structure Config where
  /-- All scripts are strict code. -/
  strict : Bool := false
  /-- The number of calls that can be in progress. -/
  maxCallDepth : Nat := 512
  /-- The library is there from the start. -/
  builtins : Bool := true
  /-- The name of sources that come without one. -/
  sourceName : String := "<eval>"
deriving DecidableEq, Repr

namespace Config

/-- Reads a flag; letter case and surrounding white space do not count. -/
def readFlag? (text : String) : Option Bool :=
  match String.ofList ((Text.trim text.toList).map Char.toLower) with
  | "1" | "true" | "yes" | "on" => some true
  | "0" | "false" | "no" | "off" => some false
  | _ => none

/-- Reads a depth: a positive number of at most 64 bits, possibly after a plus sign. -/
def readDepth? (text : String) : Option Nat :=
  let digits := match Text.trim text.toList with
    | '+' :: rest => rest
    | chars => chars
  if digits.isEmpty || !digits.all Char.isDigit then none
  else
    let depth := Text.ofDigits digits
    if 0 < depth && depth < Nat.pow 2 64 then some depth else none

/-- The configuration that settings for the strictness and the depth ask for. -/
def ofSettings (strict depth : Option String) : Config :=
  let usual : Config := {}
  { usual with
    strict := (strict.bind readFlag?).getD usual.strict
    maxCallDepth := (depth.bind readDepth?).getD usual.maxCallDepth }

end Config

end ScriptEngine
