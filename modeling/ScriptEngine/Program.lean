import ScriptEngine.Check.Rules
import ScriptEngine.Grammar.Outline
import ScriptEngine.Tree.Builder

/-!
# Programs

From source text to something that can run. Reading a script stops at the first problem: brackets
nested too deep, then the grammar, then what only shows while the tree is built. A tree that was
read is judged as a whole, and all of its problems are reported, in the order of their positions.
-/
namespace ScriptEngine

namespace Script

/-- The complaint about a text that the grammar does not match. -/
def unexpectedAt (source : List Char) (offset : Nat) : Problem :=
  match dropBytes offset source with
  | c :: _ => .unexpectedCharacter c
  | [] => .unexpectedEnd

/-- The concrete tree of a script whose brackets do not nest too deep. -/
def concrete (source : List Char) : Except LocatedProblem (Node Rule) :=
  match Nesting.firstTooDeep? source with
  | some offset => .error ⟨.nestingTooDeep, offset⟩
  | none =>
    match parse source with
    | .ok node => .ok node
    | .error offset => .error ⟨unexpectedAt source offset, offset⟩

/-- The tree of a script; `forceStrict` makes all of it strict code. -/
def tree (source : List Char) (forceStrict : Bool) : Except LocatedProblem ScriptTree := do
  let node ← concrete source
  (buildScript source forceStrict node).run Tracker.empty |>.run.1

/-- The diagnostic of a problem met while reading. -/
def diagnosticOfReading (source : List Char) (found : LocatedProblem) : Diagnostic :=
  ⟨found.problem, Position.byBreak source found.offset⟩

/-- Reads a script into its tree. -/
def read (source : String) (forceStrict : Bool) : Except Diagnostic ScriptTree :=
  let chars := source.toList
  (tree chars forceStrict).mapError (diagnosticOfReading chars)

/-- The outline of the concrete tree of a script. -/
def readOutline (source : String) : Except Diagnostic (List String) :=
  let chars := source.toList
  match concrete chars with
  | .ok node => .ok (outline chars 0 node)
  | .error found => .error (diagnosticOfReading chars found)

end Script

/-- A script that may run, with the name that its diagnostics would show. -/
structure Program where
  sourceName : String
  tree : ScriptTree

/-- Why a script may not run. -/
structure CompileError where
  sourceName : String
  diagnostics : List Diagnostic

/-- All diagnostics, one to a line. -/
def CompileError.message (e : CompileError) : String :=
  "\n".intercalate (e.diagnostics.map (·.render e.sourceName))

namespace Program

def strict (p : Program) : Bool := p.tree.scope.strict

/-- The diagnostics of a tree, in the order of their positions. -/
def diagnostics (source : List Char) (tree : ScriptTree) : List Diagnostic :=
  ((Check.script tree).map fun v => ⟨v.problem, Position.byFeed source v.offset⟩).mergeSort
    fun a b => !b.position.before a.position

/-- Reads and judges a script. -/
def compile (source sourceName : String) (forceStrict : Bool) : Except CompileError Program :=
  match Script.read source forceStrict with
  | .error d => .error ⟨sourceName, [d]⟩
  | .ok tree =>
    match diagnostics source.toList tree with
    | [] => .ok ⟨sourceName, tree⟩
    | found => .error ⟨sourceName, found⟩

end Program

end ScriptEngine
