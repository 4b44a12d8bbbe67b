import ScriptEngine.Source.Nesting
import ScriptEngine.Source.Position
import ScriptEngine.Text.Digit

/-!
# Problems of a source text

Everything that can be wrong with a script before it runs, by cause. The wording stands in one
place, `Problem.message`; a diagnostic is a problem together with a position.
-/
namespace ScriptEngine

/-- What can be wrong with a script. -/
inductive Problem where
  | nestingTooDeep
  | unexpectedCharacter (c : Char)
  | unexpectedEnd
  /-- A concrete tree that no rule of the grammar makes. -/
  | malformedNode
  | invalidEscape
  | invalidHexEscape
  | repeatedDefault
  | missingHandler
  | alreadyDeclared (name : String)
  | restrictedName
  | reservedName
  | repeatedParameter
  | illegalReturn
  | illegalBreak
  | undefinedLabel (name : String)
  | repeatedLabel (name : String)
  | continueOutsideLoop
  | continueToNonLoop (name : String)
  | missingInitializer
  | deleteOfIdentifier
  | invalidAssignmentTarget
  | invalidForInTarget
  | invalidUpdateTarget (isPrefix : Bool)
deriving DecidableEq, Repr

def Problem.message : Problem → String
  | nestingTooDeep => "Nesting exceeds the maximum depth of " ++ Text.decimal Nesting.limit
  | unexpectedCharacter c => "Unexpected token '" ++ String.singleton c ++ "'"
  | unexpectedEnd => "Unexpected end of input"
  | malformedNode => "Unexpected end of syntax node"
  | invalidEscape => "Invalid escape sequence"
  | invalidHexEscape => "Invalid hexadecimal escape sequence"
  | repeatedDefault => "More than one default clause in switch statement"
  | missingHandler => "Missing catch or finally after try"
  | alreadyDeclared name => "Identifier '" ++ name ++ "' has already been declared"
  | restrictedName => "Unexpected eval or arguments in strict mode"
  | reservedName => "Unexpected strict mode reserved word"
  | repeatedParameter => "Duplicate parameter name not allowed in this context"
  | illegalReturn => "Illegal return statement"
  | illegalBreak => "Illegal break statement"
  | undefinedLabel name => "Undefined label '" ++ name ++ "'"
  | repeatedLabel name => "Label '" ++ name ++ "' has already been declared"
  | continueOutsideLoop => "Illegal continue statement: no surrounding iteration statement"
  | continueToNonLoop name =>
    "Illegal continue statement: '" ++ name ++ "' does not denote an iteration statement"
  | missingInitializer => "Missing initializer in const declaration"
  | deleteOfIdentifier => "Delete of an unqualified identifier in strict mode."
  | invalidAssignmentTarget => "Invalid left-hand side in assignment"
  | invalidForInTarget => "Invalid left-hand side in for-in"
  | invalidUpdateTarget isPrefix =>
    if isPrefix then "Invalid left-hand side expression in prefix operation"
    else "Invalid left-hand side expression in postfix operation"

/-- A problem and the byte offset where it is. -/
structure LocatedProblem where
  problem : Problem
  offset : Nat
deriving DecidableEq, Repr

/-- A problem and the position it is reported at. -/
structure Diagnostic where
  problem : Problem
  position : Position
deriving DecidableEq, Repr

/-- The text of a diagnostic in a named source. -/
def Diagnostic.render (d : Diagnostic) (sourceName : String) : String :=
  "SyntaxError: " ++ d.problem.message ++ " (" ++ sourceName ++ ":" ++
    Text.decimal d.position.line ++ ":" ++ Text.decimal d.position.column ++ ")"

end ScriptEngine
