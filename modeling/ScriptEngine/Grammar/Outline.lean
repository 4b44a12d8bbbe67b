import ScriptEngine.Grammar.Script
import ScriptEngine.Text.Quoted

/-!
# Outlines

A concrete tree as text, one node to a line: two spaces for each level, the name of the rule, the
byte offsets, and the quoted text of the node.
-/
namespace ScriptEngine

def Level.name : Level → String
  | multiplicative => "multiplicative"
  | additive => "additive"
  | shift => "shift"
  | relational => "relational"
  | equality => "equality"
  | bitwiseAnd => "bitwise_and"
  | bitwiseXor => "bitwise_xor"
  | bitwiseOr => "bitwise_or"

/-- The name of a rule in an outline. -/
def Rule.name : Rule → String
  | identifier => "identifier"
  | identifierName => "identifier_name"
  | literal => "literal"
  | nullLiteral => "null_literal"
  | booleanLiteral => "boolean_literal"
  | numericLiteral => "numeric_literal"
  | stringLiteral => "string_literal"
  | doubleStringChars => "double_string_chars"
  | singleStringChars => "single_string_chars"
  | thisExpression => "this_expression"
  | primaryExpression => "primary_expression"
  | arrayLiteral => "array_literal"
  | arraySlot => "array_slot"
  | objectLiteral => "object_literal"
  | getterProperty => "getter_property"
  | setterProperty => "setter_property"
  | dataProperty => "data_property"
  | propertyName => "property_name"
  | functionExpression => "function_expression"
  | formalParameters => "formal_parameters"
  | functionBody => "function_body"
  | memberExpression => "member_expression"
  | newWithArguments => "new_with_arguments"
  | newBare => "new_bare"
  | memberDot => "member_dot"
  | memberIndex => "member_index"
  | arguments => "arguments"
  | lhsExpression => "lhs_expression"
  | postfixExpression => "postfix_expression"
  | postfixOperator => "postfix_operator"
  | unaryExpression => "unary_expression"
  | prefixOperator => "prefix_operator"
  | binary level => level.name
  | operator level => level.name ++ "_operator"
  | logicalAnd => "logical_and"
  | logicalOr => "logical_or"
  | conditional => "conditional"
  | assignment => "assignment"
  | assignmentOperator => "assignment_operator"
  | expression => "expression"
  | script => "script"
  | functionDeclaration => "function_declaration"
  | lexicalDeclaration => "lexical_declaration"
  | lexicalKind => "lexical_kind"
  | variableStatement => "variable_statement"
  | variableDeclaration => "variable_declaration"
  | block => "block"
  | emptyStatement => "empty_statement"
  | expressionStatement => "expression_statement"
  | ifStatement => "if_statement"
  | doWhileStatement => "do_while_statement"
  | whileStatement => "while_statement"
  | forInStatement => "for_in_statement"
  | forBinding => "for_binding"
  | forKind => "for_kind"
  | forStatement => "for_statement"
  | forInit => "for_init"
  | forDeclaration => "for_declaration"
  | forTest => "for_test"
  | forUpdate => "for_update"
  | continueStatement => "continue_statement"
  | breakStatement => "break_statement"
  | returnStatement => "return_statement"
  | throwStatement => "throw_statement"
  | debuggerStatement => "debugger_statement"
  | switchStatement => "switch_statement"
  | switchClause => "switch_clause"
  | caseTest => "case_test"
  | defaultTest => "default_test"
  | labelledStatement => "labelled_statement"
  | tryStatement => "try_statement"
  | catchClause => "catch_clause"
  | finallyClause => "finally_clause"

namespace Script

/-- The line of one node, `depth` levels down. -/
def outlineLine (source : List Char) (depth : Nat) (node : Node Rule) : String :=
  let span := node.span
  "".pushn ' ' (2 * depth) ++ node.rule.name ++ " => (" ++ Text.decimal span.start ++ "," ++
    Text.decimal span.stop ++ ") #" ++ Text.quote (span.slice source)

mutual

/-- The lines of a node and of everything below it. -/
def outline (source : List Char) (depth : Nat) : Node Rule → List String
  | .token rule span text => [outlineLine source depth (.token rule span text)]
  | .branch rule span children =>
    outlineLine source depth (.branch rule span children) :: outlines source (depth + 1) children

/-- The lines of several nodes, one after the other. -/
def outlines (source : List Char) (depth : Nat) : List (Node Rule) → List String
  | [] => []
  | node :: rest => outline source depth node ++ outlines source depth rest

end

end Script

end ScriptEngine
