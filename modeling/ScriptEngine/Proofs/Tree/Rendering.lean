import ScriptEngine.Proofs.Grammar.Words
import ScriptEngine.Tree.Builder

/-!
# Rendering expressions

Writes an expression as a text that leaves no doubt about its structure: every expression inside
another one is put in parentheses, the keys of properties are quoted, and an array that ends in a hole
has one more comma. The builder reads each operator back from its text. What can be rendered is said
by `Plain`: everything but functions, accessors, fractions and names that are reserved.
-/
namespace ScriptEngine.Script

/-! ## The texts of operators -/

def unaryText : UnaryOperator → String
  | .minus => "-"
  | .plus => "+"
  | .logicalNot => "!"
  | .bitwiseNot => "~"
  | .typeOf => "typeof"
  | .void => "void"
  | .delete => "delete"

def updateText : UpdateOperator → String
  | .increment => "++"
  | .decrement => "--"

def binaryText : BinaryOperator → String
  | .looselyEqual => "=="
  | .looselyUnequal => "!="
  | .strictlyEqual => "==="
  | .strictlyUnequal => "!=="
  | .lessThan => "<"
  | .lessThanEqual => "<="
  | .greaterThan => ">"
  | .greaterThanEqual => ">="
  | .leftShift => "<<"
  | .rightShift => ">>"
  | .unsignedRightShift => ">>>"
  | .add => "+"
  | .subtract => "-"
  | .multiply => "*"
  | .divide => "/"
  | .modulo => "%"
  | .bitwiseOr => "|"
  | .bitwiseXor => "^"
  | .bitwiseAnd => "&"
  | .isIn => "in"
  | .instanceOf => "instanceof"

def logicalText : LogicalOperator → String
  | .or => "||"
  | .and => "&&"

/-- The operators that an assignment may apply first. -/
def assigns : BinaryOperator → Bool
  | .add | .subtract | .multiply | .divide | .modulo | .leftShift | .rightShift
  | .unsignedRightShift | .bitwiseOr | .bitwiseXor | .bitwiseAnd => true
  | _ => false

/-- The sign of an assignment: the operator that it applies first, if any, and an equals sign. -/
def assignmentText (operator : Option BinaryOperator) : String :=
  (operator.map binaryText).getD "" ++ "="

theorem unaryOperator?_unaryText (operator : UnaryOperator) :
    unaryOperator? (unaryText operator) = some operator := by cases operator <;> rfl

theorem updateOperator?_unaryText (operator : UnaryOperator) :
    updateOperator? (unaryText operator) = none := by cases operator <;> rfl

theorem updateOperator?_updateText (operator : UpdateOperator) :
    updateOperator? (updateText operator) = some operator := by cases operator <;> rfl

theorem binaryOperator?_binaryText (operator : BinaryOperator) :
    binaryOperator? (binaryText operator) = some operator := by cases operator <;> rfl

theorem assignmentOperator?_assignmentText {operator : Option BinaryOperator}
    (assigning : operator.all assigns = true) :
    assignmentOperator? (assignmentText operator) = some operator := by
  cases operator with
  | none => rfl
  | some operator => cases operator <;> first | rfl | cases assigning

/-! ## What can be rendered -/

namespace Plain

/-- A literal other than a fraction, and no larger than an integer literal can be. -/
def literal : Literal → Prop
  | .null | .boolean _ | .string _ => True
  | .integer value => value ≤ Literal.maxInteger
  | .double _ => False

mutual

def expression : Expression → Prop
  | .literal _ value => literal value
  | .identifier id => isIdentifier id.name = true
  | .this _ => True
  | .array _ elements => slots elements
  | .object _ nodes => properties nodes
  | .function _ => False
  | .unary _ _ argument | .update _ _ _ argument => expression argument
  | .binary _ _ left right | .logical _ _ left right | .index _ left right =>
    expression left ∧ expression right
  | .assign _ operator target value =>
    operator.all assigns = true ∧ expression target ∧ expression value
  | .conditional _ test consequent alternate =>
    expression test ∧ expression consequent ∧ expression alternate
  -- Behind a dot, reserved words are names as any others.
  | .member _ owner property => expression owner ∧ isName property.name.toList = true
  | .call _ callee arguments | .new _ callee arguments => expression callee ∧ expressions arguments
  | .sequence _ parts => 2 ≤ parts.length ∧ expressions parts

def expressions : List Expression → Prop
  | [] => True
  | e :: rest => expression e ∧ expressions rest

def slots : List (Option Expression) → Prop
  | [] => True
  | none :: rest => slots rest
  | some e :: rest => expression e ∧ slots rest

/-- Only data properties. -/
def properties : List PropertyNode → Prop
  | [] => True
  | .data _ _ value :: rest => expression value ∧ properties rest
  | .getter .. :: _ | .setter .. :: _ => False

end

end Plain

/-! ## Literals -/

/-- A character of a string as it is written between double quotes: quotes, backslashes and the ends
of lines are escaped. -/
def escapeChar : Char → List Char
  | '"' => ['\\', '"']
  | '\\' => ['\\', '\\']
  | '\n' => ['\\', 'n']
  | '\r' => ['\\', 'r']
  | '\u2028' => "\\u2028".toList
  | '\u2029' => "\\u2029".toList
  | c => [c]

def escaped (value : String) : List Char := value.toList.flatMap escapeChar

def quoted (value : String) : List Char := '"' :: (escaped value ++ ['"'])

def renderLiteral : Literal → List Char
  | .null => "null".toList
  | .boolean value => if value then "true".toList else "false".toList
  | .string value => quoted value
  | .integer value => (Text.decimal value).toList
  -- Fractions are not rendered.
  | .double _ => []

/-! ## Expressions -/

def parenthesized (chars : List Char) : List Char := '(' :: (chars ++ [')'])

/-- Texts with commas between them. -/
def commas (texts : List (List Char)) : List Char := [','].intercalate texts

/-- Whether an array ends in a hole. -/
def endsInHole (elements : List (Option Expression)) : Bool :=
  elements.getLast?.any Option.isNone

mutual

@[simp]
def render : Expression → List Char
  | .literal _ value => renderLiteral value
  | .identifier id => id.name.toList
  | .this _ => "this".toList
  | .array _ elements =>
    -- A last comma ends the slot in front of it, so a hole needs one of its own.
    '[' :: (commas (slotTexts elements ++ if endsInHole elements then [[]] else []) ++ [']'])
  | .object _ properties => '\x7b' :: (commas (propertyTexts properties) ++ ['\x7d'])
  -- Functions are not rendered.
  | .function _ => []
  | .unary _ operator argument => (unaryText operator).toList ++ parenthesized (render argument)
  | .update _ operator isPrefix argument =>
    if isPrefix then (updateText operator).toList ++ parenthesized (render argument)
    else parenthesized (render argument) ++ (updateText operator).toList
  | .binary _ operator left right =>
    parenthesized (render left) ++ ((binaryText operator).toList ++ parenthesized (render right))
  | .logical _ operator left right =>
    parenthesized (render left) ++ ((logicalText operator).toList ++ parenthesized (render right))
  | .assign _ operator target value =>
    parenthesized (render target) ++
      ((assignmentText operator).toList ++ parenthesized (render value))
  | .conditional _ test consequent alternate =>
    parenthesized (render test) ++ ('?' :: (parenthesized (render consequent) ++
      (':' :: parenthesized (render alternate))))
  | .member _ owner property => parenthesized (render owner) ++ ('.' :: property.name.toList)
  | .index _ owner property =>
    parenthesized (render owner) ++ ('[' :: (parenthesized (render property) ++ [']']))
  | .call _ callee arguments =>
    parenthesized (render callee) ++ parenthesized (commas (texts arguments))
  | .new _ callee arguments =>
    "new".toList ++ (parenthesized (render callee) ++ parenthesized (commas (texts arguments)))
  | .sequence _ parts => commas (texts parts)

@[simp]
def texts : List Expression → List (List Char)
  | [] => []
  | e :: rest => parenthesized (render e) :: texts rest

@[simp]
def slotTexts : List (Option Expression) → List (List Char)
  | [] => []
  | none :: rest => [] :: slotTexts rest
  | some e :: rest => parenthesized (render e) :: slotTexts rest

@[simp]
def propertyTexts : List PropertyNode → List (List Char)
  | [] => []
  | .data _ key value :: rest =>
    (quoted key ++ ':' :: parenthesized (render value)) :: propertyTexts rest
  -- Accessors are not rendered.
  | .getter .. :: rest | .setter .. :: rest => propertyTexts rest

end

/-- A script that is nothing but the expression. -/
def scriptText (e : Expression) : List Char := parenthesized (render e) ++ [';']

end ScriptEngine.Script
