import ScriptEngine.Grammar.Pattern
import ScriptEngine.Text.Digit

/-!
# The grammar of scripts

White space is spelled out: `gap` is any white space, line breaks and comments, and `inlineGap` is
the same without a line break. This is what makes the ends of statements expressible, where a line
break may stand for a semicolon, and the places where no line break is allowed.

Binary operators have eight levels, from the multiplicative ones outwards. Each level is a rule
whose operands are of the next tighter level, so a tree of this grammar has a node for every
level, whether or not an operator occurs there.
-/
namespace ScriptEngine

/-- The levels of binary operators, the tightest first. -/
inductive Level where
  | multiplicative
  | additive
  | shift
  | relational
  | equality
  | bitwiseAnd
  | bitwiseXor
  | bitwiseOr
deriving DecidableEq, Repr

/-- The rules of the grammar. -/
inductive Rule where
  | identifier
  | identifierName
  | literal
  | nullLiteral
  | booleanLiteral
  | numericLiteral
  | stringLiteral
  | doubleStringChars
  | singleStringChars
  | thisExpression
  | primaryExpression
  | arrayLiteral
  | arraySlot
  | objectLiteral
  | getterProperty
  | setterProperty
  | dataProperty
  | propertyName
  | functionExpression
  | formalParameters
  | functionBody
  | memberExpression
  | newWithArguments
  | newBare
  | memberDot
  | memberIndex
  | arguments
  | lhsExpression
  | postfixExpression
  | postfixOperator
  | unaryExpression
  | prefixOperator
  | binary (level : Level)
  | operator (level : Level)
  | logicalAnd
  | logicalOr
  | conditional
  | assignment
  | assignmentOperator
  | expression
  | script
  | functionDeclaration
  | lexicalDeclaration
  | lexicalKind
  | variableStatement
  | variableDeclaration
  | block
  | emptyStatement
  | expressionStatement
  | ifStatement
  | doWhileStatement
  | whileStatement
  | forInStatement
  | forBinding
  | forKind
  | forStatement
  | forInit
  | forDeclaration
  | forTest
  | forUpdate
  | continueStatement
  | breakStatement
  | returnStatement
  | throwStatement
  | debuggerStatement
  | switchStatement
  | switchClause
  | caseTest
  | defaultTest
  | labelledStatement
  | tryStatement
  | catchClause
  | finallyClause
deriving DecidableEq, Repr

namespace Script

/-- A pattern over the rules of scripts. -/
abbrev Part := Pattern Rule

/-- One part after the other. -/
instance : Append Part := ⟨Pattern.seq⟩

/-- The first part that matches. -/
instance : OrOp Part := ⟨Pattern.alt⟩

def sign (source : String) : Part := .text source.toList

def one (accepts : Char → Bool) : Part := .one accepts

def anyChar : Part := one fun _ => true

/-- At least once. -/
def oneOrMore (item : Part) : Part := item ++ .many item

/-! ## White space and the ends of statements -/

def isSpace (c : Char) : Bool :=
  c == ' ' || c == '\t' || c == '\x0b' || c == '\x0c' || c == '\u00a0' || c == '\ufeff'

def isLineBreak (c : Char) : Bool :=
  c == '\n' || c == '\r' || c == '\u2028' || c == '\u2029'

def space : Part := one isSpace

/-- A line break; a carriage return and a line feed are one. -/
def lineTerminator : Part := sign "\r\n" ||| one isLineBreak

def blockComment : Part := sign "/*" ++ .many (.notAhead (sign "*/") ++ anyChar) ++ sign "*/"

def inlineBlockComment : Part :=
  sign "/*" ++ .many (.notAhead (sign "*/" ||| lineTerminator) ++ anyChar) ++ sign "*/"

def lineComment : Part := sign "//" ++ .many (.notAhead lineTerminator ++ anyChar)

def gap : Part := .many (space ||| lineTerminator ||| blockComment ||| lineComment)

def inlineGap : Part := .many (space ||| inlineBlockComment)

/-- The end of a statement: a semicolon, a line break, a closing brace ahead, or the end of the
text. -/
def statementEnd : Part :=
  inlineGap ++ (sign ";" ||| lineTerminator ||| lineComment ||| blockComment |||
    .ahead (sign "\x7d") ||| .notAhead anyChar)

/-! ## Words -/

def isLetter (c : Char) : Bool := ('a' ≤ c && c ≤ 'z') || ('A' ≤ c && c ≤ 'Z')

def isNameStart (c : Char) : Bool := isLetter c || c == '$' || c == '_'

def isNamePart (c : Char) : Bool := isNameStart c || c.isDigit

def wordEnd : Part := .notAhead (one isNamePart)

/-- A word that does not go on. -/
def word (source : String) : Part := sign source ++ wordEnd

/-- The reserved words. A word comes before its own beginnings. -/
def reservedWords : List String :=
  ["break", "case", "catch", "continue", "debugger", "default", "delete", "do", "else", "finally",
    "for", "function", "if", "instanceof", "in", "new", "return", "switch", "this", "throw", "try",
    "typeof", "var", "void", "while", "with", "class", "const", "enum", "export", "extends",
    "import", "super", "null", "true", "false"]

/-- The first of several texts that stands here. -/
def anyOf : List String → Part
  | [] => one fun _ => false
  | [source] => sign source
  | source :: rest => sign source ||| anyOf rest

def reserved : Part := anyOf reservedWords ++ wordEnd

def name : Part := one isNameStart ++ .many (one isNamePart)

/-! ## Literals -/

def digit : Part := one Char.isDigit

def hexDigits : Part := (sign "0x" ||| sign "0X") ++ oneOrMore (one Text.isHexDigit)

def exponent : Part :=
  (sign "e" ||| sign "E") ++ .optional (sign "+" ||| sign "-") ++ oneOrMore digit

def decimalDigits : Part :=
  ((sign "0" ||| one (fun c => c.isDigit && c != '0') ++ .many digit) ++
      .optional (sign "." ++ .many digit) |||
    sign "." ++ oneOrMore digit) ++
    .optional exponent

/-- The characters of a string up to its quote; a backslash takes the next character along. -/
def stringChars (quote : Char) : Part :=
  .many (sign "\\" ++ (sign "\r\n" ||| anyChar) |||
    .notAhead (one (· == quote) ||| sign "\\" ||| lineTerminator) ++ anyChar)

/-! ## Lists and brackets -/

/-- Items with commas between them. -/
def commaList (item : Part) : Part := item ++ .many (gap ++ sign "," ++ gap ++ item)

def inParentheses (item : Part) : Part := sign "(" ++ gap ++ item ++ gap ++ sign ")"

def inSquares (item : Part) : Part := sign "[" ++ gap ++ item ++ gap ++ sign "]"

def inBraces (items : Part) : Part := sign "\x7b" ++ items ++ gap ++ sign "\x7d"

def assignment : Part := .rule .assignment

def expression : Part := .rule .expression

def identifier : Part := .rule .identifier

def functionBlock : Part := inBraces (.rule .functionBody)

def property : Part :=
  .rule .getterProperty ||| .rule .setterProperty ||| .rule .dataProperty

def declarators : Part := commaList (.rule .variableDeclaration)

/-! ## Statements -/

def statement : Part :=
  .rule .block ||| .rule .variableStatement ||| .rule .emptyStatement ||| .rule .ifStatement |||
    .rule .forInStatement ||| .rule .forStatement ||| .rule .whileStatement |||
    .rule .doWhileStatement ||| .rule .continueStatement ||| .rule .breakStatement |||
    .rule .returnStatement ||| .rule .switchStatement ||| .rule .throwStatement |||
    .rule .tryStatement ||| .rule .debuggerStatement ||| .rule .labelledStatement |||
    .rule .expressionStatement

/-- A statement or a declaration, as it stands in a list. -/
def item : Part := .rule .functionDeclaration ||| .rule .lexicalDeclaration ||| statement

def items : Part := .many (gap ++ item)

/-! ## Operators -/

/-- What the operands of a level are. -/
def operand : Level → Part
  | .multiplicative => .rule .unaryExpression
  | .additive => .rule (.binary .multiplicative)
  | .shift => .rule (.binary .additive)
  | .relational => .rule (.binary .shift)
  | .equality => .rule (.binary .relational)
  | .bitwiseAnd => .rule (.binary .equality)
  | .bitwiseXor => .rule (.binary .bitwiseAnd)
  | .bitwiseOr => .rule (.binary .bitwiseXor)

/-- The operators of a level; the beginning of an assignment operator is none. -/
def operators : Level → Part
  | .multiplicative => (sign "*" ||| sign "/" ||| sign "%") ++ .notAhead (sign "=")
  | .additive =>
    sign "+" ++ .notAhead (sign "+" ||| sign "=") ||| sign "-" ++ .notAhead (sign "-" ||| sign "=")
  | .shift => (sign ">>>" ||| sign "<<" ||| sign ">>") ++ .notAhead (sign "=")
  | .relational =>
    sign "<=" ||| sign ">=" ||| sign "<" ||| sign ">" |||
      (sign "instanceof" ||| sign "in") ++ wordEnd
  | .equality => anyOf ["===", "!==", "==", "!="]
  | .bitwiseAnd => sign "&" ++ .notAhead (sign "&" ||| sign "=")
  | .bitwiseXor => sign "^" ++ .notAhead (sign "=")
  | .bitwiseOr => sign "|" ++ .notAhead (sign "|" ||| sign "=")

/-! ## The rules -/

/-- The pattern of each rule. -/
def pattern : Rule → Part
  | .identifier => .notAhead reserved ++ name
  | .identifierName => name
  | .literal =>
    .rule .nullLiteral ||| .rule .booleanLiteral ||| .rule .numericLiteral ||| .rule .stringLiteral
  | .nullLiteral => word "null"
  | .booleanLiteral => (sign "true" ||| sign "false") ++ wordEnd
  | .numericLiteral =>
    (hexDigits ||| decimalDigits) ++ .notAhead (one isNameStart ||| digit)
  | .stringLiteral =>
    sign "\"" ++ .rule .doubleStringChars ++ sign "\"" |||
      sign "'" ++ .rule .singleStringChars ++ sign "'"
  | .doubleStringChars => stringChars '"'
  | .singleStringChars => stringChars '\''
  | .thisExpression => word "this"
  | .primaryExpression =>
    .rule .thisExpression ||| .rule .literal ||| identifier ||| .rule .arrayLiteral |||
      .rule .objectLiteral ||| .rule .functionExpression ||| inParentheses expression
  | .arrayLiteral => inSquares (commaList (.rule .arraySlot))
  | .arraySlot => .optional assignment
  | .objectLiteral =>
    sign "\x7b" ++ gap ++ .optional (commaList property ++ .optional (gap ++ sign ",")) ++ gap ++
      sign "\x7d"
  | .getterProperty =>
    sign "get" ++ gap ++ .rule .propertyName ++ gap ++ sign "(" ++ gap ++ sign ")" ++ gap ++
      functionBlock
  | .setterProperty =>
    sign "set" ++ gap ++ .rule .propertyName ++ gap ++ inParentheses identifier ++ gap ++
      functionBlock
  | .dataProperty => .rule .propertyName ++ gap ++ sign ":" ++ gap ++ assignment
  | .propertyName => .rule .identifierName ||| .rule .stringLiteral ||| .rule .numericLiteral
  | .functionExpression =>
    word "function" ++ gap ++ .optional (identifier ++ gap) ++ .rule .formalParameters ++ gap ++
      functionBlock
  | .formalParameters => inParentheses (.optional (commaList identifier))
  | .functionBody => items
  | .memberExpression =>
    (.rule .primaryExpression ||| .rule .newWithArguments) ++
      .many (gap ++ (.rule .memberDot ||| .rule .memberIndex))
  | .newWithArguments =>
    word "new" ++ gap ++ .rule .memberExpression ++ gap ++ .rule .arguments
  | .newBare => word "new" ++ gap ++ (.rule .newBare ||| .rule .memberExpression)
  | .memberDot => sign "." ++ gap ++ .rule .identifierName
  | .memberIndex => inSquares expression
  | .arguments => inParentheses (.optional (commaList assignment))
  | .lhsExpression =>
    .rule .memberExpression ++
        .many (gap ++ (.rule .arguments ||| .rule .memberDot ||| .rule .memberIndex)) |||
      .rule .newBare
  | .postfixExpression => .rule .lhsExpression ++ .optional (inlineGap ++ .rule .postfixOperator)
  | .postfixOperator => sign "++" ||| sign "--"
  | .unaryExpression =>
    .rule .prefixOperator ++ gap ++ .rule .unaryExpression ||| .rule .postfixExpression
  | .prefixOperator =>
    sign "++" ||| sign "--" ||| anyOf ["typeof", "void", "delete"] ++ wordEnd |||
      anyOf ["!", "~", "+", "-"]
  | .binary level =>
    operand level ++ .many (gap ++ .rule (.operator level) ++ gap ++ operand level)
  | .operator level => operators level
  | .logicalAnd =>
    .rule (.binary .bitwiseOr) ++ .many (gap ++ sign "&&" ++ gap ++ .rule (.binary .bitwiseOr))
  | .logicalOr =>
    .rule .logicalAnd ++ .many (gap ++ sign "||" ++ gap ++ .rule .logicalAnd)
  | .conditional =>
    .rule .logicalOr ++
      .optional (gap ++ sign "?" ++ gap ++ assignment ++ gap ++ sign ":" ++ gap ++ assignment)
  | .assignment =>
    .rule .conditional ++ .optional (gap ++ .rule .assignmentOperator ++ gap ++ assignment)
  | .assignmentOperator =>
    sign "=" ++ .notAhead (sign "=") |||
      anyOf ["+=", "-=", "*=", "/=", "%=", "<<=", ">>>=", ">>=", "&=", "|=", "^="]
  | .expression => commaList assignment
  | .script => items ++ gap ++ .notAhead anyChar
  | .functionDeclaration =>
    word "function" ++ gap ++ identifier ++ gap ++ .rule .formalParameters ++ gap ++ functionBlock
  | .lexicalDeclaration => .rule .lexicalKind ++ gap ++ declarators ++ statementEnd
  | .lexicalKind => anyOf ["let", "const"] ++ wordEnd
  | .variableStatement => word "var" ++ gap ++ declarators ++ statementEnd
  | .variableDeclaration =>
    identifier ++ .optional (gap ++ sign "=" ++ .notAhead (sign "=") ++ gap ++ assignment)
  | .block => inBraces items
  | .emptyStatement => sign ";"
  | .expressionStatement =>
    .notAhead (sign "\x7b" ||| word "function") ++ expression ++ statementEnd
  | .ifStatement =>
    word "if" ++ gap ++ inParentheses expression ++ gap ++ statement ++
      .optional (gap ++ word "else" ++ gap ++ statement)
  | .doWhileStatement =>
    word "do" ++ gap ++ statement ++ gap ++ word "while" ++ gap ++ inParentheses expression ++
      .optional (inlineGap ++ sign ";")
  | .whileStatement => word "while" ++ gap ++ inParentheses expression ++ gap ++ statement
  | .forInStatement =>
    word "for" ++ gap ++
      inParentheses
        ((.rule .forBinding ||| .rule .lhsExpression) ++ gap ++ word "in" ++ gap ++ expression) ++
      gap ++ statement
  | .forBinding => .rule .forKind ++ gap ++ identifier
  | .forKind => anyOf ["var", "let", "const"] ++ wordEnd
  | .forStatement =>
    word "for" ++ gap ++
      inParentheses
        (.optional (.rule .forInit) ++ gap ++ sign ";" ++ gap ++ .optional (.rule .forTest) ++ gap ++
          sign ";" ++ gap ++ .optional (.rule .forUpdate)) ++
      gap ++ statement
  | .forInit => .rule .forDeclaration ||| expression
  | .forDeclaration => .rule .forKind ++ gap ++ declarators
  | .forTest => expression
  | .forUpdate => expression
  | .continueStatement => word "continue" ++ .optional (inlineGap ++ identifier) ++ statementEnd
  | .breakStatement => word "break" ++ .optional (inlineGap ++ identifier) ++ statementEnd
  | .returnStatement => word "return" ++ .optional (inlineGap ++ expression) ++ statementEnd
  | .throwStatement => word "throw" ++ inlineGap ++ expression ++ statementEnd
  | .debuggerStatement => word "debugger" ++ statementEnd
  | .switchStatement =>
    word "switch" ++ gap ++ inParentheses expression ++ gap ++
      inBraces (.many (gap ++ .rule .switchClause))
  | .switchClause => (.rule .caseTest ||| .rule .defaultTest) ++ gap ++ sign ":" ++ items
  | .caseTest => word "case" ++ gap ++ expression
  | .defaultTest => word "default"
  | .labelledStatement =>
    identifier ++ gap ++ sign ":" ++ gap ++ (.rule .functionDeclaration ||| statement)
  | .tryStatement =>
    word "try" ++ gap ++ .rule .block ++ .optional (gap ++ .rule .catchClause) ++
      .optional (gap ++ .rule .finallyClause)
  | .catchClause =>
    word "catch" ++ gap ++ inParentheses identifier ++ gap ++ .rule .block
  | .finallyClause => word "finally" ++ gap ++ .rule .block

/-- The rules whose nodes are tokens: they keep their text and have nothing below them. -/
def isToken : Rule → Bool
  | .identifier | .identifierName | .nullLiteral | .booleanLiteral | .numericLiteral
  | .doubleStringChars | .singleStringChars | .thisExpression | .postfixOperator | .prefixOperator
  | .operator _ | .assignmentOperator | .lexicalKind | .forKind => true
  | _ => false

/-- The grammar of scripts. Fewer than a hundred rules can start at one place of the text, since
none leads back to itself without consuming a character. -/
def grammar : Grammar Rule := ⟨pattern, isToken, 100⟩

/-- The concrete tree of a script, or the offset to complain about. -/
def parse (source : List Char) : Except Nat (Node Rule) := grammar.parse .script source

end Script

end ScriptEngine
