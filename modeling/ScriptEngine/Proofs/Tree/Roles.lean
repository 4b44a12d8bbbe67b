import ScriptEngine.Proofs.Tree.Orderly
import ScriptEngine.Proofs.Tree.Tokens

/-!
# What builders rely on

Builders take the children of a node by their positions. `Role` says of the node of each rule what
the builders around it rely on, and `Plays` adds what is known of every node of the grammar: which
rule it is of, and that its text is converted if it is a token. For each rule there is one lemma, by
the visible part of its pattern: its node plays its role if the nodes do that the pattern spells.
Main results here: these lemmas for literals and expressions.
-/
namespace ScriptEngine.Script

open Build

/-! ## Lists -/

/-- The node may stand in front of a list. -/
def Prepends (builds : List (Node Rule) → Prop) (node : Node Rule) : Prop :=
  ∀ rest, builds rest → builds (node :: rest)

section

variable (source : List Char)

/-! Which lists of nodes are built, whatever the builder is given besides. -/

abbrev BuildsExpressions (nodes : List (Node Rule)) : Prop :=
  Orderly (buildExpressions source nodes)

abbrev BuildsStatements (nodes : List (Node Rule)) : Prop := Orderly (buildStatements source nodes)

abbrev BuildsSlots (nodes : List (Node Rule)) : Prop := Orderly (buildSlots source nodes)

abbrev BuildsProperties (nodes : List (Node Rule)) : Prop := Orderly (buildProperties source nodes)

abbrev BuildsTails (nodes : List (Node Rule)) : Prop :=
  ∀ object, Orderly (buildTails source object nodes)

abbrev BuildsDeclarators (nodes : List (Node Rule)) : Prop :=
  ∀ kind, Orderly (buildDeclarators source kind nodes)

abbrev BuildsLoop (nodes : List (Node Rule)) : Prop :=
  ∀ span init test update, Orderly (buildFor source span init test update nodes)

abbrev BuildsClauses (nodes : List (Node Rule)) : Prop :=
  ∀ hasDefault, Orderly (buildClauses source hasDefault nodes)

abbrev BuildsHandlers (nodes : List (Node Rule)) : Prop :=
  ∀ handler finalizer, Orderly (buildHandlers source handler finalizer nodes)

/-! ## Roles -/

/-- What builders rely on in the node of a rule. -/
def Role (name : Rule) (node : Node Rule) : Prop :=
  match name with
  | .identifier | .thisExpression => ∃ span text, node = .token name span text
  | .doubleStringChars | .singleStringChars =>
    ∃ span text, node = .token name span (String.ofList text) ∧ Escaped text
  | .stringLiteral => Orderly (stringValue node)
  | .propertyName => Orderly (propertyKey node)
  | .arraySlot => Prepends (BuildsSlots source) node
  | .getterProperty | .setterProperty | .dataProperty => Prepends (BuildsProperties source) node
  | .formalParameters => ∃ span names, node = .branch name span names
  | .functionBody | .block =>
    ∃ span body, node = .branch name span body ∧ BuildsStatements source body
  | .arguments =>
    ∃ span arguments, node = .branch name span arguments ∧ BuildsExpressions source arguments
  | .memberDot | .memberIndex => Prepends (BuildsTails source) node
  | .literal | .primaryExpression | .arrayLiteral | .objectLiteral | .functionExpression
  | .memberExpression | .newWithArguments | .newBare | .lhsExpression | .postfixExpression
  | .unaryExpression | .binary _ | .logicalAnd | .logicalOr | .conditional | .assignment
  | .expression => Orderly (buildExpression source node)
  | .functionDeclaration | .lexicalDeclaration | .variableStatement | .emptyStatement
  | .expressionStatement | .ifStatement | .doWhileStatement | .whileStatement | .forInStatement
  | .forStatement | .continueStatement | .breakStatement | .returnStatement | .throwStatement
  | .debuggerStatement | .switchStatement | .labelledStatement | .tryStatement =>
    Orderly (buildStatement source node)
  | .variableDeclaration => Prepends (BuildsDeclarators source) node
  | .forBinding =>
    ∃ span kind id, node = .branch name span [kind, id] ∧
      (declarationKind? kind.text).isSome = true
  | .forDeclaration =>
    ∃ span kind declarators, node = .branch name span (kind :: declarators) ∧
      (declarationKind? kind.text).isSome = true ∧ BuildsDeclarators source declarators
  | .forInit | .forTest | .forUpdate => Prepends (BuildsLoop source) node
  | .caseTest =>
    ∃ span test, node = .branch name span [test] ∧ Orderly (buildExpression source test)
  | .defaultTest => ∃ span children, node = .branch name span children
  | .switchClause => Prepends (BuildsClauses source) node
  | .catchClause | .finallyClause => Prepends (BuildsHandlers source) node
  | .script => BuildsStatements source node.children
  | _ => True

/-- What is known of a node of the grammar. -/
structure Plays (name : Rule) (node : Node Rule) : Prop where
  rule : node.rule = name
  converts : converts name node.text = true
  role : Role source name node

end

/-- The rules whose nodes are expressions. -/
def isExpression : Rule → Bool
  | .identifier | .thisExpression | .literal | .primaryExpression | .arrayLiteral | .objectLiteral
  | .functionExpression | .memberExpression | .newWithArguments | .newBare | .lhsExpression
  | .postfixExpression | .unaryExpression | .binary _ | .logicalAnd | .logicalOr | .conditional
  | .assignment | .expression => true
  | _ => false

/-- The rules whose nodes are statements or declarations. -/
def isStatement : Rule → Bool
  | .block | .functionDeclaration | .lexicalDeclaration | .variableStatement | .emptyStatement
  | .expressionStatement | .ifStatement | .doWhileStatement | .whileStatement | .forInStatement
  | .forStatement | .continueStatement | .breakStatement | .returnStatement | .throwStatement
  | .debuggerStatement | .switchStatement | .labelledStatement | .tryStatement => true
  | _ => false

/-- The rules whose nodes are properties of object literals. -/
def isProperty : Rule → Bool
  | .getterProperty | .setterProperty | .dataProperty => true
  | _ => false

/-- The rules whose nodes are calls of what stands in front of them, or accesses to it. -/
def isTail : Rule → Bool
  | .arguments | .memberDot | .memberIndex => true
  | _ => false

section

variable {source : List Char} {p : Part} {children : List (Node Rule)}

theorem Plays.expression {name : Rule} {node : Node Rule} (plays : Plays source name node)
    (expression : isExpression name = true) : Orderly (buildExpression source node) := by
  have role := plays.role
  cases name with
  | identifier | thisExpression =>
    obtain ⟨span, text, rfl⟩ := role
    unfold buildExpression
    exact .pure _
  | literal | primaryExpression | arrayLiteral | objectLiteral | functionExpression
  | memberExpression | newWithArguments | newBare | lhsExpression | postfixExpression
  | unaryExpression | binary | logicalAnd | logicalOr | conditional | assignment | expression =>
    exact role
  | _ => cases expression

theorem Plays.statement {name : Rule} {node : Node Rule} (plays : Plays source name node)
    (statement : isStatement name = true) : Orderly (buildStatement source node) := by
  have role := plays.role
  cases name with
  | block =>
    obtain ⟨span, body, rfl, built⟩ := role
    unfold buildStatement
    exact (buildBlock_orderly span built).bind fun _ => .pure _
  | functionDeclaration | lexicalDeclaration | variableStatement | emptyStatement
  | expressionStatement | ifStatement | doWhileStatement | whileStatement | forInStatement
  | forStatement | continueStatement | breakStatement | returnStatement | throwStatement
  | debuggerStatement | switchStatement | labelledStatement | tryStatement => exact role
  | _ => cases statement

/-- A property stands in front of other properties. -/
theorem Plays.property {name : Rule} {node : Node Rule} (plays : Plays source name node)
    (property : isProperty name = true) : Prepends (BuildsProperties source) node := by
  have role := plays.role
  cases name with
  | getterProperty | setterProperty | dataProperty => exact role
  | _ => cases property

/-- A call or an access stands in front of other calls and accesses. -/
theorem Plays.tail {name : Rule} {node : Node Rule} (plays : Plays source name node)
    (tail : isTail name = true) : Prepends (BuildsTails source) node := by
  have role := plays.role
  cases name with
  | arguments =>
    obtain ⟨span, arguments, rfl, inside⟩ := role
    intro rest built object
    unfold buildTails
    exact inside.bind fun _ => built _
  | memberDot | memberIndex => exact role
  | _ => cases tail

end

end ScriptEngine.Script
