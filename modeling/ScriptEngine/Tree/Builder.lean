import ScriptEngine.Grammar.Script
import ScriptEngine.Tree.Literal
import ScriptEngine.Tree.Tracker

/-!
# Building trees

From the concrete tree of the grammar to the syntax tree. Levels of precedence at which nothing
happens leave no trace, and neither do parentheses, so `(x)` is `x` itself. The scopes are
tracked on the way: a frame is opened before the inside of a function or block is built and closed
after it, also when building fails.

What can fail is what the grammar does not say: escapes in strings, a second default clause, and a
`try` with neither `catch` nor `finally`. Nodes of a shape that the grammar does not make are
`malformedNode`.
-/
namespace ScriptEngine

/-- Building, with the open scopes at hand. -/
abbrev Build := ExceptT LocatedProblem (StateM Tracker)

namespace Build

def fail {α : Type} (problem : Problem) (span : Span) : Build α := throw ⟨problem, span.start⟩

def malformed {α : Type} (node : Node Rule) : Build α := fail .malformedNode node.span

def declare (id : Identifier) (kind : NameKind) : Build Unit := modify (·.declare id kind)

/-- Builds inside a new scope, which is closed again in any case. -/
def inScope {α : Type} (openScope : Tracker → Tracker) (body : Build α) : Build (α × Scope) :=
  fun tracker =>
    let depth := tracker.depth
    match body (openScope tracker) with
    -- Scopes that were open when building failed are given up, this one among them.
    | (.error e, tracker) => (.error e, tracker.abandonTo depth)
    | (.ok a, tracker) =>
      match (tracker.abandonTo (depth + 1)).close? with
      | some (scope, tracker) => (.ok (a, scope), tracker)
      | none => (.ok (a, .empty false), tracker)

def inBlock {α : Type} (body : Build α) : Build (α × Scope) := inScope Tracker.openBlock body

def inFunction {α : Type} (directive : Bool) (body : Build α) : Build (α × Scope) :=
  inScope (·.openFunction directive) body

end Build

namespace Script

/-! ## Directives -/

/-- Removes one semicolon from the end. -/
def dropSemicolon (chars : List Char) : List Char :=
  match chars.reverse with
  | ';' :: rest => rest.reverse
  | _ => chars

/-- What stands between the quotes, if the text begins and ends with the same kind of quote and
has none of that kind in between. -/
def betweenQuotes? (chars : List Char) : Option (List Char) :=
  match chars with
  | quote :: rest =>
    match rest.reverse with
    | last :: middle =>
      if (quote = '"' ∨ quote = '\'') ∧ last = quote ∧ ¬ middle.contains quote then
        some middle.reverse
      else none
    | [] => none
  | [] => none

/-- The text of a directive, if the text of a statement is one. -/
def directive? (statement : List Char) : Option (List Char) :=
  betweenQuotes? (Text.trimEnd (dropSemicolon (Text.trimEnd statement)))

/-- Whether the directives at the beginning of a list of statements ask for strict mode. -/
def asksForStrict (source : List Char) : List (Node Rule) → Bool
  | [] => false
  | node :: rest =>
    if node.rule = .expressionStatement then
      match directive? (node.span.slice source) with
      | some text => text = "use strict".toList || asksForStrict source rest
      | none => false
    else false

/-! ## Tokens -/

def identifierOf (node : Node Rule) : Identifier := ⟨node.text, node.span⟩

def unaryOperator? (token : String) : Option UnaryOperator :=
  match token with
  | "-" => some .minus
  | "+" => some .plus
  | "!" => some .logicalNot
  | "~" => some .bitwiseNot
  | "typeof" => some .typeOf
  | "void" => some .void
  | "delete" => some .delete
  | _ => none

def updateOperator? (token : String) : Option UpdateOperator :=
  match token with
  | "++" => some .increment
  | "--" => some .decrement
  | _ => none

def binaryOperator? (token : String) : Option BinaryOperator :=
  match token with
  | "==" => some .looselyEqual
  | "!=" => some .looselyUnequal
  | "===" => some .strictlyEqual
  | "!==" => some .strictlyUnequal
  | "<" => some .lessThan
  | "<=" => some .lessThanEqual
  | ">" => some .greaterThan
  | ">=" => some .greaterThanEqual
  | "<<" => some .leftShift
  | ">>" => some .rightShift
  | ">>>" => some .unsignedRightShift
  | "+" => some .add
  | "-" => some .subtract
  | "*" => some .multiply
  | "/" => some .divide
  | "%" => some .modulo
  | "|" => some .bitwiseOr
  | "^" => some .bitwiseXor
  | "&" => some .bitwiseAnd
  | "in" => some .isIn
  | "instanceof" => some .instanceOf
  | _ => none

/-- The operator that an assignment applies first, `some none` for plain assignment. -/
def assignmentOperator? (token : String) : Option (Option BinaryOperator) :=
  match token with
  | "=" => some none
  | "+=" => some (some .add)
  | "-=" => some (some .subtract)
  | "*=" => some (some .multiply)
  | "/=" => some (some .divide)
  | "%=" => some (some .modulo)
  | "<<=" => some (some .leftShift)
  | ">>=" => some (some .rightShift)
  | ">>>=" => some (some .unsignedRightShift)
  | "|=" => some (some .bitwiseOr)
  | "^=" => some (some .bitwiseXor)
  | "&=" => some (some .bitwiseAnd)
  | _ => none

def declarationKind? (token : String) : Option DeclarationKind :=
  match token with
  | "var" => some .var
  | "let" => some .let
  | "const" => some .const
  | _ => none

/-- The value of a token, or a malformed node. -/
def require {α : Type} (node : Node Rule) : Option α → Build α
  | some a => pure a
  | none => Build.malformed node

/-- The value of a string literal, whose only child has the characters between the quotes. -/
def stringValue (node : Node Rule) : Build String :=
  match node.children with
  | [chars] =>
    match Literal.unescape chars.text.toList with
    | .ok value => pure (String.ofList value)
    | .error problem => Build.fail problem chars.span
  | _ => Build.malformed node

def literalValue (node : Node Rule) : Build Literal :=
  match node.rule with
  | .nullLiteral => pure .null
  | .booleanLiteral => pure (.boolean (node.text == "true"))
  | .numericLiteral => require node (Literal.ofNumeric? node.text.toList)
  | .stringLiteral => do
    let value ← stringValue node
    pure (.string value)
  | _ => Build.malformed node

/-- The key of a property of an object literal. -/
def propertyKey (node : Node Rule) : Build String :=
  match node.children with
  | [key] =>
    match key.rule with
    | .identifierName => pure key.text
    | .stringLiteral => stringValue key
    | .numericLiteral => require key (Literal.propertyName? key.text.toList)
    | _ => Build.malformed key
  | _ => Build.malformed node

/-- The label of a `break` or `continue`, if there is one. -/
def labelOf (children : List (Node Rule)) : Option Identifier := children.head?.map identifierOf

/-! ## Scopes -/

/-- A block, whose statements are built in a scope of their own. -/
def buildBlock (span : Span) (body : Build (List Statement)) : Build Block := do
  let (statements, scope) ← Build.inBlock body
  pure ⟨span, statements, scope⟩

/-- A function, whose body is built in a scope of its own, in which the parameters are declared. -/
def buildCode (directive : Bool) (span : Span) (id : Option Identifier)
    (parameters : List Identifier) (bodySpan : Span) (body : Build (List Statement)) :
    Build FunctionCode := do
  let (statements, scope) ← Build.inFunction directive do
    parameters.forM (Build.declare · .parameter)
    body
  pure ⟨span, id, parameters, bodySpan, statements, scope⟩

/-! ## Expressions and statements -/

mutual

/-- Builds an expression. -/
def buildExpression (source : List Char) (node : Node Rule) : Build Expression :=
  match node with
  | .token .identifier span text => pure (.identifier ⟨text, span⟩)
  | .token .thisExpression span _ => pure (.this span)
  | .branch .literal span [value] => do
    let value ← literalValue value
    pure (.literal span value)
  | .branch .expression span children => do
    let expressions ← buildExpressions source children
    match expressions with
    | [] => Build.malformed node
    | [only] => pure only
    | several => pure (.sequence span several)
  | .branch .assignment _ [only] => buildExpression source only
  | .branch .assignment span [target, operator, value] => do
    let target ← buildExpression source target
    let kind ← require operator (assignmentOperator? operator.text)
    let value ← buildExpression source value
    pure (.assign span kind target value)
  | .branch .conditional _ [only] => buildExpression source only
  | .branch .conditional span [test, consequent, alternate] => do
    let test ← buildExpression source test
    let consequent ← buildExpression source consequent
    let alternate ← buildExpression source alternate
    pure (.conditional span test consequent alternate)
  | .branch .logicalOr _ (first :: rest) => do
    let first ← buildExpression source first
    buildLogical source .or first rest
  | .branch .logicalAnd _ (first :: rest) => do
    let first ← buildExpression source first
    buildLogical source .and first rest
  | .branch (.binary _) _ (first :: rest) => do
    let first ← buildExpression source first
    buildBinary source first rest
  | .branch .unaryExpression _ [only] => buildExpression source only
  | .branch .unaryExpression span [operator, argument] => do
    let argument ← buildExpression source argument
    -- The grammar has one rule for `++` and `--` in front and for the other operators.
    match updateOperator? operator.text with
    | some update => pure (.update span update true argument)
    | none => do
      let unary ← require operator (unaryOperator? operator.text)
      pure (.unary span unary argument)
  | .branch .postfixExpression _ [only] => buildExpression source only
  | .branch .postfixExpression span [argument, operator] => do
    let argument ← buildExpression source argument
    let update ← require operator (updateOperator? operator.text)
    pure (.update span update false argument)
  | .branch .lhsExpression _ (first :: tails) => do
    let first ← buildExpression source first
    buildTails source first tails
  | .branch .memberExpression _ (first :: tails) => do
    let first ← buildExpression source first
    buildTails source first tails
  | .branch .newWithArguments span [callee, .branch .arguments _ arguments] => do
    let callee ← buildExpression source callee
    let arguments ← buildExpressions source arguments
    pure (.new span callee arguments)
  | .branch .newBare span [callee] => do
    let callee ← buildExpression source callee
    pure (.new span callee [])
  | .branch .primaryExpression _ [only] => buildExpression source only
  | .branch .arrayLiteral span slots => do
    let elements ← buildSlots source slots
    pure (.array span elements)
  | .branch .objectLiteral span properties => do
    let properties ← buildProperties source properties
    pure (.object span properties)
  | .branch .functionExpression span children => do
    let code ← buildFunction source span none [] children
    pure (.function code)
  | node => Build.malformed node

/-- Builds expressions one after the other. -/
def buildExpressions (source : List Char) : List (Node Rule) → Build (List Expression)
  | [] => pure []
  | node :: rest => do
    let first ← buildExpression source node
    let rest ← buildExpressions source rest
    pure (first :: rest)

/-- Builds the elements of an array. An empty last slot is only a trailing comma. -/
def buildSlots (source : List Char) : List (Node Rule) → Build (List (Option Expression))
  | [] => pure []
  | [.branch .arraySlot _ []] => pure []
  | .branch .arraySlot _ [] :: rest => do
    let rest ← buildSlots source rest
    pure (none :: rest)
  | .branch .arraySlot _ [element] :: rest => do
    let first ← buildExpression source element
    let rest ← buildSlots source rest
    pure (some first :: rest)
  | node :: _ => Build.malformed node

/-- Builds the operators and operands that follow the first operand, to the left. -/
def buildBinary (source : List Char) (left : Expression) : List (Node Rule) → Build Expression
  | [] => pure left
  | [operator] => Build.malformed operator
  | operator :: right :: rest => do
    let kind ← require operator (binaryOperator? operator.text)
    let right ← buildExpression source right
    buildBinary source (.binary (left.span.hull right.span) kind left right) rest

/-- Builds the operands that follow the first operand of a logical operator, to the left. -/
def buildLogical (source : List Char) (operator : LogicalOperator) (left : Expression) :
    List (Node Rule) → Build Expression
  | [] => pure left
  | right :: rest => do
    let right ← buildExpression source right
    buildLogical source operator (.logical (left.span.hull right.span) operator left right) rest

/-- Builds the calls and property accesses that follow an expression. -/
def buildTails (source : List Char) (object : Expression) : List (Node Rule) → Build Expression
  | [] => pure object
  | .branch .arguments span arguments :: rest => do
    let arguments ← buildExpressions source arguments
    buildTails source (.call (object.span.hull span) object arguments) rest
  | .branch .memberDot span [name] :: rest =>
    buildTails source (.member (object.span.hull span) object (identifierOf name)) rest
  | .branch .memberIndex span [index] :: rest => do
    let index ← buildExpression source index
    buildTails source (.index (object.span.hull span) object index) rest
  | node :: _ => Build.malformed node

/-- Builds the properties of an object literal. -/
def buildProperties (source : List Char) : List (Node Rule) → Build (List PropertyNode)
  | [] => pure []
  | .branch .dataProperty span [key, value] :: rest => do
    let key ← propertyKey key
    let value ← buildExpression source value
    let rest ← buildProperties source rest
    pure (.data span key value :: rest)
  | .branch .getterProperty span [key, .branch .functionBody bodySpan body] :: rest => do
    let key ← propertyKey key
    let code ← buildCode (asksForStrict source body) span none [] bodySpan
      (buildStatements source body)
    let rest ← buildProperties source rest
    pure (.getter span key code :: rest)
  | .branch .setterProperty span [key, parameter, .branch .functionBody bodySpan body] :: rest => do
    let key ← propertyKey key
    let code ← buildCode (asksForStrict source body) span none [identifierOf parameter] bodySpan
      (buildStatements source body)
    let rest ← buildProperties source rest
    pure (.setter span key code :: rest)
  | node :: _ => Build.malformed node

/-- Builds a function from its name, if any, its parameters and its body. -/
def buildFunction (source : List Char) (span : Span) (id : Option Identifier)
    (parameters : List Identifier) : List (Node Rule) → Build FunctionCode
  | .token .identifier idSpan text :: rest =>
    buildFunction source span (some ⟨text, idSpan⟩) parameters rest
  | .branch .formalParameters _ names :: rest =>
    buildFunction source span id (names.map identifierOf) rest
  | .branch .functionBody bodySpan body :: _ =>
    buildCode (asksForStrict source body) span id parameters bodySpan (buildStatements source body)
  | node :: _ => Build.malformed node
  | [] => Build.fail .malformedNode span

/-- Builds a statement or declaration. -/
def buildStatement (source : List Char) (node : Node Rule) : Build Statement :=
  match node with
  | .branch .functionDeclaration span children => do
    let code ← buildFunction source span none [] children
    -- The scope of the function is closed by now, so this is the one around it.
    modify (·.declareFunction code)
    pure (.function code)
  | .branch .lexicalDeclaration span (kind :: declarators) => do
    let kind ← require kind (declarationKind? kind.text)
    let declarators ← buildDeclarators source kind declarators
    pure (.declaration ⟨span, kind, declarators⟩)
  | .branch .variableStatement span declarators => do
    let declarators ← buildDeclarators source .var declarators
    pure (.declaration ⟨span, .var, declarators⟩)
  | .branch .block span body => do
    let block ← buildBlock span (buildStatements source body)
    pure (.block block)
  | .branch .emptyStatement span _ => pure (.empty span)
  | .branch .debuggerStatement span _ => pure (.debugger span)
  | .branch .expressionStatement span [value] => do
    let value ← buildExpression source value
    pure (.expression span value)
  | .branch .ifStatement span [test, consequent] => do
    let test ← buildExpression source test
    let consequent ← buildStatement source consequent
    pure (.branch span test consequent none)
  | .branch .ifStatement span [test, consequent, alternate] => do
    let test ← buildExpression source test
    let consequent ← buildStatement source consequent
    let alternate ← buildStatement source alternate
    pure (.branch span test consequent (some alternate))
  | .branch .whileStatement span [test, body] => do
    let test ← buildExpression source test
    let body ← buildStatement source body
    pure (.whileLoop span test body)
  | .branch .doWhileStatement span [body, test] => do
    let body ← buildStatement source body
    let test ← buildExpression source test
    pure (.doLoop span body test)
  -- What the body declares belongs to the scope of the loop, unless the body is a block.
  | .branch .forStatement span children => do
    let (loop, scope) ← Build.inBlock (buildFor source span none none none children)
    pure (loop scope)
  | .branch .forInStatement span
      [.branch .forBinding _ [kind, name], right, body] => do
    let kind ← require kind (declarationKind? kind.text)
    let ((right, body), scope) ← Build.inBlock do
      Build.declare (identifierOf name) (.declared kind)
      let right ← buildExpression source right
      let body ← buildStatement source body
      pure (right, body)
    pure (.forInLoop span (.declaration kind (identifierOf name)) right body scope)
  | .branch .forInStatement span [target, right, body] => do
    let ((target, right, body), scope) ← Build.inBlock do
      let target ← buildExpression source target
      let right ← buildExpression source right
      let body ← buildStatement source body
      pure (target, right, body)
    pure (.forInLoop span (.expression target) right body scope)
  | .branch .continueStatement span children => pure (.continues span (labelOf children))
  | .branch .breakStatement span children => pure (.breaks span (labelOf children))
  | .branch .returnStatement span [] => pure (.returns span none)
  | .branch .returnStatement span [argument] => do
    let argument ← buildExpression source argument
    pure (.returns span (some argument))
  | .branch .throwStatement span [argument] => do
    let argument ← buildExpression source argument
    pure (.throws span argument)
  | .branch .switchStatement span (discriminant :: clauses) => do
    let discriminant ← buildExpression source discriminant
    let (cases, scope) ← Build.inBlock (buildClauses source false clauses)
    pure (.select span discriminant cases scope)
  | .branch .tryStatement span (.branch .block blockSpan body :: clauses) => do
    let block ← buildBlock blockSpan (buildStatements source body)
    let (handler, finalizer) ← buildHandlers source none none clauses
    if handler.isNone && finalizer.isNone then Build.fail .missingHandler span
    else pure (.attempt span block handler finalizer)
  | .branch .labelledStatement span [label, body] => do
    let body ← buildStatement source body
    pure (.labelled span (identifierOf label) body)
  | node => Build.malformed node

/-- Builds statements one after the other. -/
def buildStatements (source : List Char) : List (Node Rule) → Build (List Statement)
  | [] => pure []
  | node :: rest => do
    let first ← buildStatement source node
    let rest ← buildStatements source rest
    pure (first :: rest)

/-- Builds the declarators of a declaration; each name is declared before its initializer is
built. -/
def buildDeclarators (source : List Char) (kind : DeclarationKind) :
    List (Node Rule) → Build (List Declarator)
  | [] => pure []
  | .branch .variableDeclaration span [name] :: rest => do
    Build.declare (identifierOf name) (.declared kind)
    let rest ← buildDeclarators source kind rest
    pure (⟨span, identifierOf name, none⟩ :: rest)
  | .branch .variableDeclaration span [name, init] :: rest => do
    Build.declare (identifierOf name) (.declared kind)
    let init ← buildExpression source init
    let rest ← buildDeclarators source kind rest
    pure (⟨span, identifierOf name, some init⟩ :: rest)
  | node :: _ => Build.malformed node

/-- Builds the parts of a `for` loop from left to right; the scope is added when it is closed. -/
def buildFor (source : List Char) (span : Span) (init : Option ForInit)
    (test update : Option Expression) : List (Node Rule) → Build (Scope → Statement)
  | .branch .forInit _ [.branch .forDeclaration declarationSpan (kind :: declarators)] :: rest => do
    let kind ← require kind (declarationKind? kind.text)
    let declarators ← buildDeclarators source kind declarators
    buildFor source span (some (.declaration ⟨declarationSpan, kind, declarators⟩)) test update rest
  | .branch .forInit _ [value] :: rest => do
    let value ← buildExpression source value
    buildFor source span (some (.expression value)) test update rest
  | .branch .forTest _ [value] :: rest => do
    let value ← buildExpression source value
    buildFor source span init (some value) update rest
  | .branch .forUpdate _ [value] :: rest => do
    let value ← buildExpression source value
    buildFor source span init test (some value) rest
  | [body] => do
    let body ← buildStatement source body
    pure (.forLoop span init test update body)
  | node :: _ => Build.malformed node
  | [] => Build.fail .malformedNode span

/-- Builds the clauses of a switch, of which one at most may be the default. -/
def buildClauses (source : List Char) (hasDefault : Bool) : List (Node Rule) → Build (List Case)
  | [] => pure []
  | .branch .switchClause span (.branch .caseTest _ [test] :: body) :: rest => do
    let test ← buildExpression source test
    let body ← buildStatements source body
    let rest ← buildClauses source hasDefault rest
    pure (⟨span, some test, body⟩ :: rest)
  | .branch .switchClause span (.branch .defaultTest headSpan _ :: body) :: rest =>
    if hasDefault then Build.fail .repeatedDefault headSpan
    else do
      let body ← buildStatements source body
      let rest ← buildClauses source true rest
      pure (⟨span, none, body⟩ :: rest)
  | node :: _ => Build.malformed node

/-- Builds the catch and finally clauses of a `try`. -/
def buildHandlers (source : List Char) (handler : Option Handler) (finalizer : Option Block) :
    List (Node Rule) → Build (Option Handler × Option Block)
  | [] => pure (handler, finalizer)
  | .branch .catchClause span [parameter, .branch .block blockSpan body] :: rest => do
    let block ← buildBlock blockSpan (buildStatements source body)
    buildHandlers source (some ⟨span, identifierOf parameter, block⟩) finalizer rest
  | .branch .finallyClause _ [.branch .block blockSpan body] :: rest => do
    let block ← buildBlock blockSpan (buildStatements source body)
    buildHandlers source handler (some block) rest
  | node :: _ => Build.malformed node

end

/-- Builds a whole script. -/
def buildScript (source : List Char) (forceStrict : Bool) (node : Node Rule) :
    Build ScriptTree := do
  let directive := asksForStrict source node.children
  let (body, scope) ← Build.inFunction (forceStrict || directive)
    (buildStatements source node.children)
  pure ⟨node.span, body, scope⟩

end Script

end ScriptEngine
