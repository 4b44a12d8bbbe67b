import ScriptEngine.Source.Position

/-!
# Trees

The syntax tree of a script. Every node has the stretch of source text that it was read from.
Functions, blocks, loops with a head and switches carry a `Scope`: what is declared in them. A
function scope collects the `var` names of everything inside it except of nested functions; a
block scope records the `var` names that pass through it, so that clashes can be told.
-/
namespace ScriptEngine

structure Identifier where
  name : String
  span : Span
deriving DecidableEq, Repr, Inhabited

/-- A literal. An integer literal is one that fits a signed 64-bit word. -/
inductive Literal where
  | null
  | boolean (value : Bool)
  | string (value : String)
  | integer (value : Nat)
  | double (value : Float)

inductive UnaryOperator where
  | minus
  | plus
  | logicalNot
  | bitwiseNot
  | typeOf
  | void
  | delete
deriving DecidableEq, Repr

inductive UpdateOperator where
  | increment
  | decrement
deriving DecidableEq, Repr

inductive BinaryOperator where
  | looselyEqual
  | looselyUnequal
  | strictlyEqual
  | strictlyUnequal
  | lessThan
  | lessThanEqual
  | greaterThan
  | greaterThanEqual
  | leftShift
  | rightShift
  | unsignedRightShift
  | add
  | subtract
  | multiply
  | divide
  | modulo
  | bitwiseOr
  | bitwiseXor
  | bitwiseAnd
  | isIn
  | instanceOf
deriving DecidableEq, Repr

inductive LogicalOperator where
  | or
  | and
deriving DecidableEq, Repr

inductive DeclarationKind where
  | var
  | let
  | const
deriving DecidableEq, Repr

/-- A name declared by `let` or `const`. -/
structure LexicalName where
  identifier : Identifier
  isConst : Bool
deriving DecidableEq, Repr

def LexicalName.name (l : LexicalName) : String := l.identifier.name

mutual

inductive Expression where
  | literal (span : Span) (value : Literal)
  | identifier (id : Identifier)
  | this (span : Span)
  | array (span : Span) (elements : List (Option Expression))
  | object (span : Span) (properties : List PropertyNode)
  | function (code : FunctionCode)
  | unary (span : Span) (operator : UnaryOperator) (argument : Expression)
  | update (span : Span) (operator : UpdateOperator) (isPrefix : Bool) (argument : Expression)
  | binary (span : Span) (operator : BinaryOperator) (left right : Expression)
  | logical (span : Span) (operator : LogicalOperator) (left right : Expression)
  /-- An assignment, with the operator that a compound one applies first. -/
  | assign (span : Span) (operator : Option BinaryOperator) (target value : Expression)
  | conditional (span : Span) (test consequent alternate : Expression)
  | member (span : Span) (object : Expression) (property : Identifier)
  | index (span : Span) (object property : Expression)
  | call (span : Span) (callee : Expression) (arguments : List Expression)
  | new (span : Span) (callee : Expression) (arguments : List Expression)
  | sequence (span : Span) (expressions : List Expression)

/-- A property of an object literal. -/
inductive PropertyNode where
  | data (span : Span) (key : String) (value : Expression)
  | getter (span : Span) (key : String) (code : FunctionCode)
  | setter (span : Span) (key : String) (code : FunctionCode)

inductive Statement where
  | expression (span : Span) (value : Expression)
  | block (body : Block)
  | empty (span : Span)
  | debugger (span : Span)
  | returns (span : Span) (argument : Option Expression)
  | breaks (span : Span) (label : Option Identifier)
  | continues (span : Span) (label : Option Identifier)
  | throws (span : Span) (argument : Expression)
  | labelled (span : Span) (label : Identifier) (body : Statement)
  | branch (span : Span) (test : Expression) (consequent : Statement)
      (alternate : Option Statement)
  | select (span : Span) (discriminant : Expression) (cases : List Case) (scope : Scope)
  | attempt (span : Span) (block : Block) (handler : Option Handler) (finalizer : Option Block)
  | whileLoop (span : Span) (test : Expression) (body : Statement)
  | doLoop (span : Span) (body : Statement) (test : Expression)
  | forLoop (span : Span) (init : Option ForInit) (test update : Option Expression)
      (body : Statement) (scope : Scope)
  | forInLoop (span : Span) (left : ForTarget) (right : Expression) (body : Statement)
      (scope : Scope)
  | function (code : FunctionCode)
  | declaration (value : Declaration)

structure Block where
  span : Span
  body : List Statement
  scope : Scope

/-- A clause of a switch; the default clause has no test. -/
structure Case where
  span : Span
  test : Option Expression
  consequent : List Statement

/-- A catch clause. -/
structure Handler where
  span : Span
  parameter : Identifier
  body : Block

structure Declarator where
  span : Span
  id : Identifier
  init : Option Expression

structure Declaration where
  span : Span
  kind : DeclarationKind
  declarators : List Declarator

inductive ForInit where
  | declaration (declaration : Declaration)
  | expression (value : Expression)

inductive ForTarget where
  | declaration (kind : DeclarationKind) (id : Identifier)
  | expression (target : Expression)

structure FunctionCode where
  span : Span
  id : Option Identifier
  parameters : List Identifier
  bodySpan : Span
  body : List Statement
  scope : Scope

/-- What is declared in a function, a script or a block, each list in source order and with
repetitions. -/
structure Scope where
  strict : Bool
  parameters : List Identifier
  vars : List Identifier
  lexical : List LexicalName
  functions : List FunctionCode

end

/-- A whole script. -/
structure ScriptTree where
  span : Span
  body : List Statement
  scope : Scope

namespace FunctionCode

/-- The declared name, empty for an anonymous function. -/
def name (code : FunctionCode) : String := (code.id.map Identifier.name).getD ""

def strict (code : FunctionCode) : Bool := code.scope.strict

end FunctionCode

namespace Scope

/-- The scope in which nothing has been declared. -/
def empty (strict : Bool) : Scope := ⟨strict, [], [], [], []⟩

/-- Whether entering the scope needs an environment of its own. -/
def hasLexicalDeclarations (s : Scope) : Bool := !s.lexical.isEmpty || !s.functions.isEmpty

/-- Each `var` name once, in the order of first declaration. -/
def varNames (s : Scope) : List String :=
  (s.vars.foldl (fun names id => if names.contains id.name then names else id.name :: names)
    []).reverse

def declaresLexically (s : Scope) (name : String) : Bool := s.lexical.any (·.name == name)

end Scope

namespace Expression

def span : Expression → Span
  | identifier id => id.span
  | function code => code.span
  | literal span _ | this span | array span _ | object span _ | unary span _ _ | update span _ _ _
  | binary span _ _ _ | logical span _ _ _ | assign span _ _ _ | conditional span _ _ _
  | member span _ _ | index span _ _ | call span _ _ | new span _ _ | sequence span _ => span

/-- Identifiers and property accesses denote places that can be assigned to. -/
def isReference : Expression → Bool
  | identifier _ | member .. | index .. => true
  | _ => false

end Expression

namespace Statement

def span : Statement → Span
  | block body => body.span
  | function code => code.span
  | declaration value => value.span
  | expression span _ | empty span | debugger span | returns span _ | breaks span _
  | continues span _ | throws span _ | labelled span _ _ | branch span _ _ _ | select span _ _ _
  | attempt span _ _ _ | whileLoop span _ _ | doLoop span _ _ | forLoop span _ _ _ _ _
  | forInLoop span _ _ _ _ => span

def isLoop : Statement → Bool
  | whileLoop .. | doLoop .. | forLoop .. | forInLoop .. => true
  | _ => false

/-- The statement behind any labels. -/
def unlabelled : Statement → Statement
  | labelled _ _ body => body.unlabelled
  | s => s

end Statement

end ScriptEngine
