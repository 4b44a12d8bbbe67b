import ScriptEngine.Proofs.Tree.Scoped

/-!
# What is declared

The names that a piece of a tree declares, read off the finished tree in source order and with
repetitions. A `let`, a `const` or a function belongs to the innermost scope around it. A `var` goes
through blocks and loops up to the nearest function, so its name belongs to every scope on the way.

`Declared` is what a scope lists, or what a piece of a tree adds to the list; `declares` and its
like put the four kinds of names together.
-/
namespace ScriptEngine

/-! ## `let` and `const` names -/

/-- The `let` or `const` name that a declarator declares, if it is of one of these kinds. -/
def DeclarationKind.lexical (id : Identifier) : DeclarationKind → List LexicalName
  | .var => []
  | .let => [⟨id, false⟩]
  | .const => [⟨id, true⟩]

/-- The `let` and `const` names of some declarators. -/
def declaredBy (kind : DeclarationKind) (parts : List Declarator) : List LexicalName :=
  parts.flatMap fun d => kind.lexical d.id

theorem declaredBy_var (parts : List Declarator) : declaredBy .var parts = [] := by
  simp [declaredBy, DeclarationKind.lexical]

/-- The `let` and `const` names that a statement declares in the scope around it. -/
def Statement.lexical : Statement → List LexicalName
  | .declaration ⟨_, kind, parts⟩ => declaredBy kind parts
  | _ => []

/-- The `let` and `const` names that some statements declare in the scope around them. -/
def lexicalIn (statements : List Statement) : List LexicalName :=
  statements.flatMap Statement.lexical

/-- The `let` and `const` names that the clauses of a switch declare in its scope. -/
def lexicalInCases (cases : List Case) : List LexicalName :=
  cases.flatMap fun clause => lexicalIn clause.consequent

/-- The `let` and `const` names that the head of a loop declares in the scope of the loop. -/
def lexicalInHead : Option ForInit → List LexicalName
  | some (.declaration ⟨_, kind, parts⟩) => declaredBy kind parts
  | some (.expression _) | none => []

/-- The `let` or `const` name that stands for the keys of a loop over an object. -/
def ForTarget.lexical : ForTarget → List LexicalName
  | .declaration kind id => kind.lexical id
  | .expression _ => []

/-! ## `var` names -/

/-- The `var` name that a declarator declares, if it is of this kind. -/
def DeclarationKind.vars (id : Identifier) : DeclarationKind → List Identifier
  | .var => [id]
  | .let | .const => []

/-- The `var` names of some declarators. -/
def varsBy (kind : DeclarationKind) (parts : List Declarator) : List Identifier :=
  parts.flatMap fun d => kind.vars d.id

/-- The `var` names in the head of a loop. -/
def varsInHead : Option ForInit → List Identifier
  | some (.declaration ⟨_, kind, parts⟩) => varsBy kind parts
  | some (.expression _) | none => []

def ForTarget.vars : ForTarget → List Identifier
  | .declaration kind id => kind.vars id
  | .expression _ => []

mutual

/-- The `var` names anywhere in a statement, except in the functions inside. -/
def Statement.vars : Statement → List Identifier
  | .declaration ⟨_, kind, parts⟩ => varsBy kind parts
  | .block body => body.vars
  | .labelled _ _ body | .whileLoop _ _ body | .doLoop _ body _ => body.vars
  | .branch _ _ consequent alternate => consequent.vars ++ varsInOption alternate
  | .select _ _ clauses _ => varsInCases clauses
  | .attempt _ body clause finalizer =>
    body.vars ++ (varsInHandler clause ++ varsInFinalizer finalizer)
  | .forLoop _ init _ _ body _ => varsInHead init ++ body.vars
  | .forInLoop _ left _ body _ => left.vars ++ body.vars
  | .expression .. | .empty _ | .debugger _ | .returns .. | .breaks .. | .continues .. | .throws ..
  | .function _ => []

def varsInOption : Option Statement → List Identifier
  | none => []
  | some s => s.vars

def varsIn : List Statement → List Identifier
  | [] => []
  | s :: rest => s.vars ++ varsIn rest

def Block.vars : Block → List Identifier
  | ⟨_, body, _⟩ => varsIn body

def varsInHandler : Option Handler → List Identifier
  | none => []
  | some ⟨_, _, body⟩ => body.vars

def varsInFinalizer : Option Block → List Identifier
  | none => []
  | some body => body.vars

def varsInCases : List Case → List Identifier
  | [] => []
  | ⟨_, _, body⟩ :: rest => varsIn body ++ varsInCases rest

end

/-! ## All that is declared -/

/-- What is declared in one scope, each list in source order and with repetitions. -/
@[ext]
structure Declared where
  parameters : List Identifier
  vars : List Identifier
  lexical : List LexicalName
  functions : List FunctionCode

namespace Declared

def nothing : Declared := ⟨[], [], [], []⟩

instance : Append Declared :=
  ⟨fun first second =>
    ⟨first.parameters ++ second.parameters, first.vars ++ second.vars,
      first.lexical ++ second.lexical, first.functions ++ second.functions⟩⟩

@[simp]
theorem parameters_append (first second : Declared) :
    (first ++ second).parameters = first.parameters ++ second.parameters := rfl

@[simp]
theorem vars_append (first second : Declared) :
    (first ++ second).vars = first.vars ++ second.vars := rfl

@[simp]
theorem lexical_append (first second : Declared) :
    (first ++ second).lexical = first.lexical ++ second.lexical := rfl

@[simp]
theorem functions_append (first second : Declared) :
    (first ++ second).functions = first.functions ++ second.functions := rfl

@[simp]
theorem append_nothing (first : Declared) : first ++ nothing = first :=
  Declared.ext (List.append_nil _) (List.append_nil _) (List.append_nil _) (List.append_nil _)

@[simp]
theorem nothing_append (second : Declared) : nothing ++ second = second := rfl

theorem append_assoc (first second third : Declared) :
    first ++ second ++ third = first ++ (second ++ third) :=
  Declared.ext (List.append_assoc _ _ _) (List.append_assoc _ _ _) (List.append_assoc _ _ _)
    (List.append_assoc _ _ _)

/-- What goes on to the scope around a block: its `var` names. -/
def outward (d : Declared) : Declared := ⟨[], d.vars, [], []⟩

@[simp]
theorem outward_nothing : nothing.outward = nothing := rfl

theorem outward_append (first second : Declared) :
    (first ++ second).outward = first.outward ++ second.outward := rfl

end Declared

/-- What a scope lists. -/
def Scope.listed (s : Scope) : Declared := ⟨s.parameters, s.vars, s.lexical, s.functions⟩

/-- What a statement declares in the scope around it. -/
def Statement.declares (s : Statement) : Declared := ⟨[], s.vars, s.lexical, s.declared⟩

/-- What some statements declare in the scope around them. -/
def declares (statements : List Statement) : Declared :=
  ⟨[], varsIn statements, lexicalIn statements, declaredIn statements⟩

/-- What the clauses of a switch declare in its scope. -/
def declaresInCases (cases : List Case) : Declared :=
  ⟨[], varsInCases cases, lexicalInCases cases, declaredInCases cases⟩

/-- What a declaration declares in the scope around it. -/
def declaresBy (kind : DeclarationKind) (parts : List Declarator) : Declared :=
  ⟨[], varsBy kind parts, declaredBy kind parts, []⟩

/-- What the head of a loop declares in the scope of the loop. -/
def declaresInHead (init : Option ForInit) : Declared :=
  ⟨[], varsInHead init, lexicalInHead init, []⟩

/-- What the target of a loop over an object declares in the scope of the loop. -/
def ForTarget.declares (left : ForTarget) : Declared := ⟨[], left.vars, left.lexical, []⟩

/-- What goes on from the clauses of a `try` to the scope around it. -/
def declaresInClauses (clause : Option Handler) (finalizer : Option Block) : Declared :=
  ⟨[], varsInHandler clause ++ varsInFinalizer finalizer, [], []⟩

/-- What a function declares in its scope. -/
def declaresInFunction (parameters : List Identifier) (body : List Statement) : Declared :=
  ⟨parameters, varsIn body, lexicalIn body, declaredIn body⟩

end ScriptEngine
