import ScriptEngine.Proofs.Tree.Declared

/-!
# Declarations and their scopes

Entering a scope makes what the scope lists: its parameters, `var` names and functions, and its
`let` and `const` names, which wait until their declarations run. `Placed` says of a tree that every
scope in it lists exactly what is declared in it, and that the body of a loop, a branch or a label
is no declaration of `let` or `const` names, so that none runs more than once in its scope.

A tree that is placed is scoped (`Placed.scoped_statement`).
-/
namespace ScriptEngine

namespace Placed

mutual

def expression : Expression → Prop
  | .literal .. | .identifier _ | .this _ => True
  | .array _ elements => slots elements
  | .object _ nodes => properties nodes
  | .function code => function code
  | .unary _ _ argument | .update _ _ _ argument => expression argument
  | .binary _ _ left right | .logical _ _ left right | .assign _ _ left right
  | .index _ left right => expression left ∧ expression right
  | .conditional _ test consequent alternate =>
    expression test ∧ expression consequent ∧ expression alternate
  | .member _ object _ => expression object
  | .call _ callee arguments | .new _ callee arguments => expression callee ∧ expressions arguments
  | .sequence _ parts => expressions parts

def expressions : List Expression → Prop
  | [] => True
  | e :: rest => expression e ∧ expressions rest

def optional : Option Expression → Prop
  | none => True
  | some e => expression e

def slots : List (Option Expression) → Prop
  | [] => True
  | slot :: rest => optional slot ∧ slots rest

def properties : List PropertyNode → Prop
  | [] => True
  | .data _ _ value :: rest => expression value ∧ properties rest
  | .getter _ _ code :: rest | .setter _ _ code :: rest => function code ∧ properties rest

/-- The scope of a function lists what is declared in its body, and so on inside. -/
def function : FunctionCode → Prop
  | ⟨_, _, parameters, _, body, scope⟩ =>
    scope.listed = declaresInFunction parameters body ∧ statements body

def statement : Statement → Prop
  | .expression _ value | .throws _ value => expression value
  | .block body => block body
  | .empty _ | .debugger _ | .breaks .. | .continues .. => True
  | .returns _ argument => optional argument
  | .labelled _ _ body => statement body ∧ body.lexical = []
  | .branch _ test consequent alternate =>
    expression test ∧ (statement consequent ∧ consequent.lexical = []) ∧ alternative alternate
  | .select _ discriminant clauses scope =>
    expression discriminant ∧ scope.listed = declaresInCases clauses ∧ cases clauses
  | .attempt _ body clause finalizer => block body ∧ handler clause ∧ optionalBlock finalizer
  | .whileLoop _ test body | .doLoop _ body test =>
    expression test ∧ statement body ∧ body.lexical = []
  -- The head and the body of a loop share its scope.
  | .forLoop _ init test update body scope =>
    forInit init ∧ optional test ∧ optional update ∧ (statement body ∧ body.lexical = []) ∧
      scope.listed = declaresInHead init ++ body.declares
  | .forInLoop _ left right body scope =>
    forTarget left ∧ expression right ∧ (statement body ∧ body.lexical = []) ∧
      scope.listed = left.declares ++ body.declares
  | .function code => function code
  | .declaration ⟨_, _, parts⟩ => declarators parts

def alternative : Option Statement → Prop
  | none => True
  | some s => statement s ∧ s.lexical = []

def statements : List Statement → Prop
  | [] => True
  | s :: rest => statement s ∧ statements rest

def block : Block → Prop
  | ⟨_, body, scope⟩ => scope.listed = declares body ∧ statements body

def optionalBlock : Option Block → Prop
  | none => True
  | some body => block body

def handler : Option Handler → Prop
  | none => True
  | some ⟨_, _, body⟩ => block body

def cases : List Case → Prop
  | [] => True
  | ⟨_, test, body⟩ :: rest => optional test ∧ statements body ∧ cases rest

def declarators : List Declarator → Prop
  | [] => True
  | ⟨_, _, init⟩ :: rest => optional init ∧ declarators rest

def forInit : Option ForInit → Prop
  | none => True
  | some (.declaration ⟨_, _, parts⟩) => declarators parts
  | some (.expression value) => expression value

def forTarget : ForTarget → Prop
  | .declaration .. => True
  | .expression target => expression target

end

/-- A whole script. -/
structure Script (tree : ScriptTree) : Prop where
  listed : tree.scope.listed = declares tree.body
  body : statements tree.body

theorem function_iff (code : FunctionCode) :
    function code ↔
      code.scope.listed = declaresInFunction code.parameters code.body ∧ statements code.body := by
  cases code
  simp only [function]

theorem block_iff (body : Block) :
    block body ↔ body.scope.listed = declares body.body ∧ statements body.body := by
  cases body
  simp only [block]

/-! ### What is placed is scoped -/

theorem functions_of_listed {scope : Scope} {d : Declared} (listed : scope.listed = d) :
    scope.functions = d.functions := congrArg Declared.functions listed

theorem lexical_of_listed {scope : Scope} {d : Declared} (listed : scope.listed = d) :
    scope.lexical = d.lexical := congrArg Declared.lexical listed

mutual

theorem scoped_expression (e : Expression) (placed : expression e) : Scoped.expression e := by
  match e with
  | .literal .. | .identifier _ | .this _ => trivial
  | .array _ elements => exact scoped_slots elements placed
  | .object _ nodes => exact scoped_properties nodes placed
  | .function code => exact scoped_function code placed
  | .unary _ _ argument | .update _ _ _ argument => exact scoped_expression argument placed
  | .binary _ _ left right | .logical _ _ left right | .assign _ _ left right
  | .index _ left right =>
    exact And.intro (scoped_expression left placed.1) (scoped_expression right placed.2)
  | .conditional _ test consequent alternate =>
    exact And.intro (scoped_expression test placed.1)
      (And.intro (scoped_expression consequent placed.2.1)
        (scoped_expression alternate placed.2.2))
  | .member _ object _ => exact scoped_expression object placed
  | .call _ callee arguments | .new _ callee arguments =>
    exact And.intro (scoped_expression callee placed.1) (scoped_expressions arguments placed.2)
  | .sequence _ parts => exact scoped_expressions parts placed

theorem scoped_expressions (es : List Expression) (placed : expressions es) :
    Scoped.expressions es := by
  match es with
  | [] => trivial
  | e :: rest => exact And.intro (scoped_expression e placed.1) (scoped_expressions rest placed.2)

theorem scoped_optional (part : Option Expression) (placed : optional part) :
    Scoped.optional part := by
  match part with
  | none => trivial
  | some e => exact scoped_expression e placed

theorem scoped_slots (elements : List (Option Expression)) (placed : slots elements) :
    Scoped.slots elements := by
  match elements with
  | [] => trivial
  | slot :: rest => exact And.intro (scoped_optional slot placed.1) (scoped_slots rest placed.2)

theorem scoped_properties (nodes : List PropertyNode) (placed : properties nodes) :
    Scoped.properties nodes := by
  match nodes with
  | [] => trivial
  | .data _ _ value :: rest =>
    exact And.intro (scoped_expression value placed.1) (scoped_properties rest placed.2)
  | .getter _ _ code :: rest | .setter _ _ code :: rest =>
    exact And.intro (scoped_function code placed.1) (scoped_properties rest placed.2)

theorem scoped_function (code : FunctionCode) (placed : function code) : Scoped.function code := by
  match code with
  | ⟨_, _, _, _, body, scope⟩ =>
    exact And.intro (functions_of_listed placed.1) (scoped_statements body placed.2)

theorem scoped_statement (s : Statement) (placed : statement s) : Scoped.statement s := by
  match s with
  | .expression _ value | .throws _ value => exact scoped_expression value placed
  | .block body => exact scoped_block body placed
  | .empty _ | .debugger _ | .breaks .. | .continues .. => trivial
  | .returns _ argument => exact scoped_optional argument placed
  | .labelled _ _ body => exact scoped_statement body placed.1
  | .branch _ test consequent alternate =>
    exact And.intro (scoped_expression test placed.1)
      (And.intro (scoped_statement consequent placed.2.1.1)
        (scoped_alternative alternate placed.2.2))
  | .select _ discriminant clauses scope =>
    exact And.intro (scoped_expression discriminant placed.1)
      (And.intro (functions_of_listed placed.2.1) (scoped_cases clauses placed.2.2))
  | .attempt _ body clause finalizer =>
    exact And.intro (scoped_block body placed.1)
      (And.intro (scoped_handler clause placed.2.1) (scoped_optionalBlock finalizer placed.2.2))
  | .whileLoop _ test body | .doLoop _ body test =>
    exact And.intro (scoped_expression test placed.1) (scoped_statement body placed.2.1)
  | .forLoop _ init test update body scope =>
    exact And.intro (scoped_forInit init placed.1) (And.intro (scoped_optional test placed.2.1)
      (And.intro (scoped_optional update placed.2.2.1)
        (And.intro (scoped_statement body placed.2.2.2.1.1)
          (functions_of_listed placed.2.2.2.2))))
  | .forInLoop _ left right body scope =>
    exact And.intro (scoped_forTarget left placed.1) (And.intro (scoped_expression right placed.2.1)
      (And.intro (scoped_statement body placed.2.2.1.1)
        (functions_of_listed placed.2.2.2)))
  | .function code => exact scoped_function code placed
  | .declaration ⟨_, _, parts⟩ => exact scoped_declarators parts placed

theorem scoped_alternative (alternate : Option Statement) (placed : alternative alternate) :
    Scoped.alternative alternate := by
  match alternate with
  | none => trivial
  | some s => exact scoped_statement s placed.1

theorem scoped_statements (list : List Statement) (placed : statements list) :
    Scoped.statements list := by
  match list with
  | [] => trivial
  | s :: rest => exact And.intro (scoped_statement s placed.1) (scoped_statements rest placed.2)

theorem scoped_block (body : Block) (placed : block body) : Scoped.block body := by
  match body with
  | ⟨_, body, scope⟩ =>
    exact And.intro (functions_of_listed placed.1) (scoped_statements body placed.2)

theorem scoped_optionalBlock (body : Option Block) (placed : optionalBlock body) :
    Scoped.optionalBlock body := by
  match body with
  | none => trivial
  | some body => exact scoped_block body placed

theorem scoped_handler (clause : Option Handler) (placed : handler clause) :
    Scoped.handler clause := by
  match clause with
  | none => trivial
  | some ⟨_, _, body⟩ => exact scoped_block body placed

theorem scoped_cases (clauses : List Case) (placed : cases clauses) : Scoped.cases clauses := by
  match clauses with
  | [] => trivial
  | ⟨_, test, body⟩ :: rest =>
    exact And.intro (scoped_optional test placed.1)
      (And.intro (scoped_statements body placed.2.1) (scoped_cases rest placed.2.2))

theorem scoped_declarators (parts : List Declarator) (placed : declarators parts) :
    Scoped.declarators parts := by
  match parts with
  | [] => trivial
  | ⟨_, _, init⟩ :: rest =>
    exact And.intro (scoped_optional init placed.1) (scoped_declarators rest placed.2)

theorem scoped_forInit (init : Option ForInit) (placed : forInit init) : Scoped.forInit init := by
  match init with
  | none => trivial
  | some (.declaration ⟨_, _, parts⟩) => exact scoped_declarators parts placed
  | some (.expression value) => exact scoped_expression value placed

theorem scoped_forTarget (left : ForTarget) (placed : forTarget left) : Scoped.forTarget left := by
  match left with
  | .declaration .. => trivial
  | .expression target => exact scoped_expression target placed

end

/-! ### The functions of placed statements -/

mutual

theorem function_of_mem_declared (s : Statement) (placed : statement s) {f : FunctionCode}
    (mem : f ∈ s.declared) : function f := by
  match s with
  | .function code =>
    cases List.mem_singleton.1 mem
    simpa only [statement] using placed
  | .labelled _ _ body =>
    simp only [statement] at placed
    exact function_of_mem_declared body placed.1 mem
  | .branch _ _ consequent alternate =>
    simp only [statement] at placed
    simp only [Statement.declared, List.mem_append] at mem
    rcases mem with mem | mem
    · exact function_of_mem_declared consequent placed.2.1.1 mem
    · exact function_of_mem_declaredInOption alternate placed.2.2 mem
  | .whileLoop _ _ body | .doLoop _ body _ =>
    simp only [statement] at placed
    exact function_of_mem_declared body placed.2.1 mem
  | .expression .. | .block _ | .empty _ | .debugger _ | .returns .. | .breaks .. | .continues ..
  | .throws .. | .select .. | .attempt .. | .forLoop .. | .forInLoop .. | .declaration _ =>
    cases mem

theorem function_of_mem_declaredInOption (alternate : Option Statement)
    (placed : alternative alternate) {f : FunctionCode} (mem : f ∈ declaredInOption alternate) :
    function f := by
  match alternate with
  | none => cases mem
  | some s =>
    simp only [alternative] at placed
    exact function_of_mem_declared s placed.1 mem

end

theorem function_of_mem_declaredIn {list : List Statement} (placed : statements list)
    {f : FunctionCode} (mem : f ∈ declaredIn list) : function f := by
  induction list with
  | nil => cases mem
  | cons s rest ih =>
    simp only [statements] at placed
    simp only [declaredIn, List.flatMap_cons, List.mem_append] at mem
    rcases mem with mem | mem
    · exact function_of_mem_declared s placed.1 mem
    · exact ih placed.2 mem

theorem function_of_mem_declaredInCases {clauses : List Case} (placed : cases clauses)
    {f : FunctionCode} (mem : f ∈ declaredInCases clauses) : function f := by
  induction clauses with
  | nil => cases mem
  | cons clause rest ih =>
    obtain ⟨_, test, body⟩ := clause
    simp only [cases] at placed
    simp only [declaredInCases, List.flatMap_cons, List.mem_append] at mem
    rcases mem with mem | mem
    · exact function_of_mem_declaredIn placed.2.1 mem
    · exact ih placed.2.2 mem

theorem Script.scoped {tree : ScriptTree} (placed : Script tree) : Scoped.Script tree :=
  ⟨functions_of_listed placed.listed, scoped_statements tree.body placed.body⟩

end Placed

/-- A function that the static rules accept, and whose scopes list what is declared in them. -/
structure FunctionCode.Sound (code : FunctionCode) : Prop where
  accepted : Check.function code = []
  placed : Placed.function code

theorem sound_of_mem_declaredIn {context : Check.Context} {statements : List Statement}
    (accepted : Check.statements context statements = []) (placed : Placed.statements statements)
    {f : FunctionCode} (mem : f ∈ declaredIn statements) : f.Sound where
  accepted := (judged_of_mem_declaredIn accepted (Placed.scoped_statements _ placed) mem).accepted
  placed := Placed.function_of_mem_declaredIn placed mem

theorem sound_of_mem_declaredInCases {context : Check.Context} {cases : List Case}
    (accepted : Check.cases context cases = []) (placed : Placed.cases cases) {f : FunctionCode}
    (mem : f ∈ declaredInCases cases) : f.Sound where
  accepted := (judged_of_mem_declaredInCases accepted (Placed.scoped_cases _ placed) mem).accepted
  placed := Placed.function_of_mem_declaredInCases placed mem

theorem FunctionCode.Sound.judged {code : FunctionCode} (sound : code.Sound) : code.Judged :=
  ⟨sound.accepted, Placed.scoped_function code sound.placed⟩

end ScriptEngine
