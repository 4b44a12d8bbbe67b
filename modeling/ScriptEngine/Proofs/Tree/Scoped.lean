import ScriptEngine.Check.Rules

/-!
# Functions and their scopes

Entering a scope makes the functions that the scope lists; the static rules judge a function where
its declaration stands. That these are the same functions is what `Scoped` says of a tree: every
scope in it lists, in source order, exactly the functions that are declared directly in it.

Main result: in a tree that the rules accept and that is scoped, the functions of a scope are
accepted too (`judged_of_mem_declaredIn`).
-/
namespace ScriptEngine

mutual

/-- The functions that a statement declares in the scope around it: those in blocks, switches and
loops with a head belong to the scopes of these. -/
def Statement.declared : Statement → List FunctionCode
  | .function code => [code]
  | .labelled _ _ body => body.declared
  | .branch _ _ consequent alternate => consequent.declared ++ declaredInOption alternate
  | .whileLoop _ _ body | .doLoop _ body _ => body.declared
  | .expression .. | .block _ | .empty _ | .debugger _ | .returns .. | .breaks .. | .continues ..
  | .throws .. | .select .. | .attempt .. | .forLoop .. | .forInLoop .. | .declaration _ => []

def declaredInOption : Option Statement → List FunctionCode
  | none => []
  | some s => s.declared

end

/-- The functions that some statements declare in the scope around them. -/
def declaredIn (statements : List Statement) : List FunctionCode :=
  statements.flatMap Statement.declared

/-- The functions that the clauses of a switch declare in its scope. -/
def declaredInCases (cases : List Case) : List FunctionCode :=
  cases.flatMap fun clause => declaredIn clause.consequent

namespace Scoped

mutual

def expression : Expression → Prop
  | .literal .. | .identifier _ | .this _ => True
  | .array _ elements => slots elements
  | .object _ nodes => properties nodes
  | .function code => function code
  | .unary _ _ argument | .update _ _ _ argument => expression argument
  | .binary _ _ left right | .logical _ _ left right | .assign _ _ left right
  | .index _ left right => expression left ∧ expression right
  | .conditional _ test consequent alternate =>
    expression test ∧ expression consequent ∧ expression alternate
  | .member _ object _ => expression object
  | .call _ callee arguments | .new _ callee arguments => expression callee ∧ expressions arguments
  | .sequence _ parts => expressions parts

def expressions : List Expression → Prop
  | [] => True
  | e :: rest => expression e ∧ expressions rest

def optional : Option Expression → Prop
  | none => True
  | some e => expression e

def slots : List (Option Expression) → Prop
  | [] => True
  | slot :: rest => optional slot ∧ slots rest

def properties : List PropertyNode → Prop
  | [] => True
  | .data _ _ value :: rest => expression value ∧ properties rest
  | .getter _ _ code :: rest | .setter _ _ code :: rest => function code ∧ properties rest

/-- The scope of a function lists what is declared in its body, and so on inside. -/
def function : FunctionCode → Prop
  | ⟨_, _, _, _, body, scope⟩ => scope.functions = declaredIn body ∧ statements body

def statement : Statement → Prop
  | .expression _ value | .throws _ value => expression value
  | .block body => block body
  | .empty _ | .debugger _ | .breaks .. | .continues .. => True
  | .returns _ argument => optional argument
  | .labelled _ _ body => statement body
  | .branch _ test consequent alternate =>
    expression test ∧ statement consequent ∧ alternative alternate
  | .select _ discriminant clauses scope =>
    expression discriminant ∧ scope.functions = declaredInCases clauses ∧ cases clauses
  | .attempt _ body clause finalizer => block body ∧ handler clause ∧ optionalBlock finalizer
  | .whileLoop _ test body | .doLoop _ body test => expression test ∧ statement body
  | .forLoop _ init test update body scope =>
    forInit init ∧ optional test ∧ optional update ∧ statement body ∧
      scope.functions = body.declared
  | .forInLoop _ left right body scope =>
    forTarget left ∧ expression right ∧ statement body ∧ scope.functions = body.declared
  | .function code => function code
  | .declaration ⟨_, _, parts⟩ => declarators parts

def alternative : Option Statement → Prop
  | none => True
  | some s => statement s

def statements : List Statement → Prop
  | [] => True
  | s :: rest => statement s ∧ statements rest

def block : Block → Prop
  | ⟨_, body, scope⟩ => scope.functions = declaredIn body ∧ statements body

def optionalBlock : Option Block → Prop
  | none => True
  | some body => block body

def handler : Option Handler → Prop
  | none => True
  | some ⟨_, _, body⟩ => block body

def cases : List Case → Prop
  | [] => True
  | ⟨_, test, body⟩ :: rest => optional test ∧ statements body ∧ cases rest

def declarators : List Declarator → Prop
  | [] => True
  | ⟨_, _, init⟩ :: rest => optional init ∧ declarators rest

def forInit : Option ForInit → Prop
  | none => True
  | some (.declaration ⟨_, _, parts⟩) => declarators parts
  | some (.expression value) => expression value

def forTarget : ForTarget → Prop
  | .declaration .. => True
  | .expression target => expression target

end

/-- A whole script. -/
structure Script (tree : ScriptTree) : Prop where
  functions : tree.scope.functions = declaredIn tree.body
  body : statements tree.body

theorem function_iff (code : FunctionCode) :
    function code ↔ code.scope.functions = declaredIn code.body ∧ statements code.body := by
  cases code
  simp only [function]

end Scoped

/-- A function that the static rules accept, and whose scopes list what is declared in them. -/
structure FunctionCode.Judged (code : FunctionCode) : Prop where
  accepted : Check.function code = []
  tied : Scoped.function code

/-! ### The functions of accepted statements -/

mutual

theorem judged_of_mem_declared {context : Check.Context} (s : Statement)
    (accepted : Check.statement context s = []) (tied : Scoped.statement s) {f : FunctionCode}
    (mem : f ∈ s.declared) : f.Judged := by
  match s with
  | .function code =>
    cases List.mem_singleton.1 mem
    simp only [Check.statement] at accepted
    simp only [Scoped.statement] at tied
    exact ⟨accepted, tied⟩
  | .labelled _ id body =>
    simp only [Check.statement, List.append_eq_nil_iff] at accepted
    simp only [Scoped.statement] at tied
    exact judged_of_mem_declared body accepted.2 tied mem
  -- A branch opens no scope: what both sides declare belongs to the scope around.
  | .branch _ test consequent alternate =>
    unfold Check.statement at accepted
    simp only [List.append_eq_nil_iff] at accepted
    simp only [Scoped.statement] at tied
    simp only [Statement.declared, List.mem_append] at mem
    rcases mem with mem | mem
    · exact judged_of_mem_declared consequent accepted.1.2 tied.2.1 mem
    · exact judged_of_mem_declaredInOption alternate accepted.2 tied.2.2 mem
  | .whileLoop _ test body | .doLoop _ body test =>
    simp only [Check.statement, List.append_eq_nil_iff] at accepted
    simp only [Scoped.statement] at tied
    exact judged_of_mem_declared body accepted.2 tied.2 mem
  | .expression .. | .block _ | .empty _ | .debugger _ | .returns .. | .breaks .. | .continues ..
  | .throws .. | .select .. | .attempt .. | .forLoop .. | .forInLoop .. | .declaration _ =>
    cases mem

theorem judged_of_mem_declaredInOption {context : Check.Context} (alternate : Option Statement)
    (accepted : (match alternate with
      | some s => Check.statement context s
      | none => []) = [])
    (tied : Scoped.alternative alternate) {f : FunctionCode}
    (mem : f ∈ declaredInOption alternate) : f.Judged := by
  match alternate with
  | none => cases mem
  | some s =>
    simp only [Scoped.alternative] at tied
    exact judged_of_mem_declared s accepted tied mem

end

theorem judged_of_mem_declaredIn {context : Check.Context} {statements : List Statement}
    (accepted : Check.statements context statements = []) (tied : Scoped.statements statements)
    {f : FunctionCode} (mem : f ∈ declaredIn statements) : f.Judged := by
  induction statements with
  | nil => cases mem
  | cons s rest ih =>
    simp only [Check.statements, List.append_eq_nil_iff] at accepted
    simp only [Scoped.statements] at tied
    simp only [declaredIn, List.flatMap_cons, List.mem_append] at mem
    rcases mem with mem | mem
    · exact judged_of_mem_declared s accepted.1 tied.1 mem
    · exact ih accepted.2 tied.2 mem

/-- The statements in accepted clauses are accepted, whether or not a clause has a test. -/
theorem accepted_cases {context : Check.Context} {span : Span} {test : Option Expression}
    {body : List Statement} {rest : List Case}
    (accepted : Check.cases context (⟨span, test, body⟩ :: rest) = []) :
    Check.statements context body = [] ∧ Check.cases context rest = [] := by
  cases test with
  | none => simpa only [Check.cases, List.append_eq_nil_iff] using accepted
  | some test =>
    simp only [Check.cases, List.append_eq_nil_iff] at accepted
    exact ⟨accepted.1.2, accepted.2⟩

theorem judged_of_mem_declaredInCases {context : Check.Context} {cases : List Case}
    (accepted : Check.cases context cases = []) (tied : Scoped.cases cases) {f : FunctionCode}
    (mem : f ∈ declaredInCases cases) : f.Judged := by
  induction cases with
  | nil => cases mem
  | cons clause rest ih =>
    obtain ⟨_, test, body⟩ := clause
    have parts := accepted_cases accepted
    simp only [Scoped.cases] at tied
    simp only [declaredInCases, List.flatMap_cons, List.mem_append] at mem
    rcases mem with mem | mem
    · exact judged_of_mem_declaredIn parts.1 tied.2.1 mem
    · exact ih parts.2 tied.2.2 mem

end ScriptEngine
