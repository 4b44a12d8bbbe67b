import ScriptEngine.Tree.Basic

/-!
# Strictness in trees

Code is strict if what surrounds it is, or if its own function body or script asks for it. `Marked`
says of a tree that every scope in it has the flag that follows from this: `asks` tells which bodies
ask for strict mode, and `strict` whether the surrounding code is strict. It says so too of the
functions that a scope lists.
-/
namespace ScriptEngine.Marked

variable (asks : List Statement → Bool)

mutual

def expression (strict : Bool) : Expression → Prop
  | .literal .. | .identifier _ | .this _ => True
  | .array _ elements => slots strict elements
  | .object _ nodes => properties strict nodes
  | .function code => function strict code
  | .unary _ _ argument | .update _ _ _ argument => expression strict argument
  | .binary _ _ left right | .logical _ _ left right | .assign _ _ left right
  | .index _ left right => expression strict left ∧ expression strict right
  | .conditional _ test consequent alternate =>
    expression strict test ∧ expression strict consequent ∧ expression strict alternate
  | .member _ object _ => expression strict object
  | .call _ callee arguments | .new _ callee arguments =>
    expression strict callee ∧ expressions strict arguments
  | .sequence _ parts => expressions strict parts

def expressions (strict : Bool) : List Expression → Prop
  | [] => True
  | e :: rest => expression strict e ∧ expressions strict rest

def optional (strict : Bool) : Option Expression → Prop
  | none => True
  | some e => expression strict e

def slots (strict : Bool) : List (Option Expression) → Prop
  | [] => True
  | slot :: rest => optional strict slot ∧ slots strict rest

def properties (strict : Bool) : List PropertyNode → Prop
  | [] => True
  | .data _ _ value :: rest => expression strict value ∧ properties strict rest
  | .getter _ _ code :: rest | .setter _ _ code :: rest =>
    function strict code ∧ properties strict rest

/-- A function is strict if the code around it is, or if its body asks for it. -/
def function (strict : Bool) : FunctionCode → Prop
  | ⟨_, _, _, _, body, own⟩ =>
    scope (strict || asks body) own ∧ statements (strict || asks body) body

/-- The flag of a scope is the one that is given, and its functions stand in such code. -/
def scope (strict : Bool) : Scope → Prop
  | ⟨flag, _, _, _, listed⟩ => flag = strict ∧ functions strict listed

def functions (strict : Bool) : List FunctionCode → Prop
  | [] => True
  | code :: rest => function strict code ∧ functions strict rest

def statement (strict : Bool) : Statement → Prop
  | .expression _ value | .throws _ value => expression strict value
  | .block body => block strict body
  | .empty _ | .debugger _ | .breaks .. | .continues .. => True
  | .returns _ argument => optional strict argument
  | .labelled _ _ body => statement strict body
  | .branch _ test consequent alternate =>
    expression strict test ∧ statement strict consequent ∧ alternative strict alternate
  | .select _ discriminant clauses own =>
    expression strict discriminant ∧ scope strict own ∧ cases strict clauses
  | .attempt _ body clause finalizer =>
    block strict body ∧ handler strict clause ∧ optionalBlock strict finalizer
  | .whileLoop _ test body | .doLoop _ body test => expression strict test ∧ statement strict body
  | .forLoop _ init test update body own =>
    forInit strict init ∧ optional strict test ∧ optional strict update ∧ statement strict body ∧
      scope strict own
  | .forInLoop _ left right body own =>
    forTarget strict left ∧ expression strict right ∧ statement strict body ∧ scope strict own
  | .function code => function strict code
  | .declaration ⟨_, _, parts⟩ => declarators strict parts

def alternative (strict : Bool) : Option Statement → Prop
  | none => True
  | some s => statement strict s

def statements (strict : Bool) : List Statement → Prop
  | [] => True
  | s :: rest => statement strict s ∧ statements strict rest

def block (strict : Bool) : Block → Prop
  | ⟨_, body, own⟩ => scope strict own ∧ statements strict body

def optionalBlock (strict : Bool) : Option Block → Prop
  | none => True
  | some body => block strict body

def handler (strict : Bool) : Option Handler → Prop
  | none => True
  | some ⟨_, _, body⟩ => block strict body

def cases (strict : Bool) : List Case → Prop
  | [] => True
  | ⟨_, test, body⟩ :: rest => optional strict test ∧ statements strict body ∧ cases strict rest

def declarators (strict : Bool) : List Declarator → Prop
  | [] => True
  | ⟨_, _, init⟩ :: rest => optional strict init ∧ declarators strict rest

def forInit (strict : Bool) : Option ForInit → Prop
  | none => True
  | some (.declaration ⟨_, _, parts⟩) => declarators strict parts
  | some (.expression value) => expression strict value

def forTarget (strict : Bool) : ForTarget → Prop
  | .declaration .. => True
  | .expression target => expression strict target

end

/-- A whole script, which is strict if that is forced or if it asks for it. -/
structure Script (forced : Bool) (tree : ScriptTree) : Prop where
  own : scope asks (forced || asks tree.body) tree.scope
  body : statements asks (forced || asks tree.body) tree.body

variable {asks : List Statement → Bool} {strict : Bool}

theorem scope_iff (own : Scope) :
    scope asks strict own ↔ own.strict = strict ∧ functions asks strict own.functions := by
  cases own
  simp only [scope]

theorem function_iff (code : FunctionCode) :
    function asks strict code ↔ scope asks (strict || asks code.body) code.scope ∧
      statements asks (strict || asks code.body) code.body := by
  cases code
  simp only [function]

theorem block_iff (body : Block) :
    block asks strict body ↔ scope asks strict body.scope ∧ statements asks strict body.body := by
  cases body
  simp only [block]

theorem functions_append {first second : List FunctionCode} (before : functions asks strict first)
    (after : functions asks strict second) : functions asks strict (first ++ second) := by
  induction first with
  | nil => exact after
  | cons code rest ih => exact And.intro before.1 (ih before.2)

end ScriptEngine.Marked
