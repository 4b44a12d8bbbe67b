import ScriptEngine.Proofs.Tree.Marked
import ScriptEngine.Proofs.Tree.Placed

/-!
# The functions in a tree

Evaluating an expression makes functions of the function literals in it, and executing a statement
makes the functions that stand in it; what is inside of such a function is only evaluated when it is
called. `Functions` lists the functions that stand in a part of a tree, those inside of other
functions left out. What is scoped, placed or marked of the part is so of each.
-/
namespace ScriptEngine

namespace Functions

mutual

/-- The functions that evaluating an expression may make. -/
def expression : Expression → List FunctionCode
  | .literal .. | .identifier _ | .this _ => []
  | .array _ elements => slots elements
  | .object _ nodes => properties nodes
  | .function code => [code]
  | .unary _ _ argument | .update _ _ _ argument => expression argument
  | .binary _ _ left right | .logical _ _ left right | .assign _ _ left right
  | .index _ left right => expression left ++ expression right
  | .conditional _ test consequent alternate =>
    expression test ++ (expression consequent ++ expression alternate)
  | .member _ object _ => expression object
  | .call _ callee arguments | .new _ callee arguments =>
    expression callee ++ expressions arguments
  | .sequence _ parts => expressions parts

def expressions : List Expression → List FunctionCode
  | [] => []
  | e :: rest => expression e ++ expressions rest

def slots : List (Option Expression) → List FunctionCode
  | [] => []
  | none :: rest => slots rest
  | some e :: rest => expression e ++ slots rest

def properties : List PropertyNode → List FunctionCode
  | [] => []
  | .data _ _ value :: rest => expression value ++ properties rest
  | .getter _ _ code :: rest | .setter _ _ code :: rest => code :: properties rest

end

def optional : Option Expression → List FunctionCode
  | none => []
  | some e => expression e

def declarators : List Declarator → List FunctionCode
  | [] => []
  | ⟨_, _, init⟩ :: rest => optional init ++ declarators rest

def forInit : Option ForInit → List FunctionCode
  | none => []
  | some (.declaration ⟨_, _, parts⟩) => declarators parts
  | some (.expression value) => expression value

def forTarget : ForTarget → List FunctionCode
  | .declaration .. => []
  | .expression target => expression target

mutual

/-- The functions that executing a statement may make, those that its scopes list included. -/
def statement : Statement → List FunctionCode
  | .expression _ value | .throws _ value => expression value
  | .block body => block body
  | .empty _ | .debugger _ | .breaks .. | .continues .. => []
  | .returns _ argument => optional argument
  | .labelled _ _ body => statement body
  | .branch _ test consequent alternate =>
    expression test ++ (statement consequent ++ alternative alternate)
  | .select _ discriminant clauses _ => expression discriminant ++ cases clauses
  | .attempt _ body clause finalizer => block body ++ (handler clause ++ optionalBlock finalizer)
  | .whileLoop _ test body | .doLoop _ body test => expression test ++ statement body
  | .forLoop _ init test update body _ =>
    forInit init ++ (optional test ++ (optional update ++ statement body))
  | .forInLoop _ left right body _ => forTarget left ++ (expression right ++ statement body)
  | .function code => [code]
  | .declaration ⟨_, _, parts⟩ => declarators parts

def alternative : Option Statement → List FunctionCode
  | none => []
  | some s => statement s

def statements : List Statement → List FunctionCode
  | [] => []
  | s :: rest => statement s ++ statements rest

def block : Block → List FunctionCode
  | ⟨_, body, _⟩ => statements body

def optionalBlock : Option Block → List FunctionCode
  | none => []
  | some body => block body

def handler : Option Handler → List FunctionCode
  | none => []
  | some ⟨_, _, body⟩ => block body

def cases : List Case → List FunctionCode
  | [] => []
  | ⟨_, test, body⟩ :: rest => optional test ++ (statements body ++ cases rest)

end

/-! ### What is declared stands in the statement -/

mutual

theorem declared_subset (s : Statement) : s.declared ⊆ statement s := by
  match s with
  | .function code => exact List.Subset.refl _
  | .labelled _ _ body => exact declared_subset body
  | .branch _ test consequent alternate =>
    have first := declared_subset consequent
    have second := declaredInOption_subset alternate
    intro code mem
    simp only [Statement.declared, statement, List.mem_append] at mem ⊢
    exact .inr (mem.imp (first ·) (second ·))
  | .whileLoop _ test body | .doLoop _ body test =>
    have inside := declared_subset body
    exact List.Subset.trans inside (List.subset_append_right _ _)
  | .expression .. | .block _ | .empty _ | .debugger _ | .returns .. | .breaks .. | .continues ..
  | .throws .. | .select .. | .attempt .. | .forLoop .. | .forInLoop .. | .declaration _ =>
    exact List.nil_subset _

theorem declaredInOption_subset (alternate : Option Statement) :
    declaredInOption alternate ⊆ alternative alternate := by
  match alternate with
  | none => exact List.nil_subset _
  | some s => exact declared_subset s

end

theorem declaredIn_subset (body : List Statement) : declaredIn body ⊆ statements body := by
  induction body with
  | nil => exact List.nil_subset _
  | cons s rest ih =>
    intro code mem
    simp only [declaredIn, List.flatMap_cons, statements, List.mem_append] at mem ⊢
    exact mem.imp (declared_subset s ·) (ih ·)

theorem declaredInCases_subset (clauses : List Case) : declaredInCases clauses ⊆ cases clauses := by
  induction clauses with
  | nil => exact List.nil_subset _
  | cons clause rest ih =>
    obtain ⟨_, test, body⟩ := clause
    intro code mem
    simp only [declaredInCases, List.flatMap_cons, cases, List.mem_append] at mem ⊢
    exact .inr (mem.imp (declaredIn_subset body ·) (ih ·))

end Functions

/-! ### Scoped and placed expressions -/

namespace Scoped

mutual

theorem function_of_mem (e : Expression) (tied : expression e) :
    ∀ code ∈ Functions.expression e, function code := by
  match e with
  | .literal .. | .identifier _ | .this _ => exact nofun
  | .array _ elements => exact function_of_mem_slots elements tied
  | .object _ nodes => exact function_of_mem_properties nodes tied
  | .function code => exact List.forall_mem_singleton.2 tied
  | .unary _ _ argument | .update _ _ _ argument => exact function_of_mem argument tied
  | .binary _ _ left right | .logical _ _ left right | .assign _ _ left right
  | .index _ left right =>
    exact List.forall_mem_append.2 ⟨function_of_mem left tied.1, function_of_mem right tied.2⟩
  | .conditional _ test consequent alternate =>
    exact List.forall_mem_append.2 ⟨function_of_mem test tied.1, List.forall_mem_append.2
      ⟨function_of_mem consequent tied.2.1, function_of_mem alternate tied.2.2⟩⟩
  | .member _ object _ => exact function_of_mem object tied
  | .call _ callee arguments | .new _ callee arguments =>
    exact List.forall_mem_append.2
      ⟨function_of_mem callee tied.1, function_of_mem_expressions arguments tied.2⟩
  | .sequence _ parts => exact function_of_mem_expressions parts tied

theorem function_of_mem_expressions (es : List Expression) (tied : expressions es) :
    ∀ code ∈ Functions.expressions es, function code := by
  match es with
  | [] => exact nofun
  | e :: rest =>
    exact List.forall_mem_append.2
      ⟨function_of_mem e tied.1, function_of_mem_expressions rest tied.2⟩

theorem function_of_mem_slots (elements : List (Option Expression)) (tied : slots elements) :
    ∀ code ∈ Functions.slots elements, function code := by
  match elements with
  | [] => exact nofun
  | none :: rest => exact function_of_mem_slots rest tied.2
  | some e :: rest =>
    exact List.forall_mem_append.2 ⟨function_of_mem e tied.1, function_of_mem_slots rest tied.2⟩

theorem function_of_mem_properties (nodes : List PropertyNode) (tied : properties nodes) :
    ∀ code ∈ Functions.properties nodes, function code := by
  match nodes with
  | [] => exact nofun
  | .data _ _ value :: rest =>
    exact List.forall_mem_append.2
      ⟨function_of_mem value tied.1, function_of_mem_properties rest tied.2⟩
  | .getter _ _ code :: rest | .setter _ _ code :: rest =>
    exact List.forall_mem_cons.2 ⟨tied.1, function_of_mem_properties rest tied.2⟩

end

end Scoped

namespace Placed

mutual

theorem function_of_mem (e : Expression) (placed : expression e) :
    ∀ code ∈ Functions.expression e, function code := by
  match e with
  | .literal .. | .identifier _ | .this _ => exact nofun
  | .array _ elements => exact function_of_mem_slots elements placed
  | .object _ nodes => exact function_of_mem_properties nodes placed
  | .function code => exact List.forall_mem_singleton.2 placed
  | .unary _ _ argument | .update _ _ _ argument => exact function_of_mem argument placed
  | .binary _ _ left right | .logical _ _ left right | .assign _ _ left right
  | .index _ left right =>
    exact List.forall_mem_append.2 ⟨function_of_mem left placed.1, function_of_mem right placed.2⟩
  | .conditional _ test consequent alternate =>
    exact List.forall_mem_append.2 ⟨function_of_mem test placed.1, List.forall_mem_append.2
      ⟨function_of_mem consequent placed.2.1, function_of_mem alternate placed.2.2⟩⟩
  | .member _ object _ => exact function_of_mem object placed
  | .call _ callee arguments | .new _ callee arguments =>
    exact List.forall_mem_append.2
      ⟨function_of_mem callee placed.1, function_of_mem_expressions arguments placed.2⟩
  | .sequence _ parts => exact function_of_mem_expressions parts placed

theorem function_of_mem_expressions (es : List Expression) (placed : expressions es) :
    ∀ code ∈ Functions.expressions es, function code := by
  match es with
  | [] => exact nofun
  | e :: rest =>
    exact List.forall_mem_append.2
      ⟨function_of_mem e placed.1, function_of_mem_expressions rest placed.2⟩

theorem function_of_mem_slots (elements : List (Option Expression)) (placed : slots elements) :
    ∀ code ∈ Functions.slots elements, function code := by
  match elements with
  | [] => exact nofun
  | none :: rest => exact function_of_mem_slots rest placed.2
  | some e :: rest =>
    exact List.forall_mem_append.2 ⟨function_of_mem e placed.1, function_of_mem_slots rest placed.2⟩

theorem function_of_mem_properties (nodes : List PropertyNode) (placed : properties nodes) :
    ∀ code ∈ Functions.properties nodes, function code := by
  match nodes with
  | [] => exact nofun
  | .data _ _ value :: rest =>
    exact List.forall_mem_append.2
      ⟨function_of_mem value placed.1, function_of_mem_properties rest placed.2⟩
  | .getter _ _ code :: rest | .setter _ _ code :: rest =>
    exact List.forall_mem_cons.2 ⟨placed.1, function_of_mem_properties rest placed.2⟩

end

end Placed

/-! ### Marked trees -/

namespace Marked

variable {asks : List Statement → Bool} {strict : Bool}

mutual

theorem standing (e : Expression) (marked : expression asks strict e) :
    ∀ code ∈ Functions.expression e, function asks strict code := by
  match e with
  | .literal .. | .identifier _ | .this _ => exact nofun
  | .array _ elements => exact standing_slots elements marked
  | .object _ nodes => exact standing_properties nodes marked
  | .function code => exact List.forall_mem_singleton.2 marked
  | .unary _ _ argument | .update _ _ _ argument => exact standing argument marked
  | .binary _ _ left right | .logical _ _ left right | .assign _ _ left right
  | .index _ left right =>
    exact List.forall_mem_append.2 ⟨standing left marked.1, standing right marked.2⟩
  | .conditional _ test consequent alternate =>
    exact List.forall_mem_append.2 ⟨standing test marked.1, List.forall_mem_append.2
      ⟨standing consequent marked.2.1, standing alternate marked.2.2⟩⟩
  | .member _ object _ => exact standing object marked
  | .call _ callee arguments | .new _ callee arguments =>
    exact List.forall_mem_append.2
      ⟨standing callee marked.1, standing_expressions arguments marked.2⟩
  | .sequence _ parts => exact standing_expressions parts marked

theorem standing_expressions (es : List Expression) (marked : expressions asks strict es) :
    ∀ code ∈ Functions.expressions es, function asks strict code := by
  match es with
  | [] => exact nofun
  | e :: rest =>
    exact List.forall_mem_append.2
      ⟨standing e marked.1, standing_expressions rest marked.2⟩

theorem standing_slots (elements : List (Option Expression)) (marked : slots asks strict elements) :
    ∀ code ∈ Functions.slots elements, function asks strict code := by
  match elements with
  | [] => exact nofun
  | none :: rest => exact standing_slots rest marked.2
  | some e :: rest =>
    exact List.forall_mem_append.2 ⟨standing e marked.1, standing_slots rest marked.2⟩

theorem standing_properties (nodes : List PropertyNode) (marked : properties asks strict nodes) :
    ∀ code ∈ Functions.properties nodes, function asks strict code := by
  match nodes with
  | [] => exact nofun
  | .data _ _ value :: rest =>
    exact List.forall_mem_append.2
      ⟨standing value marked.1, standing_properties rest marked.2⟩
  | .getter _ _ code :: rest | .setter _ _ code :: rest =>
    exact List.forall_mem_cons.2 ⟨marked.1, standing_properties rest marked.2⟩

end

theorem standing_optional (e : Option Expression) (marked : optional asks strict e) :
    ∀ code ∈ Functions.optional e, function asks strict code := by
  match e with
  | none => exact nofun
  | some e => exact standing e marked

theorem standing_declarators (parts : List Declarator) (marked : declarators asks strict parts) :
    ∀ code ∈ Functions.declarators parts, function asks strict code := by
  induction parts with
  | nil => exact nofun
  | cons d rest ih =>
    obtain ⟨_, id, init⟩ := d
    exact List.forall_mem_append.2 ⟨standing_optional init marked.1, ih marked.2⟩

theorem standing_forInit (init : Option ForInit) (marked : forInit asks strict init) :
    ∀ code ∈ Functions.forInit init, function asks strict code := by
  match init with
  | none => exact nofun
  | some (.declaration ⟨_, _, parts⟩) => exact standing_declarators parts marked
  | some (.expression value) => exact standing value marked

theorem standing_forTarget (target : ForTarget) (marked : forTarget asks strict target) :
    ∀ code ∈ Functions.forTarget target, function asks strict code := by
  match target with
  | .declaration .. => exact nofun
  | .expression target => exact standing target marked

mutual

theorem standing_statement (s : Statement) (marked : statement asks strict s) :
    ∀ code ∈ Functions.statement s, function asks strict code := by
  match s with
  | .expression _ value | .throws _ value => exact standing value marked
  | .block body => exact standing_block body marked
  | .empty _ | .debugger _ | .breaks .. | .continues .. => exact nofun
  | .returns _ argument => exact standing_optional argument marked
  | .labelled _ _ body => exact standing_statement body marked
  | .branch _ test consequent alternate =>
    exact List.forall_mem_append.2 ⟨standing test marked.1, List.forall_mem_append.2
      ⟨standing_statement consequent marked.2.1, standing_alternative alternate marked.2.2⟩⟩
  | .select _ discriminant clauses _ =>
    exact List.forall_mem_append.2 ⟨standing discriminant marked.1, standing_cases clauses marked.2.2⟩
  | .attempt _ body clause finalizer =>
    exact List.forall_mem_append.2 ⟨standing_block body marked.1, List.forall_mem_append.2
      ⟨standing_handler clause marked.2.1, standing_optionalBlock finalizer marked.2.2⟩⟩
  | .whileLoop _ test body | .doLoop _ body test =>
    exact List.forall_mem_append.2 ⟨standing test marked.1, standing_statement body marked.2⟩
  | .forLoop _ init test update body _ =>
    obtain ⟨first, second, third, fourth, -⟩ := marked
    exact List.forall_mem_append.2 ⟨standing_forInit init first, List.forall_mem_append.2
      ⟨standing_optional test second, List.forall_mem_append.2
        ⟨standing_optional update third, standing_statement body fourth⟩⟩⟩
  | .forInLoop _ left right body _ =>
    obtain ⟨first, second, third, -⟩ := marked
    exact List.forall_mem_append.2 ⟨standing_forTarget left first, List.forall_mem_append.2
      ⟨standing right second, standing_statement body third⟩⟩
  | .function code => exact List.forall_mem_singleton.2 marked
  | .declaration ⟨_, _, parts⟩ => exact standing_declarators parts marked

theorem standing_alternative (alternate : Option Statement)
    (marked : alternative asks strict alternate) :
    ∀ code ∈ Functions.alternative alternate, function asks strict code := by
  match alternate with
  | none => exact nofun
  | some s => exact standing_statement s marked

theorem standing_statements (body : List Statement) (marked : statements asks strict body) :
    ∀ code ∈ Functions.statements body, function asks strict code := by
  match body with
  | [] => exact nofun
  | s :: rest =>
    exact List.forall_mem_append.2
      ⟨standing_statement s marked.1, standing_statements rest marked.2⟩

theorem standing_block (body : Block) (marked : block asks strict body) :
    ∀ code ∈ Functions.block body, function asks strict code := by
  match body with
  | ⟨_, body, _⟩ => exact standing_statements body marked.2

theorem standing_optionalBlock (body : Option Block) (marked : optionalBlock asks strict body) :
    ∀ code ∈ Functions.optionalBlock body, function asks strict code := by
  match body with
  | none => exact nofun
  | some body => exact standing_block body marked

theorem standing_handler (clause : Option Handler) (marked : handler asks strict clause) :
    ∀ code ∈ Functions.handler clause, function asks strict code := by
  match clause with
  | none => exact nofun
  | some ⟨_, _, body⟩ => exact standing_block body marked

theorem standing_cases (clauses : List Case) (marked : cases asks strict clauses) :
    ∀ code ∈ Functions.cases clauses, function asks strict code := by
  match clauses with
  | [] => exact nofun
  | ⟨_, test, body⟩ :: rest =>
    exact List.forall_mem_append.2 ⟨standing_optional test marked.1, List.forall_mem_append.2
      ⟨standing_statements body marked.2.1, standing_cases rest marked.2.2⟩⟩

end

end Marked

/-! ### The functions that running a script can make -/

/-- The functions that a script can make: those that stand in it, and those inside of such. -/
inductive ScriptTree.Makes (tree : ScriptTree) : FunctionCode → Prop where
  | here {code : FunctionCode} (mem : code ∈ Functions.statements tree.body) : tree.Makes code
  | inside {code inner : FunctionCode} (made : tree.Makes code)
    (mem : inner ∈ Functions.statements code.body) : tree.Makes inner

/-- In a script that strictness is forced on every function is strict. -/
theorem ScriptTree.Makes.strict {asks : List Statement → Bool} {tree : ScriptTree}
    {code : FunctionCode} (made : tree.Makes code) (marked : Marked.Script asks true tree) :
    code.strict = true := by
  -- It is strict code that a function is made in, also by another function.
  have stands : Marked.function asks true code := by
    induction made with
    | here mem => exact Marked.standing_statements _ marked.body _ mem
    | inside _ mem ih =>
      obtain ⟨-, body⟩ := (Marked.function_iff _).1 ih
      exact Marked.standing_statements _ body _ mem
  obtain ⟨own, -⟩ := (Marked.function_iff code).1 stands
  exact ((Marked.scope_iff _).1 own).1

end ScriptEngine
