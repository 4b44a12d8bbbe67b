import ScriptEngine.Proofs.Check.Pieces
import ScriptEngine.Proofs.Tree.Scoped

/-!
# Scopes piece by piece

That the scopes of a tree list the functions declared in them is said of the tree as a whole. Here
it is said of a piece, and it holds of the pieces below (`Piece.Tied.inside`). So what holds of a
piece and carries over to the pieces below it holds of the functions that its scope lists
(`Piece.Tied.forall_functions`).
-/
namespace ScriptEngine

/-- The scopes in the piece list what is declared in them. -/
def Piece.Tied : Piece → Prop
  | script tree => Scoped.Script tree
  | function code => Scoped.function code
  | statement s => Scoped.statement s
  | expression e => Scoped.expression e
  | block body => Scoped.block body
  | clause part => Scoped.optional part.test ∧ Scoped.statements part.consequent
  | handler part => Scoped.block part.body
  | declarator _ part => Scoped.optional part.init

namespace Scoped

/-! ### Lists of parts -/

theorem optional_iff {part : Option Expression} :
    optional part ↔ ∀ e ∈ part, expression e := by
  cases part <;> simp [optional]

theorem alternative_iff {part : Option Statement} :
    alternative part ↔ ∀ s ∈ part, statement s := by
  cases part <;> simp [alternative]

theorem optionalBlock_iff {part : Option Block} :
    optionalBlock part ↔ ∀ body ∈ part, block body := by
  cases part <;> simp [optionalBlock]

theorem handler_iff {part : Option Handler} :
    handler part ↔ ∀ clause ∈ part, (Piece.handler clause).Tied := by
  cases part with
  | none => simp [handler]
  | some clause =>
    obtain ⟨_, parameter, body⟩ := clause
    simp [handler, Piece.Tied]

theorem expressions_iff {es : List Expression} : expressions es ↔ ∀ e ∈ es, expression e := by
  induction es with
  | nil => simp [expressions]
  | cons e rest ih => simp [expressions, ih]

theorem statements_iff {list : List Statement} : statements list ↔ ∀ s ∈ list, statement s := by
  induction list with
  | nil => simp [statements]
  | cons s rest ih => simp [statements, ih]

theorem slots_iff {elements : List (Option Expression)} :
    slots elements ↔ ∀ e, some e ∈ elements → expression e := by
  induction elements with
  | nil => simp [slots]
  | cons slot rest ih => cases slot <;> simp [slots, optional, ih]

theorem properties_iff {nodes : List PropertyNode} :
    properties nodes ↔ ∀ node ∈ nodes, node.piece.Tied := by
  induction nodes with
  | nil => simp [properties]
  | cons node rest ih => cases node <;> simp [properties, PropertyNode.piece, Piece.Tied, ih]

theorem cases_iff {clauses : List Case} :
    cases clauses ↔ ∀ clause ∈ clauses, (Piece.clause clause).Tied := by
  induction clauses with
  | nil => simp [cases]
  | cons clause rest ih =>
    obtain ⟨_, test, body⟩ := clause
    simp [cases, Piece.Tied, ih, and_assoc]

theorem declarators_iff {kind : DeclarationKind} {parts : List Declarator} :
    declarators parts ↔ ∀ part ∈ parts, (Piece.declarator kind part).Tied := by
  induction parts with
  | nil => simp [declarators]
  | cons part rest ih =>
    obtain ⟨_, id, init⟩ := part
    simp [declarators, Piece.Tied, ih]

theorem forInit_iff {init : Option ForInit} :
    forInit init ↔ ∀ part ∈ init, ∀ piece ∈ part.pieces, piece.Tied := by
  match init with
  | none => simp [forInit]
  | some (.expression value) => simp [forInit, ForInit.pieces, Piece.Tied]
  | some (.declaration ⟨_, kind, parts⟩) =>
    simp [forInit, ForInit.pieces, Declaration.pieces, @declarators_iff kind]

theorem forTarget_iff {left : ForTarget} : forTarget left ↔ ∀ piece ∈ left.pieces, piece.Tied := by
  cases left <;> simp [forTarget, ForTarget.pieces, Piece.Tied]

/-! ### The pieces of expressions and statements -/

theorem tied_pieces_expression {e : Expression} (tied : expression e) :
    ∀ inner ∈ e.pieces, inner.Tied := by
  cases e with
  | literal | identifier | this => exact nofun
  | array _ elements => simpa [expression, Expression.pieces, slots_iff, Piece.Tied] using tied
  | object _ nodes => simpa [expression, Expression.pieces, properties_iff] using tied
  | sequence _ parts =>
    simpa [expression, Expression.pieces, expressions_iff, Piece.Tied] using tied
  | call _ callee arguments | new _ callee arguments =>
    simpa [expression, Expression.pieces, expressions_iff, Piece.Tied] using tied
  | function | unary | update | binary | logical | assign | index | conditional | member =>
    simpa [expression, Expression.pieces, Piece.Tied] using tied

theorem tied_pieces_statement {s : Statement} (tied : statement s) :
    ∀ inner ∈ s.pieces, inner.Tied := by
  cases s with
  | empty | debugger | breaks | continues => exact nofun
  | expression | throws | block | labelled | function | whileLoop | doLoop =>
    simpa [statement, Statement.pieces, Piece.Tied] using tied
  | returns _ argument =>
    simpa [statement, Statement.pieces, optional_iff, Piece.Tied] using tied
  | branch _ test consequent alternate =>
    simpa [statement, Statement.pieces, alternative_iff, Piece.Tied] using tied
  | select _ discriminant clauses scope =>
    simp only [statement, cases_iff] at tied
    simpa [Statement.pieces, Piece.Tied] using ⟨tied.1, tied.2.2⟩
  | attempt _ body clause finalizer =>
    simp only [statement, handler_iff, optionalBlock_iff] at tied
    obtain ⟨attempted, handled, finished⟩ := tied
    simp only [Statement.pieces, List.forall_mem_cons, List.forall_mem_append, List.forall_mem_map,
      Option.mem_toList]
    exact ⟨attempted, handled, finished⟩
  | forLoop _ init test update body scope =>
    simp only [statement, forInit_iff, optional_iff] at tied
    obtain ⟨heads, tested, updated, inside, -⟩ := tied
    simp only [Statement.pieces, List.forall_mem_append, List.forall_mem_map, List.mem_flatMap,
      Option.mem_toList, List.forall_mem_singleton]
    exact ⟨fun piece ⟨part, given, mem⟩ => heads part given piece mem, tested, updated, inside⟩
  | forInLoop _ left right body scope =>
    simp only [statement, forTarget_iff] at tied
    obtain ⟨target, object, inside, -⟩ := tied
    simp only [Statement.pieces, List.forall_mem_append, List.forall_mem_cons]
    exact ⟨target, object, inside, List.forall_mem_nil _⟩
  | declaration d =>
    obtain ⟨_, kind, parts⟩ := d
    simpa [statement, Statement.pieces, Declaration.pieces, @declarators_iff kind]
      using tied

end Scoped

namespace Piece

variable {whole inner : Piece}

theorem Tied.inside (tied : whole.Tied) (mem : inner ∈ whole.below) : inner.Tied := by
  have body : ∀ {list : List Statement}, Scoped.statements list → inner ∈ list.map statement →
      inner.Tied := by
    intro list tied below
    obtain ⟨s, listed, rfl⟩ := List.mem_map.1 below
    exact Scoped.statements_iff.1 tied s listed
  cases whole with
  | script tree => exact body tied.body mem
  | function code => exact body ((Scoped.function_iff code).1 tied).2 mem
  | statement s => exact Scoped.tied_pieces_statement tied inner mem
  | expression e => exact Scoped.tied_pieces_expression tied inner mem
  | block b =>
    obtain ⟨_, list, scope⟩ := b
    simp only [Tied, Scoped.block] at tied
    exact body tied.2 mem
  | clause part =>
    rcases List.mem_append.1 mem with mem | mem
    · obtain ⟨test, given, rfl⟩ := List.mem_map.1 mem
      exact Scoped.optional_iff.1 tied.1 test (Option.mem_toList.1 given)
    · exact body tied.2 mem
  | handler part =>
    cases List.mem_singleton.1 mem
    exact tied
  | declarator kind part =>
    obtain ⟨init, given, rfl⟩ := List.mem_map.1 mem
    exact Scoped.optional_iff.1 tied init (Option.mem_toList.1 given)

/-! ### What scopes list -/

/-- The functions that entering the piece makes, apart from one that it is itself. -/
def functions : Piece → List FunctionCode
  | script tree => tree.scope.functions
  | function code => code.scope.functions
  | block body => body.scope.functions
  | statement (.select _ _ _ scope) => scope.functions
  | _ => []

section

variable {P : Piece → Prop}
  (descends : ∀ {whole inner : Piece}, P whole → inner ∈ whole.below → P inner)

include descends

set_option linter.unusedSectionVars false in
mutual

/-- What a statement declares in the scope around it stands below it. -/
theorem forall_declared (s : Statement) (holds : P (.statement s)) :
    ∀ code ∈ s.declared, P (.function code) := by
  match s with
  | .function code =>
    exact List.forall_mem_singleton.2 (descends holds (.head _))
  | .labelled _ _ body =>
    exact forall_declared body (descends holds (.head _))
  | .branch _ test consequent alternate =>
    refine List.forall_mem_append.2 ⟨?_, ?_⟩
    · exact forall_declared consequent (descends holds (.tail _ (.head _)))
    · exact forall_declaredInOption alternate fun s given =>
        descends holds (.tail _ (.tail _ (List.mem_map_of_mem (Option.mem_toList.2 given))))
  | .whileLoop _ _ body | .doLoop _ body _ =>
    exact forall_declared body (descends holds (.tail _ (.head _)))
  | .expression .. | .block _ | .empty _ | .debugger _ | .returns .. | .breaks .. | .continues ..
  | .throws .. | .select .. | .attempt .. | .forLoop .. | .forInLoop .. | .declaration _ =>
    exact nofun

theorem forall_declaredInOption (alternate : Option Statement)
    (holds : ∀ s ∈ alternate, P (.statement s)) :
    ∀ code ∈ declaredInOption alternate, P (.function code) := by
  match alternate with
  | none => exact nofun
  | some s => exact forall_declared s (holds s rfl)

end

theorem forall_declaredIn {list : List Statement} (each : ∀ s ∈ list, P (.statement s)) :
    ∀ code ∈ declaredIn list, P (.function code) := by
  intro code mem
  obtain ⟨s, mem, declared⟩ := List.mem_flatMap.1 mem
  exact forall_declared descends s (each s mem) code declared

/-- What holds of a piece and carries over to the pieces below holds of the functions that its scope
lists. -/
theorem Tied.forall_functions (tied : whole.Tied) (holds : P whole) :
    ∀ code ∈ whole.functions, P (.function code) := by
  have body : ∀ {list : List Statement}, whole.below = list.map statement →
      ∀ code ∈ declaredIn list, P (.function code) := fun below =>
    forall_declaredIn descends fun s mem => descends holds (below ▸ List.mem_map_of_mem mem)
  unfold functions
  split
  next tree => exact tied.functions ▸ body rfl
  next code => exact ((Scoped.function_iff code).1 tied).1 ▸ body rfl
  next b =>
    obtain ⟨_, list, scope⟩ := b
    simp only [Tied, Scoped.block] at tied
    exact tied.1 ▸ body rfl
  next discriminant clauses scope =>
    simp only [Tied, Scoped.statement] at tied
    -- The clauses of a switch share one scope.
    rw [tied.2.1]
    intro code mem
    obtain ⟨clause, mem, declared⟩ := List.mem_flatMap.1 mem
    have holds := descends holds (.tail _ (List.mem_map_of_mem mem))
    exact forall_declaredIn descends (fun s mem =>
      descends holds (List.mem_append_right _ (List.mem_map_of_mem mem))) code declared
  · exact nofun

end

end Piece

end ScriptEngine
