import ScriptEngine.Proofs.Tree.Accepted
import ScriptEngine.Proofs.Tree.Declared
import ScriptEngine.Proofs.Tree.Layout
import ScriptEngine.Proofs.Tree.Nodes

/-!
# Where the nodes of a tree stand

Every node of a script that was read is a stretch of the source that begins and ends between
characters; its children lie inside it, one behind the other, and so do the names and functions that
its scope records, which are themselves nodes below it (`Script.nodes_well_placed`).

That the children do comes from building (`Script.buildScript_nested`). What a scope records is known
from what is declared in the node (`SyntaxNode.IsPlaced`). That are names and functions that stand in
the node, and in source order they do not overlap: `Drawn` says this of nodes that are drawn from
others. A `var` name can be drawn from far below, out of blocks and loops, so this goes by recursion
on statements (`vars_drawn`); the names of `let` and `const` and the functions are drawn from closer
by.
-/
namespace ScriptEngine

/-! ## Where declared names stand -/

section

open SyntaxNode

variable {source : List Char}

/-- Nodes that stand in line between two offsets, each of them somewhere in one of some others. -/
structure Drawn (a : Nat) (nodes drawn : List SyntaxNode) (b : Nat) : Prop where
  row : Row a (drawn.map span) b
  inside : ∀ inner ∈ drawn, ∃ n ∈ nodes, n.Contains inner

namespace Drawn

variable {a b c : Nat} {n : SyntaxNode} {nodes others drawn more : List SyntaxNode}

theorem none (line : InLine source a nodes b) : Drawn a nodes [] b :=
  ⟨line.row.le, List.forall_mem_nil _⟩

theorem all (line : InLine source a nodes b) : Drawn a nodes nodes b :=
  ⟨line.row, fun n mem => ⟨n, mem, .self⟩⟩

theorem append (first : Drawn a nodes drawn b) (later : Drawn b others more c) :
    Drawn a (nodes ++ others) (drawn ++ more) c := by
  constructor
  · rw [List.map_append]
    exact first.row.append later.row
  · refine List.forall_mem_append.2 ⟨fun inner mem => ?_, fun inner mem => ?_⟩
    · obtain ⟨n, isNode, contains⟩ := first.inside inner mem
      exact ⟨n, List.mem_append_left _ isNode, contains⟩
    · obtain ⟨n, isNode, contains⟩ := later.inside inner mem
      exact ⟨n, List.mem_append_right _ isNode, contains⟩

theorem startBefore (later : Drawn b nodes drawn c) (before : a ≤ b) : Drawn a nodes drawn c :=
  ⟨later.row.widen before (Nat.le_refl _), later.inside⟩

/-- What is drawn from the children of a node is drawn from the node. -/
theorem up (inside : Drawn n.span.start n.children drawn n.span.stop) :
    Drawn n.span.start [n] drawn n.span.stop := by
  refine ⟨inside.row, fun inner mem => ⟨n, List.mem_singleton_self n, ?_⟩⟩
  obtain ⟨child, isChild, contains⟩ := inside.inside inner mem
  exact contains.of_mem isChild

/-- Something is drawn from the first node, and something from the others. -/
theorem cons (before : a ≤ n.span.start) (first : Drawn n.span.start [n] drawn n.span.stop)
    (later : Drawn n.span.stop nodes more b) : Drawn a (n :: nodes) (drawn ++ more) b :=
  (first.append later).startBefore before

/-- Nothing is drawn from the first node. -/
theorem skip (line : InLine source a (n :: nodes) b)
    (later : Drawn n.span.stop nodes drawn b) : Drawn a (n :: nodes) drawn b := by
  obtain ⟨before, nested, -⟩ := line.uncons
  exact .cons before (.none (.of_nested nested)) later

/-- Nothing is drawn from the others. -/
theorem only (line : InLine source a (n :: nodes) b)
    (first : Drawn n.span.start [n] drawn n.span.stop) : Drawn a (n :: nodes) drawn b := by
  obtain ⟨before, -, later⟩ := line.uncons
  have both := first.cons before (.none later)
  rwa [List.append_nil] at both

/-- Something is drawn from each of some nodes. -/
theorem flatMap {α : Type} {node : α → SyntaxNode} {f : α → List SyntaxNode} {parts : List α}
    (each : ∀ part ∈ parts, (node part).Nested source →
      Drawn (node part).span.start [node part] (f part) (node part).span.stop)
    (line : InLine source a (parts.map node) b) : Drawn a (parts.map node) (parts.flatMap f) b := by
  induction parts generalizing a with
  | nil => exact .none line
  | cons part rest ih =>
    obtain ⟨first, others⟩ := List.forall_mem_cons.1 each
    obtain ⟨before, nested, later⟩ := line.uncons
    exact .cons before (first nested) (ih others later)

end Drawn

section

variable {a b : Nat}

/-! ### The names of declarators -/

/-- From a declarator nothing is drawn but its name. -/
theorem declarators_drawn {f : Declarator → List SyntaxNode} {parts : List Declarator}
    (each : ∀ part, f part = [] ∨ f part = [.name part.id])
    (line : InLine source a (parts.map .declarator) b) :
    Drawn a (parts.map .declarator) (parts.flatMap f) b := by
  refine .flatMap (fun part _ nested => ?_) line
  have inside := InLine.children nested
  obtain ⟨-, name, -⟩ := inside.uncons
  apply Drawn.up
  rcases each part with nothing | own
  · rw [nothing]
    exact .none inside
  · rw [own]
    exact .only inside (.all (.of_nested name))

theorem varsBy_drawn {kind : DeclarationKind} {parts : List Declarator}
    (line : InLine source a (parts.map .declarator) b) :
    Drawn a (parts.map .declarator) ((varsBy kind parts).map .name) b := by
  rw [varsBy, List.map_flatMap]
  refine declarators_drawn (fun part => ?_) line
  cases kind with
  | var => exact .inr rfl
  | «let» | const => exact .inl rfl

theorem declaredBy_drawn {kind : DeclarationKind} {parts : List Declarator}
    (line : InLine source a (parts.map .declarator) b) :
    Drawn a (parts.map .declarator)
      ((declaredBy kind parts).map fun l => .name l.identifier) b := by
  rw [declaredBy, List.map_flatMap]
  refine declarators_drawn (fun part => ?_) line
  cases kind with
  | var => exact .inl rfl
  | «let» | const => exact .inr rfl

/-! ### The heads of loops -/

theorem varsInHead_drawn (init : Option ForInit)
    (line : InLine source a (init.toList.map ForInit.child) b) :
    Drawn a (init.toList.map ForInit.child) ((varsInHead init).map .name) b := by
  match init with
  | none => exact .none line
  | some (.expression value) => exact .none line
  | some (.declaration ⟨span, kind, parts⟩) =>
    obtain ⟨-, nested, -⟩ := line.uncons
    have inside : Drawn _ _ ((varsBy kind parts).map .name) _ := varsBy_drawn (.children nested)
    exact .only line inside.up

theorem lexicalInHead_drawn (init : Option ForInit)
    (line : InLine source a (init.toList.map ForInit.child) b) :
    Drawn a (init.toList.map ForInit.child)
      ((lexicalInHead init).map fun l => .name l.identifier) b := by
  match init with
  | none => exact .none line
  | some (.expression value) => exact .none line
  | some (.declaration ⟨span, kind, parts⟩) =>
    obtain ⟨-, nested, -⟩ := line.uncons
    have inside : Drawn _ _ ((declaredBy kind parts).map fun l => .name l.identifier) _ :=
      declaredBy_drawn (.children nested)
    exact .only line inside.up

theorem targetVars_drawn (left : ForTarget) (nested : left.child.Nested source) :
    Drawn left.child.span.start [left.child] (left.vars.map .name) left.child.span.stop := by
  match left with
  | .declaration .var id => exact .all (.of_nested nested)
  | .declaration .let id | .declaration .const id | .expression _ =>
    exact .none (.of_nested nested)

theorem targetLexical_drawn (left : ForTarget) (nested : left.child.Nested source) :
    Drawn left.child.span.start [left.child] (left.lexical.map fun l => .name l.identifier)
      left.child.span.stop := by
  match left with
  | .declaration .let id | .declaration .const id => exact .all (.of_nested nested)
  | .declaration .var id | .expression _ => exact .none (.of_nested nested)

/-! ### `var` names -/

mutual

theorem vars_drawn (s : Statement) (nested : (SyntaxNode.statement s).Nested source) :
    Drawn s.span.start [.statement s] (s.vars.map .name) s.span.stop := by
  have line := InLine.children nested
  apply Drawn.up (n := .statement s)
  match s with
  | .declaration ⟨span, kind, parts⟩ =>
    obtain ⟨-, inside, -⟩ := line.uncons
    exact (varsBy_drawn (.children inside)).up
  | .block body =>
    obtain ⟨-, inside, -⟩ := line.uncons
    exact blockVars_drawn body inside
  | .labelled _ _ body | .whileLoop _ _ body =>
    obtain ⟨-, -, later⟩ := line.uncons
    obtain ⟨-, inside, -⟩ := later.uncons
    exact .skip line (.only later (vars_drawn body inside))
  | .doLoop _ body _ =>
    obtain ⟨-, inside, -⟩ := line.uncons
    exact .only line (vars_drawn body inside)
  | .branch _ _ consequent alternate =>
    obtain ⟨-, -, later⟩ := line.uncons
    obtain ⟨before, inside, last⟩ := later.uncons
    rw [Statement.vars, List.map_append]
    exact .skip line (.cons before (vars_drawn consequent inside) (optionVars_drawn alternate last))
  | .select _ _ clauses _ =>
    obtain ⟨-, -, later⟩ := line.uncons
    exact .skip line (casesVars_drawn clauses later)
  | .attempt _ body clause finalizer =>
    obtain ⟨before, inside, later⟩ := line.uncons
    obtain ⟨_, handler, last⟩ := later.split
    rw [Statement.vars, List.map_append, List.map_append]
    exact .cons before (blockVars_drawn body inside)
      ((handlerVars_drawn clause handler).append (finalizerVars_drawn finalizer last))
  | .forLoop _ init _ _ body _ =>
    obtain ⟨_, head, later⟩ := line.split
    obtain ⟨_, test, later⟩ := later.split
    obtain ⟨_, update, last⟩ := later.split
    obtain ⟨before, inside, -⟩ := last.uncons
    rw [Statement.vars, List.map_append]
    exact (varsInHead_drawn init head).append
      ((Drawn.none test).append ((Drawn.none update).append (.only last (vars_drawn body inside))))
  | .forInLoop _ left _ body _ =>
    obtain ⟨before, target, later⟩ := line.uncons
    obtain ⟨-, -, last⟩ := later.uncons
    obtain ⟨-, inside, -⟩ := last.uncons
    rw [Statement.vars, List.map_append]
    exact .cons before (targetVars_drawn left target)
      (.skip later (.only last (vars_drawn body inside)))
  | .expression .. | .empty _ | .debugger _ | .returns .. | .breaks .. | .continues ..
  | .throws .. | .function _ => exact .none line

theorem optionVars_drawn {a b : Nat} (alternate : Option Statement)
    (line : InLine source a (alternate.toList.map .statement) b) :
    Drawn a (alternate.toList.map .statement) ((varsInOption alternate).map .name) b := by
  match alternate with
  | none => exact .none line
  | some s =>
    obtain ⟨-, inside, -⟩ := line.uncons
    exact .only line (vars_drawn s inside)

theorem varsIn_drawn {a b : Nat} (statements : List Statement)
    (line : InLine source a (statements.map .statement) b) :
    Drawn a (statements.map .statement) ((varsIn statements).map .name) b := by
  match statements with
  | [] => exact .none line
  | s :: rest =>
    obtain ⟨before, inside, later⟩ := line.uncons
    rw [varsIn, List.map_append]
    exact .cons before (vars_drawn s inside) (varsIn_drawn rest later)

theorem blockVars_drawn (body : Block) (nested : (SyntaxNode.block body).Nested source) :
    Drawn body.span.start [.block body] (body.vars.map .name) body.span.stop := by
  match body with
  | ⟨span, statements, scope⟩ =>
    exact (varsIn_drawn statements (.children nested)).up (n := .block ⟨span, statements, scope⟩)

theorem handlerVars_drawn {a b : Nat} (clause : Option Handler)
    (line : InLine source a (clause.toList.map .handler) b) :
    Drawn a (clause.toList.map .handler) ((varsInHandler clause).map .name) b := by
  match clause with
  | none => exact .none line
  | some ⟨span, parameter, body⟩ =>
    obtain ⟨-, handler, -⟩ := line.uncons
    have inside := InLine.children handler
    obtain ⟨-, -, later⟩ := inside.uncons
    obtain ⟨-, block, -⟩ := later.uncons
    have drawn : Drawn span.start [.name parameter, .block body] (body.vars.map .name) span.stop :=
      .skip inside (.only later (blockVars_drawn body block))
    exact .only line (drawn.up (n := .handler ⟨span, parameter, body⟩))

theorem finalizerVars_drawn {a b : Nat} (finalizer : Option Block)
    (line : InLine source a (finalizer.toList.map .block) b) :
    Drawn a (finalizer.toList.map .block) ((varsInFinalizer finalizer).map .name) b := by
  match finalizer with
  | none => exact .none line
  | some body =>
    obtain ⟨-, inside, -⟩ := line.uncons
    exact .only line (blockVars_drawn body inside)

theorem casesVars_drawn {a b : Nat} (clauses : List Case)
    (line : InLine source a (clauses.map .switchCase) b) :
    Drawn a (clauses.map .switchCase) ((varsInCases clauses).map .name) b := by
  match clauses with
  | [] => exact .none line
  | ⟨span, test, body⟩ :: rest =>
    obtain ⟨before, clause, later⟩ := line.uncons
    obtain ⟨_, head, inside⟩ := (InLine.children clause).split
    have drawn := (Drawn.none head).append (varsIn_drawn body inside)
    rw [varsInCases, List.map_append]
    exact .cons before (drawn.up (n := .switchCase ⟨span, test, body⟩)) (casesVars_drawn rest later)

end

/-! ### `let` and `const` names -/

theorem lexical_drawn (s : Statement) (nested : (SyntaxNode.statement s).Nested source) :
    Drawn s.span.start [.statement s] (s.lexical.map fun l => .name l.identifier) s.span.stop := by
  match s with
  | .declaration ⟨span, kind, parts⟩ =>
    obtain ⟨-, inside, -⟩ := (InLine.children nested).uncons
    exact (declaredBy_drawn (.children inside)).up.up (n := .statement (.declaration ⟨span, kind, parts⟩))
  | .expression .. | .block _ | .empty _ | .debugger _ | .returns .. | .breaks .. | .continues ..
  | .throws .. | .labelled .. | .branch .. | .select .. | .attempt .. | .whileLoop .. | .doLoop ..
  | .forLoop .. | .forInLoop .. | .function _ => exact .none (.of_nested nested)

theorem lexicalIn_drawn {statements : List Statement}
    (line : InLine source a (statements.map .statement) b) :
    Drawn a (statements.map .statement)
      ((lexicalIn statements).map fun l => .name l.identifier) b := by
  rw [lexicalIn, List.map_flatMap]
  exact .flatMap (fun s _ nested => lexical_drawn s nested) line

/-! ### Functions -/

mutual

theorem declared_drawn (s : Statement) (nested : (SyntaxNode.statement s).Nested source) :
    Drawn s.span.start [.statement s] (s.declared.map .function) s.span.stop := by
  have line := InLine.children nested
  apply Drawn.up (n := .statement s)
  match s with
  | .function code => exact .all line
  | .labelled _ _ body | .whileLoop _ _ body =>
    obtain ⟨-, -, later⟩ := line.uncons
    obtain ⟨-, inside, -⟩ := later.uncons
    exact .skip line (.only later (declared_drawn body inside))
  | .doLoop _ body _ =>
    obtain ⟨-, inside, -⟩ := line.uncons
    exact .only line (declared_drawn body inside)
  | .branch _ _ consequent alternate =>
    obtain ⟨-, -, later⟩ := line.uncons
    obtain ⟨before, inside, last⟩ := later.uncons
    rw [Statement.declared, List.map_append]
    exact .skip line
      (.cons before (declared_drawn consequent inside) (declaredInOption_drawn alternate last))
  | .expression .. | .block _ | .empty _ | .debugger _ | .returns .. | .breaks .. | .continues ..
  | .throws .. | .select .. | .attempt .. | .forLoop .. | .forInLoop .. | .declaration _ =>
    exact .none line

theorem declaredInOption_drawn {a b : Nat} (alternate : Option Statement)
    (line : InLine source a (alternate.toList.map .statement) b) :
    Drawn a (alternate.toList.map .statement) ((declaredInOption alternate).map .function) b := by
  match alternate with
  | none => exact .none line
  | some s =>
    obtain ⟨-, inside, -⟩ := line.uncons
    exact .only line (declared_drawn s inside)

end

theorem declaredIn_drawn {statements : List Statement}
    (line : InLine source a (statements.map .statement) b) :
    Drawn a (statements.map .statement) ((declaredIn statements).map .function) b := by
  rw [declaredIn, List.map_flatMap]
  exact .flatMap (fun s _ nested => declared_drawn s nested) line

end

end

/-! ## Where all nodes stand -/

/-- What a scope records besides parameters, each kind in a list of its own. -/
def Scope.recordedInside (s : Scope) : List (List SyntaxNode) :=
  [s.vars.map .name, s.lexical.map fun l => .name l.identifier, s.functions.map .function]

/-- All that a scope records. -/
def Scope.recorded (s : Scope) : List (List SyntaxNode) :=
  s.parameters.map .name :: s.recordedInside

namespace SyntaxNode

/-- What is recorded for a node. All but the parameters of a function are declared in its body. -/
def recorded : SyntaxNode → List (List SyntaxNode)
  | script tree => tree.scope.recorded
  | function code => code.scope.recorded
  | functionBody code => code.scope.recordedInside
  | block body => body.scope.recorded
  | statement (.select _ _ _ scope) | statement (.forLoop _ _ _ _ _ scope)
  | statement (.forInLoop _ _ _ _ scope) => scope.recorded
  | _ => []

/-- The node is a stretch of the source between characters, and what is below it and what is recorded
for it lies inside, one behind the other; what is recorded is also below it. -/
structure WellPlaced (source : List Char) (n : SyntaxNode) : Prop where
  ordered : n.span.start ≤ n.span.stop
  within : n.span.stop ≤ byteLength source
  starts : Boundary source n.span.start
  stops : Boundary source n.span.stop
  inside : ∀ child ∈ n.children, child.span.Inside n.span
  apart : n.children.Pairwise fun first second => first.span.stop ≤ second.span.start
  recordedBelow : ∀ names ∈ n.recorded, ∀ name ∈ names, n.Contains name
  recordedInside : ∀ names ∈ n.recorded, ∀ name ∈ names, name.span.Inside n.span
  recordedApart : ∀ names ∈ n.recorded,
    names.Pairwise fun first second => first.span.stop ≤ second.span.start

/-! ### What is known of the scopes of a node -/

/-- All scopes in the node list what is declared in them. -/
def IsPlaced : SyntaxNode → Prop
  | script tree => Placed.Script tree
  | function code | functionBody code => Placed.function code
  | statement s => Placed.statement s
  | block body => Placed.block body
  | switchCase clause => Placed.cases [clause]
  | handler clause => Placed.handler (some clause)
  | declaration d => Placed.declarators d.declarators
  | declarator part => Placed.declarators [part]
  | expression e => Placed.expression e
  | property p => Placed.properties [p]
  | name _ => True

/-- What is said of a list part by part holds of each part. -/
theorem forall_of_cons {α : Type} {P : List α → Prop} {Q : α → Prop} {parts : List α}
    (cons : ∀ part rest, P (part :: rest) → Q part ∧ P rest) (all : P parts) :
    ∀ part ∈ parts, Q part := by
  induction parts with
  | nil => exact List.forall_mem_nil _
  | cons part rest ih =>
    obtain ⟨first, others⟩ := cons part rest all
    exact List.forall_mem_cons.2 ⟨first, ih others⟩

section

open List (forall_mem_cons forall_mem_singleton forall_mem_append forall_mem_map)

theorem isPlaced_expressions {es : List Expression} (placed : Placed.expressions es) :
    ∀ child ∈ es.map expression, child.IsPlaced :=
  forall_mem_map.2 (forall_of_cons (fun _ _ both => both) placed)

theorem isPlaced_statements {statements : List Statement} (placed : Placed.statements statements) :
    ∀ child ∈ statements.map statement, child.IsPlaced :=
  forall_mem_map.2 (forall_of_cons (fun _ _ both => both) placed)

theorem isPlaced_optional {part : Option Expression} (placed : Placed.optional part) :
    ∀ child ∈ part.toList.map expression, child.IsPlaced := by
  cases part with
  | none => exact List.forall_mem_nil _
  | some e => exact forall_mem_singleton.2 placed

theorem isPlaced_slots {elements : List (Option Expression)} (placed : Placed.slots elements) :
    ∀ child ∈ (elements.filterMap id).map expression, child.IsPlaced := by
  refine forall_mem_map.2 fun e mem => ?_
  obtain ⟨slot, isSlot, rfl⟩ := List.mem_filterMap.1 mem
  exact forall_of_cons (fun _ _ both => both) placed (some e) isSlot

theorem isPlaced_properties {nodes : List PropertyNode} (placed : Placed.properties nodes) :
    ∀ child ∈ nodes.map property, child.IsPlaced := by
  refine forall_mem_map.2 (forall_of_cons ?_ placed)
  rintro (_ | _ | _) rest ⟨first, others⟩
  all_goals exact ⟨⟨first, trivial⟩, others⟩

theorem isPlaced_cases {clauses : List Case} (placed : Placed.cases clauses) :
    ∀ child ∈ clauses.map switchCase, child.IsPlaced := by
  refine forall_mem_map.2 (forall_of_cons ?_ placed)
  rintro ⟨span, test, body⟩ rest ⟨first, second, others⟩
  exact ⟨⟨first, second, trivial⟩, others⟩

theorem isPlaced_declarators {parts : List Declarator} (placed : Placed.declarators parts) :
    ∀ child ∈ parts.map declarator, child.IsPlaced := by
  refine forall_mem_map.2 (forall_of_cons ?_ placed)
  rintro ⟨span, id, init⟩ rest ⟨first, others⟩
  exact ⟨⟨first, trivial⟩, others⟩

theorem isPlaced_names (ids : List Identifier) : ∀ child ∈ ids.map name, child.IsPlaced :=
  forall_mem_map.2 fun _ _ => trivial

theorem isPlaced_head {init : Option ForInit} (placed : Placed.forInit init) :
    ∀ child ∈ init.toList.map ForInit.child, child.IsPlaced := by
  cases init with
  | none => exact List.forall_mem_nil _
  | some head =>
    cases head with
    | expression => exact forall_mem_singleton.2 placed
    | declaration parts =>
      cases parts
      exact forall_mem_singleton.2 placed

theorem isPlaced_target {left : ForTarget} (placed : Placed.forTarget left) :
    left.child.IsPlaced := by
  cases left with
  | declaration => trivial
  | expression => exact placed

theorem isPlaced_inExpression {e : Expression} (placed : Placed.expression e) :
    ∀ child ∈ e.children, child.IsPlaced := by
  cases e with
  | literal | this => exact List.forall_mem_nil _
  | identifier id => exact isPlaced_names [id]
  | array _ elements => exact isPlaced_slots placed
  | object _ nodes => exact isPlaced_properties placed
  | function | unary | update => exact forall_mem_singleton.2 placed
  | binary | logical | assign | index =>
    exact forall_mem_cons.2 ⟨placed.1, forall_mem_singleton.2 placed.2⟩
  | conditional =>
    exact forall_mem_cons.2 ⟨placed.1, forall_mem_cons.2 ⟨placed.2.1, forall_mem_singleton.2 placed.2.2⟩⟩
  | member _ owner id => exact forall_mem_cons.2 ⟨placed, isPlaced_names [id]⟩
  | call | new => exact forall_mem_cons.2 ⟨placed.1, isPlaced_expressions placed.2⟩
  | sequence => exact isPlaced_expressions placed

theorem isPlaced_inStatement {s : Statement} (placed : Placed.statement s) :
    ∀ child ∈ s.children, child.IsPlaced := by
  cases s with
  | expression | throws | block | function => exact forall_mem_singleton.2 placed
  | empty | debugger => exact List.forall_mem_nil _
  | returns => exact isPlaced_optional placed
  | breaks _ label | continues _ label => exact isPlaced_names label.toList
  | labelled _ label body => exact forall_mem_cons.2 ⟨trivial, forall_mem_singleton.2 placed.1⟩
  | branch _ test consequent alternate =>
    obtain ⟨first, ⟨second, -⟩, last⟩ := placed
    refine forall_mem_cons.2 ⟨first, forall_mem_cons.2 ⟨second, ?_⟩⟩
    cases alternate with
    | none => exact List.forall_mem_nil _
    | some s => exact forall_mem_singleton.2 last.1
  | select => exact forall_mem_cons.2 ⟨placed.1, isPlaced_cases placed.2.2⟩
  | attempt _ body clause finalizer =>
    obtain ⟨first, second, last⟩ := placed
    refine forall_mem_cons.2 ⟨first, forall_mem_append.2 ⟨?_, ?_⟩⟩
    · cases clause with
      | none => exact List.forall_mem_nil _
      | some clause => exact forall_mem_singleton.2 second
    · cases finalizer with
      | none => exact List.forall_mem_nil _
      | some body => exact forall_mem_singleton.2 last
  | whileLoop => exact forall_mem_cons.2 ⟨placed.1, forall_mem_singleton.2 placed.2.1⟩
  | doLoop => exact forall_mem_cons.2 ⟨placed.2.1, forall_mem_singleton.2 placed.1⟩
  | forLoop =>
    obtain ⟨head, test, update, ⟨body, -⟩, -⟩ := placed
    exact forall_mem_append.2 ⟨isPlaced_head head, forall_mem_append.2 ⟨isPlaced_optional test,
      forall_mem_append.2 ⟨isPlaced_optional update, forall_mem_singleton.2 body⟩⟩⟩
  | forInLoop =>
    obtain ⟨target, right, ⟨body, -⟩, -⟩ := placed
    exact forall_mem_cons.2 ⟨isPlaced_target target,
      forall_mem_cons.2 ⟨right, forall_mem_singleton.2 body⟩⟩
  | declaration d =>
    obtain ⟨_, _, parts⟩ := d
    exact forall_mem_singleton.2 placed

theorem IsPlaced.children {n : SyntaxNode} (placed : n.IsPlaced) :
    ∀ child ∈ n.children, child.IsPlaced := by
  cases n with
  | script tree => exact isPlaced_statements placed.body
  | function code =>
    exact forall_mem_append.2 ⟨forall_mem_append.2 ⟨isPlaced_names _, isPlaced_names _⟩,
      forall_mem_singleton.2 placed⟩
  | functionBody code => exact isPlaced_statements ((Placed.function_iff code).1 placed).2
  | statement s => exact isPlaced_inStatement placed
  | block body => exact isPlaced_statements ((Placed.block_iff body).1 placed).2
  | switchCase clause =>
    obtain ⟨_, test, body⟩ := clause
    exact forall_mem_append.2 ⟨isPlaced_optional placed.1, isPlaced_statements placed.2.1⟩
  | handler clause =>
    obtain ⟨_, parameter, body⟩ := clause
    exact forall_mem_cons.2 ⟨trivial, forall_mem_singleton.2 placed⟩
  | declaration d => exact isPlaced_declarators placed
  | declarator part =>
    obtain ⟨_, id, init⟩ := part
    exact forall_mem_cons.2 ⟨trivial, isPlaced_optional placed.1⟩
  | expression e => exact isPlaced_inExpression placed
  | property p =>
    cases p with
    | data | getter | setter => exact forall_mem_singleton.2 placed.1
  | name id => exact List.forall_mem_nil _

theorem IsPlaced.of_contains {n inner : SyntaxNode} (placed : n.IsPlaced)
    (contains : n.Contains inner) : inner.IsPlaced := by
  induction contains with
  | self => exact placed
  | child _ mem ih => exact ih.children _ mem

end

/-! ### What is recorded stands in line -/

section

variable {source : List Char} {a b : Nat}

/-- What a scope records is drawn from some nodes if what it lists is. -/
theorem recordedInside_drawn {scope : Scope} {nodes : List SyntaxNode} {d : Declared}
    (listed : scope.listed = d) (vars : Drawn a nodes (d.vars.map .name) b)
    (lexical : Drawn a nodes (d.lexical.map fun l => .name l.identifier) b)
    (functions : Drawn a nodes (d.functions.map .function) b) :
    ∀ names ∈ scope.recordedInside, Drawn a nodes names b := by
  subst listed
  simp only [Scope.recordedInside, List.forall_mem_cons]
  exact ⟨vars, lexical, functions, List.forall_mem_nil _⟩

theorem recorded_drawn {scope : Scope} {nodes : List SyntaxNode} {d : Declared}
    (listed : scope.listed = d) (parameters : Drawn a nodes (d.parameters.map .name) b)
    (vars : Drawn a nodes (d.vars.map .name) b)
    (lexical : Drawn a nodes (d.lexical.map fun l => .name l.identifier) b)
    (functions : Drawn a nodes (d.functions.map .function) b) :
    ∀ names ∈ scope.recorded, Drawn a nodes names b := by
  have others := recordedInside_drawn listed vars lexical functions
  subst listed
  exact List.forall_mem_cons.2 ⟨parameters, others⟩

theorem declares_drawn {scope : Scope} {statements : List Statement}
    (listed : scope.listed = declares statements)
    (line : InLine source a (statements.map statement) b) :
    ∀ names ∈ scope.recorded, Drawn a (statements.map statement) names b :=
  recorded_drawn listed (.none line) (varsIn_drawn statements line) (lexicalIn_drawn line)
    (declaredIn_drawn line)

/-- The parameters of a function are drawn from beside its body, all else from the body. -/
theorem function_drawn {code : FunctionCode} (placed : Placed.function code)
    (line : InLine source a (function code).children b) :
    ∀ names ∈ code.scope.recorded, Drawn a (function code).children names b := by
  obtain ⟨listed, -⟩ := (Placed.function_iff code).1 placed
  obtain ⟨_, front, last⟩ := line.split
  obtain ⟨_, id, parameters⟩ := front.split
  obtain ⟨-, body, -⟩ := last.uncons
  have inside := InLine.children body
  have own := ((Drawn.none id).append (.all parameters)).append (.none last)
  rw [List.nil_append, List.append_nil] at own
  have fromBody {drawn : List SyntaxNode}
      (picked : Drawn code.bodySpan.start (code.body.map statement) drawn code.bodySpan.stop) :
      Drawn a (function code).children drawn b :=
    (Drawn.none front).append (.only last (picked.up (n := functionBody code)))
  exact recorded_drawn listed own (fromBody (varsIn_drawn code.body inside))
    (fromBody (lexicalIn_drawn inside)) (fromBody (declaredIn_drawn inside))

theorem functionBody_drawn {code : FunctionCode} (placed : Placed.function code)
    (line : InLine source a (code.body.map statement) b) :
    ∀ names ∈ code.scope.recordedInside, Drawn a (code.body.map statement) names b := by
  obtain ⟨listed, -⟩ := (Placed.function_iff code).1 placed
  exact recordedInside_drawn listed (varsIn_drawn code.body line) (lexicalIn_drawn line)
    (declaredIn_drawn line)

/-- What is drawn from the statements of each clause of a switch. -/
theorem clauses_drawn {clauses : List Case} {f : List Statement → List SyntaxNode}
    (line : InLine source a (clauses.map switchCase) b)
    (each : ∀ {a b : Nat} {statements : List Statement},
      InLine source a (statements.map statement) b →
        Drawn a (statements.map statement) (f statements) b) :
    Drawn a (clauses.map switchCase) (clauses.flatMap fun clause => f clause.consequent) b := by
  refine .flatMap (fun clause _ nested => ?_) line
  obtain ⟨_, head, body⟩ := (InLine.children nested).split
  exact ((Drawn.none head).append (each body)).up (n := switchCase clause)

theorem select_drawn {span : Span} {discriminant : Expression} {clauses : List Case} {scope : Scope}
    (listed : scope.listed = declaresInCases clauses)
    (line : InLine source a (statement (.select span discriminant clauses scope)).children b) :
    ∀ names ∈ scope.recorded,
      Drawn a (statement (.select span discriminant clauses scope)).children names b := by
  obtain ⟨-, -, cases⟩ := line.uncons
  have lexical := clauses_drawn cases lexicalIn_drawn
  have functions := clauses_drawn cases declaredIn_drawn
  rw [← List.map_flatMap] at lexical functions
  exact recorded_drawn listed (.none line) (.skip line (casesVars_drawn clauses cases))
    (.skip line lexical) (.skip line functions)

/-- The head and the body of a loop share its scope. -/
theorem forLoop_drawn {span : Span} {init : Option ForInit} {test update : Option Expression}
    {body : Statement} {scope : Scope}
    (listed : scope.listed = declaresInHead init ++ body.declares)
    (line : InLine source a (statement (.forLoop span init test update body scope)).children b) :
    ∀ names ∈ scope.recorded,
      Drawn a (statement (.forLoop span init test update body scope)).children names b := by
  obtain ⟨c, head, later⟩ := line.split
  obtain ⟨_, second, later⟩ := later.split
  obtain ⟨_, third, last⟩ := later.split
  obtain ⟨-, nested, -⟩ := last.uncons
  have both {front drawn : List SyntaxNode}
      (fromHead : Drawn a (init.toList.map ForInit.child) front c)
      (fromBody : Drawn body.span.start [statement body] drawn body.span.stop) :
      Drawn a (statement (.forLoop span init test update body scope)).children (front ++ drawn) b :=
    fromHead.append ((Drawn.none second).append ((Drawn.none third).append (.only last fromBody)))
  have vars := both (varsInHead_drawn init head) (vars_drawn body nested)
  have lexical := both (lexicalInHead_drawn init head) (lexical_drawn body nested)
  rw [← List.map_append] at vars lexical
  exact recorded_drawn listed (.none line) vars lexical (both (.none head) (declared_drawn body nested))

theorem forInLoop_drawn {span : Span} {left : ForTarget} {right : Expression} {body : Statement}
    {scope : Scope} (listed : scope.listed = left.declares ++ body.declares)
    (line : InLine source a (statement (.forInLoop span left right body scope)).children b) :
    ∀ names ∈ scope.recorded,
      Drawn a (statement (.forInLoop span left right body scope)).children names b := by
  obtain ⟨before, target, later⟩ := line.uncons
  obtain ⟨-, -, last⟩ := later.uncons
  obtain ⟨-, nested, -⟩ := last.uncons
  have both {front drawn : List SyntaxNode}
      (fromHead : Drawn left.child.span.start [left.child] front left.child.span.stop)
      (fromBody : Drawn body.span.start [statement body] drawn body.span.stop) :
      Drawn a (statement (.forInLoop span left right body scope)).children (front ++ drawn) b :=
    .cons before fromHead (.skip later (.only last fromBody))
  have vars := both (targetVars_drawn left target) (vars_drawn body nested)
  have lexical := both (targetLexical_drawn left target) (lexical_drawn body nested)
  rw [← List.map_append] at vars lexical
  exact recorded_drawn listed (.none line) vars lexical
    (both (.none (.of_nested target)) (declared_drawn body nested))

/-- What is recorded for a node stands below it, in line. -/
theorem recorded_inLine {n : SyntaxNode} (placed : n.IsPlaced) (nested : n.Nested source) :
    ∀ names ∈ n.recorded, Drawn n.span.start n.children names n.span.stop := by
  have line := InLine.children nested
  cases n with
  | script tree => exact declares_drawn placed.listed line
  | function code => exact function_drawn placed line
  | functionBody code => exact functionBody_drawn placed line
  | block body => exact declares_drawn ((Placed.block_iff body).1 placed).1 line
  | statement s =>
    cases s with
    | select => exact select_drawn placed.2.1 line
    | forLoop => exact forLoop_drawn placed.2.2.2.2 line
    | forInLoop => exact forInLoop_drawn placed.2.2.2 line
    | _ => exact List.forall_mem_nil _
  | _ => exact List.forall_mem_nil _

/-- What is recorded for a node is below it. -/
theorem contains_recorded {n : SyntaxNode} (placed : n.IsPlaced) (nested : n.Nested source) :
    ∀ names ∈ n.recorded, ∀ name ∈ names, n.Contains name := by
  intro names isRecorded name mem
  obtain ⟨child, isChild, contains⟩ := (recorded_inLine placed nested names isRecorded).inside name mem
  exact contains.of_mem isChild

end

theorem Nested.wellPlaced {source : List Char} {n : SyntaxNode} (nested : n.Nested source)
    (placed : n.IsPlaced) : n.WellPlaced source := by
  have cuts := nested.cuts
  have drawn := recorded_inLine placed nested
  have below := contains_recorded placed nested
  constructor
  · exact cuts.ordered
  · exact cuts.stop.le
  · exact cuts.start
  · exact cuts.stop
  · exact fun child mem => nested.inside (.child .self mem)
  · exact List.pairwise_map.1 nested.row.pairwise
  · exact below
  · exact fun names isRecorded name mem => nested.inside (below names isRecorded name mem)
  · exact fun names isRecorded => List.pairwise_map.1 (drawn names isRecorded).row.pairwise

end SyntaxNode

namespace Script

variable {source : List Char} {forceStrict : Bool} {script : ScriptTree}

theorem nested_of_tree (read : tree source forceStrict = .ok script) :
    (SyntaxNode.script script).Nested source := by
  obtain ⟨node, t, parsed, built⟩ := exists_built read
  exact buildScript_nested forceStrict (derived_of_concrete parsed) _ _ _ built

/-- Every node of a script that was read is well placed in its source. -/
theorem nodes_well_placed (read : tree source forceStrict = .ok script) {n : SyntaxNode}
    (contains : (SyntaxNode.script script).Contains n) : n.WellPlaced source := by
  have placed : (SyntaxNode.script script).IsPlaced := tree_placed read
  exact ((nested_of_tree read).of_contains contains).wellPlaced (placed.of_contains contains)

/-- An access that begins with an operand whose parentheses are left out, behind an accessor property
with a declaration in it. -/
theorem nodes_well_placed_operand :
    let source := "var o = \x7b get k() \x7b var v \x7d \x7d; (o)('\u00e9').x".toList
    ∃ script n, tree source false = .ok script ∧ (SyntaxNode.script script).Contains n ∧
      n.span = ⟨32, 42⟩ ∧ n.WellPlaced source := by
  extract_lets source
  obtain ⟨script, read, spans⟩ := exists_tree
    (f := fun script => (script.body.flatMap Statement.children).map SyntaxNode.span)
    (show (tree source false).toOption.map _ = some [⟨0, 30⟩, ⟨32, 42⟩] by decide +kernel)
  have some : (⟨32, 42⟩ : Span) ∈ (script.body.flatMap Statement.children).map SyntaxNode.span := by
    rw [spans]
    decide
  obtain ⟨n, mem, span⟩ := List.mem_map.1 some
  obtain ⟨s, isStatement, isChild⟩ := List.mem_flatMap.1 mem
  have contains : (SyntaxNode.script script).Contains n :=
    .child (.child .self (List.mem_map_of_mem isStatement)) isChild
  exact ⟨script, n, read, contains, span, nodes_well_placed read contains⟩

end Script

end ScriptEngine
