import ScriptEngine.Proofs.Grammar.Rows
import ScriptEngine.Tree.Basic

/-!
# The nodes of a tree

Everything in a tree that has a stretch of the source is a node of it: besides statements,
expressions and their parts also the names, and a function apart from its body. `children` lists what
is directly below a node in the order of the source, so the body of a `do` loop comes before its
test.

`Nested` says of a node that it and all nodes in it are stretches of the source, and that the
children of each stand one behind the other inside it. `InLine` says so of several nodes between two
offsets; from such lines the lines of the nodes around them are put together (`InLine.append`,
`InLine.node`).
-/
namespace ScriptEngine

inductive SyntaxNode where
  | script (tree : ScriptTree)
  | function (code : FunctionCode)
  /-- The inside of the braces of a function. -/
  | functionBody (code : FunctionCode)
  | statement (s : Statement)
  | block (body : Block)
  | switchCase (clause : Case)
  | handler (clause : Handler)
  | declaration (d : Declaration)
  | declarator (part : Declarator)
  | expression (e : Expression)
  | property (p : PropertyNode)
  | name (id : Identifier)

def PropertyNode.span : PropertyNode → Span
  | .data span _ _ | .getter span _ _ | .setter span _ _ => span

/-! ## Children -/

def PropertyNode.child : PropertyNode → SyntaxNode
  | .data _ _ value => .expression value
  | .getter _ _ code | .setter _ _ code => .function code

def ForInit.child : ForInit → SyntaxNode
  | .declaration d => .declaration d
  | .expression value => .expression value

def ForTarget.child : ForTarget → SyntaxNode
  | .declaration _ id => .name id
  | .expression place => .expression place

def Expression.children : Expression → List SyntaxNode
  | .literal .. | .this _ => []
  | .identifier id => [.name id]
  | .array _ elements => (elements.filterMap id).map .expression
  | .object _ nodes => nodes.map .property
  | .function code => [.function code]
  | .unary _ _ argument | .update _ _ _ argument => [.expression argument]
  | .binary _ _ left right | .logical _ _ left right | .assign _ _ left right
  | .index _ left right => [.expression left, .expression right]
  | .conditional _ test consequent alternate =>
    [.expression test, .expression consequent, .expression alternate]
  | .member _ owner property => [.expression owner, .name property]
  | .call _ callee arguments | .new _ callee arguments =>
    .expression callee :: arguments.map .expression
  | .sequence _ parts => parts.map .expression

def Statement.children : Statement → List SyntaxNode
  | .expression _ value | .throws _ value => [.expression value]
  | .block body => [.block body]
  | .empty _ | .debugger _ => []
  | .returns _ argument => argument.toList.map .expression
  | .breaks _ label | .continues _ label => label.toList.map .name
  | .labelled _ label body => [.name label, .statement body]
  | .branch _ test consequent alternate =>
    .expression test :: .statement consequent :: alternate.toList.map .statement
  | .select _ discriminant clauses _ => .expression discriminant :: clauses.map .switchCase
  | .attempt _ body clause finalizer =>
    .block body :: (clause.toList.map .handler ++ finalizer.toList.map .block)
  | .whileLoop _ test body => [.expression test, .statement body]
  | .doLoop _ body test => [.statement body, .expression test]
  | .forLoop _ init test update body _ =>
    init.toList.map ForInit.child ++ (test.toList.map .expression ++
      (update.toList.map .expression ++ [.statement body]))
  | .forInLoop _ left right body _ => [left.child, .expression right, .statement body]
  | .function code => [.function code]
  | .declaration d => [.declaration d]

namespace SyntaxNode

def span : SyntaxNode → Span
  | script tree => tree.span
  | function code => code.span
  | functionBody code => code.bodySpan
  | statement s => s.span
  | block body => body.span
  | switchCase part => part.span
  | handler part => part.span
  | declaration d => d.span
  | declarator part => part.span
  | expression e => e.span
  | property p => p.span
  | name id => id.span

/-- The nodes directly below a node, in the order of the source. -/
def children : SyntaxNode → List SyntaxNode
  | script tree => tree.body.map statement
  | function code => code.id.toList.map name ++ code.parameters.map name ++ [functionBody code]
  | functionBody code => code.body.map statement
  | statement s => s.children
  | block body => body.body.map statement
  | switchCase part => part.test.toList.map expression ++ part.consequent.map statement
  | handler part => [name part.parameter, block part.body]
  | declaration d => d.declarators.map declarator
  | declarator part => name part.id :: part.init.toList.map expression
  | expression e => e.children
  | property p => [p.child]
  | name _ => []

/-- The second node is the first one, or somewhere below it. -/
inductive Contains (whole : SyntaxNode) : SyntaxNode → Prop where
  | self : whole.Contains whole
  | child {outer inner : SyntaxNode} (contains : whole.Contains outer)
    (mem : inner ∈ outer.children) : whole.Contains inner

theorem Contains.trans {whole part inner : SyntaxNode} (outside : whole.Contains part)
    (inside : part.Contains inner) : whole.Contains inner := by
  induction inside with
  | self => exact outside
  | child _ mem ih => exact ih.child mem

theorem Contains.of_mem {whole part inner : SyntaxNode} (mem : part ∈ whole.children)
    (inside : part.Contains inner) : whole.Contains inner :=
  Contains.self.child mem |>.trans inside

/-! ## Nested nodes -/

/-- The node and all nodes in it are stretches of the source, and the children of each of them stand
one behind the other inside it. -/
inductive Nested (source : List Char) : SyntaxNode → Prop where
  | node {n : SyntaxNode} (cuts : n.span.Cuts source)
    (row : Row n.span.start (n.children.map span) n.span.stop)
    (inside : ∀ child ∈ n.children, Nested source child) : Nested source n

variable {source : List Char} {n inner : SyntaxNode}

namespace Nested

theorem cuts (nested : n.Nested source) : n.span.Cuts source := by
  cases nested with
  | node cuts row inside => exact cuts

theorem row (nested : n.Nested source) : Row n.span.start (n.children.map span) n.span.stop := by
  cases nested with
  | node cuts row inside => exact row

theorem child (nested : n.Nested source) (mem : inner ∈ n.children) : inner.Nested source := by
  cases nested with
  | node cuts row inside => exact inside inner mem

theorem of_contains (nested : n.Nested source) (contains : n.Contains inner) :
    inner.Nested source := by
  induction contains with
  | self => exact nested
  | child _ mem ih => exact ih.child mem

/-- Every node in a node lies inside its stretch. -/
theorem inside (nested : n.Nested source) (contains : n.Contains inner) :
    inner.span.Inside n.span := by
  induction contains with
  | self => exact ⟨Nat.le_refl _, Nat.le_refl _⟩
  | child contains mem ih =>
    obtain ⟨start, stop⟩ := (nested.of_contains contains).row.inside (List.mem_map_of_mem mem)
    exact ⟨Nat.le_trans ih.1 start, Nat.le_trans stop ih.2⟩

end Nested

/-- Nodes stand one behind the other between two offsets, and so do the nodes in each. -/
structure InLine (source : List Char) (a : Nat) (nodes : List SyntaxNode) (b : Nat) : Prop where
  row : Row a (nodes.map span) b
  nested : ∀ n ∈ nodes, n.Nested source

namespace InLine

variable {a b c a' b' : Nat} {nodes more : List SyntaxNode}

theorem nil (ordered : a ≤ b) : InLine source a [] b := ⟨ordered, List.forall_mem_nil _⟩

theorem widen (line : InLine source a nodes b) (before : a' ≤ a) (after : b ≤ b') :
    InLine source a' nodes b' :=
  ⟨line.row.widen before after, line.nested⟩

theorem startBefore (line : InLine source a nodes b) (before : a' ≤ a) :
    InLine source a' nodes b := line.widen before (Nat.le_refl _)

theorem stopAfter (line : InLine source a nodes b) (after : b ≤ b') : InLine source a nodes b' :=
  line.widen (Nat.le_refl _) after

theorem append (line : InLine source a nodes b) (later : InLine source b more c) :
    InLine source a (nodes ++ more) c := by
  constructor
  · rw [List.map_append]
    exact line.row.append later.row
  · exact List.forall_mem_append.2 ⟨line.nested, later.nested⟩

theorem cons (line : InLine source a [n] b) (later : InLine source b more c) :
    InLine source a (n :: more) c := line.append later

theorem uncons (line : InLine source a (n :: nodes) b) :
    a ≤ n.span.start ∧ n.Nested source ∧ InLine source n.span.stop nodes b := by
  obtain ⟨first, -, later⟩ := line.row
  obtain ⟨nested, others⟩ := List.forall_mem_cons.1 line.nested
  exact ⟨first, nested, later, others⟩

theorem split (line : InLine source a (nodes ++ more) b) :
    ∃ c, InLine source a nodes c ∧ InLine source c more b := by
  have row := line.row
  rw [List.map_append] at row
  obtain ⟨c, first, later⟩ := row.split
  obtain ⟨nested, others⟩ := List.forall_mem_append.1 line.nested
  exact ⟨c, ⟨first, nested⟩, later, others⟩

/-- A node around a line of children. -/
theorem node (cuts : n.span.Cuts source)
    (inside : InLine source n.span.start n.children n.span.stop) :
    InLine source n.span.start [n] n.span.stop := by
  constructor
  · exact ⟨Nat.le_refl _, cuts.ordered, Nat.le_refl _⟩
  · exact List.forall_mem_singleton.2 (.node cuts inside.row inside.nested)

theorem children (nested : n.Nested source) :
    InLine source n.span.start n.children n.span.stop :=
  ⟨nested.row, fun _ mem => nested.child mem⟩

theorem of_nested (nested : n.Nested source) : InLine source n.span.start [n] n.span.stop :=
  .node nested.cuts (.children nested)

/-- A node with a single child, which takes up all of its stretch. -/
theorem wrap (line : InLine source a [inner] b) (span : n.span = inner.span)
    (children : n.children = [inner]) : InLine source a [n] b := by
  obtain ⟨begins, ordered, ends⟩ := line.row
  have nested := line.nested inner (List.mem_singleton_self inner)
  have inside : InLine source n.span.start n.children n.span.stop := by
    rw [children, span]
    exact .of_nested nested
  have own : n.span.Cuts source := by
    rw [span]
    exact nested.cuts
  have covered := InLine.node own inside
  rw [span] at covered
  exact covered.widen begins ends

/-- A node that covers its first child and a stretch with the other ones. -/
theorem hull {first : SyntaxNode} {rest : List SyntaxNode} {second : Span}
    (covers : n.span = first.span.hull second) (children : n.children = first :: rest)
    (line : InLine source a [first] b) (behind : b ≤ second.start) (cuts : second.Cuts source)
    (others : InLine source second.start rest second.stop) : InLine source a [n] second.stop := by
  obtain ⟨begins, ordered, ends⟩ := line.row
  have nested := line.nested first (List.mem_singleton_self first)
  have known := nested.cuts
  have room : first.span.stop ≤ second.start := Nat.le_trans ends behind
  have whole : first.span.start ≤ second.stop := by
    have := cuts.ordered
    omega
  -- The second stretch comes later, so the hull is from where one starts to where the other stops.
  have eq : n.span = ⟨first.span.start, second.stop⟩ := by
    rw [covers, Span.hull, Nat.min_eq_left (Nat.le_trans ordered room),
      Nat.max_eq_right (Nat.le_trans room cuts.ordered)]
  have inside : InLine source n.span.start n.children n.span.stop := by
    rw [children, eq]
    exact (of_nested nested).cons (others.startBefore room)
  have own : n.span.Cuts source := by
    rw [eq]
    exact ⟨whole, known.start, cuts.stop⟩
  have covered := InLine.node own inside
  rw [eq] at covered
  exact covered.startBefore begins

/-- Two operands, the second of them behind the first, in a node that covers just them. -/
theorem operands {first second : SyntaxNode} (covers : n.span = first.span.hull second.span)
    (children : n.children = [first, second]) (line : InLine source a [first] b)
    (later : InLine source b [second] c) : InLine source a [n] c := by
  have nested := later.nested second (List.mem_singleton_self second)
  obtain ⟨begins, -, ends⟩ := later.row
  have covered : InLine source a [n] second.span.stop :=
    .hull covers children line begins nested.cuts (of_nested nested)
  exact covered.stopAfter ends

end InLine

end SyntaxNode

end ScriptEngine
