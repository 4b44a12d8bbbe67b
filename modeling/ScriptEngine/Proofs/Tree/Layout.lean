import ScriptEngine.Proofs.Grammar.Rows
import ScriptEngine.Proofs.Tree.Nodes
import ScriptEngine.Proofs.Tree.StringLiterals

/-!
# How building lays out a tree

What is built from a node of the concrete tree lies inside it, however many levels of precedence and
parentheses have been left out in between. So what is built from the children of a node stands in a
line, as they do, and the stretch of the node is around it. Operators, calls and accesses that
follow an operand have no node of their own in the concrete tree; their stretches are hulls, and the
line of what has been built so far grows with each of them.

Main result: `buildScript_nested`, in a tree that was built every node is nested.
-/
namespace ScriptEngine

/-- What comes in an order in which everything is once, and begins with what is at one place there,
goes on behind this place. -/
theorem sublist_drop_of_cons {α : Type} {all rest : List α} {first : α} {n i : Nat}
    (once : all.Nodup) (place : all[i]? = some first)
    (order : (first :: rest).Sublist (all.drop n)) : n ≤ i ∧ rest.Sublist (all.drop (i + 1)) := by
  induction all generalizing n i with
  | nil => simp at place
  | cons head tail ih =>
    obtain ⟨apart, once⟩ := List.nodup_cons.1 once
    cases i with
    | zero =>
      obtain rfl : head = first := by simpa using place
      cases n with
      | zero => exact ⟨Nat.le_refl _, List.cons_sublist_cons.1 order⟩
      | succ n =>
        have mem : head ∈ tail.drop n := order.subset List.mem_cons_self
        exact absurd (List.mem_of_mem_drop mem) apart
    | succ i =>
      have place : tail[i]? = some first := by simpa using place
      cases n with
      | zero =>
        have other : head ≠ first := fun same => apart (same ▸ List.mem_of_getElem? place)
        have order : (first :: rest).Sublist tail := by
          cases order with
          | cons _ order => exact order
          | cons_cons _ order => exact absurd rfl other
        exact ⟨Nat.zero_le _, (ih (n := 0) once place order).2⟩
      | succ n =>
        obtain ⟨le, order⟩ := ih once place order
        exact ⟨Nat.succ_le_succ le, order⟩

theorem Build.Gives.weaken {α : Type} {x : Build α} {P Q : α → Prop} (made : x.Gives P)
    (weaker : ∀ a, P a → Q a) : x.Gives Q :=
  fun t t' a run => weaker a (made t t' a run)

namespace Script

open Build SyntaxNode

variable {source : List Char}

/-! ## Names -/

theorem name_inLine {node : Node Rule} (derived : grammar.Derived source node) :
    InLine source node.span.start [.name (identifierOf node)] node.span.stop :=
  .node (n := .name (identifierOf node)) derived.cuts (.nil derived.cuts.ordered)

theorem names_inLine {a b : Nat} {nodes : List (Node Rule)} (laid : grammar.Laid source a nodes b) :
    InLine source a ((nodes.map identifierOf).map .name) b := by
  induction nodes generalizing a with
  | nil => exact .nil laid
  | cons node rest ih =>
    obtain ⟨first, derived, later⟩ := laid
    exact ((name_inLine derived).startBefore first).cons (ih later)

/-- A label is the first of the names that are there. -/
theorem label_inLine {a b : Nat} {nodes : List (Node Rule)} (laid : grammar.Laid source a nodes b) :
    InLine source a ((labelOf nodes).toList.map .name) b := by
  cases nodes with
  | nil => exact .nil laid
  | cons node rest =>
    obtain ⟨first, derived, later⟩ := laid
    exact (name_inLine derived).widen first later.le

/-! ## Blocks and functions -/

theorem buildBlock_inLine {span : Span} {body : Build (List Statement)} (cuts : span.Cuts source)
    (inside : Gives body fun statements =>
      InLine source span.start (statements.map .statement) span.stop) :
    Gives (buildBlock span body) fun block =>
      InLine source span.start [.block block] span.stop :=
  inside.inScope.bind fun (statements, scope) line =>
    .pure (.node (n := .block ⟨span, statements, scope⟩) cuts line)

/-- The names of a function are in front of its body. -/
theorem buildCode_inLine {directive : Bool} {span bodySpan : Span} {id : Option Identifier}
    {parameters : List Identifier} {body : Build (List Statement)} (cuts : span.Cuts source)
    (bodyCuts : bodySpan.Cuts source)
    (names : InLine source span.start (id.toList.map .name ++ parameters.map .name) bodySpan.start)
    (room : bodySpan.stop ≤ span.stop)
    (inside : Gives body fun statements =>
      InLine source bodySpan.start (statements.map .statement) bodySpan.stop) :
    Gives (buildCode directive span id parameters bodySpan body) fun code =>
      InLine source span.start [.function code] span.stop := by
  have declared : Gives (do parameters.forM (Build.declare · .parameter); body) fun statements =>
      InLine source bodySpan.start (statements.map .statement) bodySpan.stop :=
    .after fun _ => inside
  refine declared.inScope.bind fun (statements, scope) line => .pure ?_
  let code : FunctionCode := ⟨span, id, parameters, bodySpan, statements, scope⟩
  have body : InLine source bodySpan.start [.functionBody code] bodySpan.stop :=
    .node (n := .functionBody code) bodyCuts line
  exact .node (n := .function code) cuts (names.append (body.stopAfter room))

/-! ## Expressions and statements -/

/-- A single child is in line where the children are. -/
theorem only_inLine {a b : Nat} {only : Node Rule} {x : Build Expression}
    (laid : grammar.Laid source a [only] b)
    (made : Gives x fun e => InLine source only.span.start [.expression e] only.span.stop) :
    Gives x fun e => InLine source a [.expression e] b := by
  obtain ⟨first, -, last⟩ := laid
  exact made.weaken fun _ line => line.widen first last

-- By recursion on the concrete tree, as the builders go: a node is given with what it was derived
-- from, and several nodes with how they are laid between two offsets.
mutual

theorem buildExpression_inLine (node : Node Rule) (derived : grammar.Derived source node) :
    Gives (buildExpression source node) fun e =>
      InLine source node.span.start [.expression e] node.span.stop := by
  have laid := derived.laid
  have cuts := derived.cuts
  unfold buildExpression
  split
  next span text =>
    have name := name_inLine derived
    exact .pure (name.wrap rfl rfl)
  next span text => exact .pure (.node (n := .expression (.this span)) cuts (.nil cuts.ordered))
  next span value =>
    exact .after fun value =>
      .pure (.node (n := .expression (.literal span value)) cuts (.nil cuts.ordered))
  next span children =>
    refine (buildExpressions_inLine children laid).bind fun parts line => ?_
    split
    · exact .fail _ _
    · -- A single part stands for itself, so it need not reach to the ends of the node.
      exact .pure line
    · exact .pure (.node (n := .expression (.sequence span _)) cuts line)
  next span only => exact only_inLine laid (buildExpression_inLine only laid.2.1)
  next span target operator value =>
    obtain ⟨first, target', rest⟩ := laid
    obtain ⟨second, value', last⟩ := rest.skip
    refine (buildExpression_inLine target target').bind fun target line => .after fun kind => ?_
    refine (buildExpression_inLine value value').bind fun value line' => .pure ?_
    exact .node (n := .expression (.assign span kind target value)) cuts
      ((line.widen first second).cons (line'.stopAfter last))
  next span only => exact only_inLine laid (buildExpression_inLine only laid.2.1)
  next span test consequent alternate =>
    obtain ⟨first, test', second, consequent', third, alternate', last⟩ := laid
    refine (buildExpression_inLine test test').bind fun test line => ?_
    refine (buildExpression_inLine consequent consequent').bind fun consequent line' => ?_
    refine (buildExpression_inLine alternate alternate').bind fun alternate line'' => .pure ?_
    exact .node (n := .expression (.conditional span test consequent alternate)) cuts
      ((line.widen first second).cons ((line'.stopAfter third).cons (line''.stopAfter last)))
  next span first rest =>
    obtain ⟨before, first', later⟩ := laid
    exact (buildExpression_inLine first first').bind fun left line =>
      buildLogical_inLine .or left rest (line.startBefore before) later
  next span first rest =>
    obtain ⟨before, first', later⟩ := laid
    exact (buildExpression_inLine first first').bind fun left line =>
      buildLogical_inLine .and left rest (line.startBefore before) later
  next level span first rest =>
    obtain ⟨before, first', later⟩ := laid
    exact (buildExpression_inLine first first').bind fun left line =>
      buildBinary_inLine left rest (line.startBefore before) later
  next span only => exact only_inLine laid (buildExpression_inLine only laid.2.1)
  next span operator argument =>
    obtain ⟨first, argument', last⟩ := laid.skip
    refine (buildExpression_inLine argument argument').bind fun argument line => ?_
    have inside := line.widen first last
    split
    next update _ =>
      exact .pure (.node (n := .expression (.update span update true argument)) cuts inside)
    · exact .after fun unary =>
        .pure (.node (n := .expression (.unary span unary argument)) cuts inside)
  next span only => exact only_inLine laid (buildExpression_inLine only laid.2.1)
  next span argument operator =>
    obtain ⟨first, argument', rest⟩ := laid
    refine (buildExpression_inLine argument argument').bind fun argument line => ?_
    exact .after fun update => .pure (.node (n := .expression (.update span update false argument))
      cuts (line.widen first rest.le))
  next span first tails =>
    obtain ⟨before, first', later⟩ := laid
    exact (buildExpression_inLine first first').bind fun object line =>
      buildTails_inLine object tails (line.startBefore before) later
  next span first tails =>
    obtain ⟨before, first', later⟩ := laid
    exact (buildExpression_inLine first first').bind fun object line =>
      buildTails_inLine object tails (line.startBefore before) later
  next span callee argumentsSpan arguments =>
    obtain ⟨first, callee', second, arguments', last⟩ := laid
    refine (buildExpression_inLine callee callee').bind fun callee line => ?_
    refine (buildExpressions_inLine arguments arguments'.laid).bind fun arguments line' => .pure ?_
    exact .node (n := .expression (.new span callee arguments)) cuts
      ((line.widen first second).cons (line'.stopAfter last))
  next span callee =>
    obtain ⟨first, callee', last⟩ := laid
    refine (buildExpression_inLine callee callee').bind fun callee line => .pure ?_
    exact .node (n := .expression (.new span callee [])) cuts (line.widen first last)
  next span only => exact only_inLine laid (buildExpression_inLine only laid.2.1)
  next span slots =>
    exact (buildSlots_inLine slots laid).bind fun elements line =>
      .pure (.node (n := .expression (.array span elements)) cuts line)
  next span properties =>
    exact (buildProperties_inLine properties laid).bind fun properties line =>
      .pure (.node (n := .expression (.object span properties)) cuts line)
  next span children =>
    obtain ⟨depth, start, stop, within, found, -⟩ := derived.branch
    have order := Grammar.rules_sublist_of_read (by decide) found
    refine (buildFunction_inLine span none [] children 0 cuts (.nil (Nat.le_refl _)) laid order
      (fun _ => rfl) fun _ => rfl).bind fun code line => .pure ?_
    exact line.wrap rfl rfl
  · exact .fail _ _
termination_by sizeOf node
decreasing_by
  all_goals
    subst_vars
    simp only [Node.branch.sizeOf_spec, List.cons.sizeOf_spec]
    omega

theorem buildExpressions_inLine {a b : Nat} (nodes : List (Node Rule))
    (laid : grammar.Laid source a nodes b) :
    Gives (buildExpressions source nodes) fun es => InLine source a (es.map .expression) b := by
  unfold buildExpressions
  split
  · exact .pure (.nil laid)
  next node rest =>
    obtain ⟨first, derived, later⟩ := laid
    refine (buildExpression_inLine node derived).bind fun e line => ?_
    refine (buildExpressions_inLine rest later).bind fun es others => .pure ?_
    exact (line.startBefore first).cons others
termination_by sizeOf nodes
decreasing_by
  all_goals
    subst_vars
    simp only [List.cons.sizeOf_spec]
    omega

/-- A slot without an element takes up room, but there is nothing in it. -/
theorem buildSlots_inLine {a b : Nat} (nodes : List (Node Rule))
    (laid : grammar.Laid source a nodes b) :
    Gives (buildSlots source nodes) fun elements =>
      InLine source a ((elements.filterMap id).map .expression) b := by
  unfold buildSlots
  split
  · exact .pure (.nil laid)
  · exact .pure (.nil laid.le)
  next span rest _ =>
    exact (buildSlots_inLine rest laid.skip).bind fun _ others => .pure others
  next span element rest =>
    obtain ⟨first, slot, later⟩ := laid
    obtain ⟨second, element', last⟩ := slot.laid
    refine (buildExpression_inLine element element').bind fun e line => ?_
    refine (buildSlots_inLine rest later).bind fun elements others => .pure ?_
    exact (line.widen (Nat.le_trans first second) last).cons others
  · exact .fail _ _
termination_by sizeOf nodes
decreasing_by
  all_goals
    subst_vars
    simp only [Node.branch.sizeOf_spec, List.cons.sizeOf_spec]
    omega

/-- What has been built of a chain of operators grows to the right. -/
theorem buildBinary_inLine {a b c : Nat} (left : Expression) (nodes : List (Node Rule))
    (line : InLine source a [.expression left] b) (laid : grammar.Laid source b nodes c) :
    Gives (buildBinary source left nodes) fun e => InLine source a [.expression e] c := by
  unfold buildBinary
  split
  · exact .pure (line.stopAfter laid)
  · exact .fail _ _
  next operator right rest =>
    obtain ⟨behind, right', later⟩ := laid.skip
    refine .after fun kind => ?_
    refine (buildExpression_inLine right right').bind fun right line' => ?_
    have grown : InLine source a [.expression (.binary (left.span.hull right.span) kind left right)] _ :=
      .operands rfl rfl line (line'.startBefore behind)
    exact buildBinary_inLine _ rest grown later
termination_by sizeOf nodes
decreasing_by
  all_goals
    subst_vars
    simp only [List.cons.sizeOf_spec]
    omega

theorem buildLogical_inLine {a b c : Nat} (operator : LogicalOperator) (left : Expression)
    (nodes : List (Node Rule)) (line : InLine source a [.expression left] b)
    (laid : grammar.Laid source b nodes c) :
    Gives (buildLogical source operator left nodes) fun e => InLine source a [.expression e] c := by
  unfold buildLogical
  split
  · exact .pure (line.stopAfter laid)
  next right rest =>
    obtain ⟨behind, right', later⟩ := laid
    refine (buildExpression_inLine right right').bind fun right line' => ?_
    have grown : InLine source a
        [.expression (.logical (left.span.hull right.span) operator left right)] _ :=
      .operands rfl rfl line (line'.startBefore behind)
    exact buildLogical_inLine operator _ rest grown later
termination_by sizeOf nodes
decreasing_by
  all_goals
    subst_vars
    simp only [List.cons.sizeOf_spec]
    omega

theorem buildTails_inLine {a b c : Nat} (object : Expression) (nodes : List (Node Rule))
    (line : InLine source a [.expression object] b) (laid : grammar.Laid source b nodes c) :
    Gives (buildTails source object nodes) fun e => InLine source a [.expression e] c := by
  unfold buildTails
  split
  · exact .pure (line.stopAfter laid)
  next span arguments rest =>
    obtain ⟨behind, arguments', later⟩ := laid
    refine (buildExpressions_inLine arguments arguments'.laid).bind fun arguments others => ?_
    have grown : InLine source a
        [.expression (.call (object.span.hull span) object arguments)] span.stop :=
      .hull rfl rfl line behind arguments'.cuts others
    exact buildTails_inLine _ rest grown later
  next span name rest =>
    obtain ⟨behind, dot, later⟩ := laid
    obtain ⟨first, name', last⟩ := dot.laid
    have grown : InLine source a
        [.expression (.member (object.span.hull span) object (identifierOf name))] span.stop :=
      .hull rfl rfl line behind dot.cuts ((name_inLine name').widen first last)
    exact buildTails_inLine _ rest grown later
  next span index rest =>
    obtain ⟨behind, brackets, later⟩ := laid
    have inside := brackets.laid
    refine (only_inLine inside (buildExpression_inLine index inside.2.1)).bind fun index line' => ?_
    have grown : InLine source a
        [.expression (.index (object.span.hull span) object index)] span.stop :=
      .hull rfl rfl line behind brackets.cuts line'
    exact buildTails_inLine _ rest grown later
  · exact .fail _ _
termination_by sizeOf nodes
decreasing_by
  all_goals
    subst_vars
    simp only [Node.branch.sizeOf_spec, List.cons.sizeOf_spec]
    omega

theorem buildProperties_inLine {a b : Nat} (nodes : List (Node Rule))
    (laid : grammar.Laid source a nodes b) :
    Gives (buildProperties source nodes) fun properties =>
      InLine source a (properties.map .property) b := by
  unfold buildProperties
  split
  · exact .pure (.nil laid)
  next span key value rest =>
    obtain ⟨first, property, later⟩ := laid
    have inside := property.laid.skip
    refine .after fun key => ?_
    refine (only_inLine inside (buildExpression_inLine value inside.2.1)).bind fun value line => ?_
    refine (buildProperties_inLine rest later).bind fun properties others => .pure ?_
    have here := InLine.node (n := .property (.data span key value)) property.cuts line
    exact (here.startBefore first).cons others
  next span key bodySpan body rest =>
    obtain ⟨first, property, later⟩ := laid
    obtain ⟨begins, body', ends⟩ := property.laid.skip
    refine .after fun key => ?_
    refine (buildCode_inLine property.cuts body'.cuts (.nil begins) ends
      (buildStatements_inLine body body'.laid)).bind fun code line => ?_
    refine (buildProperties_inLine rest later).bind fun properties others => .pure ?_
    have here := InLine.node (n := .property (.getter span key code)) property.cuts line
    exact (here.startBefore first).cons others
  next span key parameter bodySpan body rest =>
    obtain ⟨first, property, later⟩ := laid
    obtain ⟨before, parameter', begins, body', ends⟩ := property.laid.skip
    refine .after fun key => ?_
    have names : InLine source span.start
        ((none : Option Identifier).toList.map .name ++ [identifierOf parameter].map .name)
        bodySpan.start := (name_inLine parameter').widen before begins
    refine (buildCode_inLine property.cuts body'.cuts names ends
      (buildStatements_inLine body body'.laid)).bind fun code line => ?_
    refine (buildProperties_inLine rest later).bind fun properties others => .pure ?_
    have here := InLine.node (n := .property (.setter span key code)) property.cuts line
    exact (here.startBefore first).cons others
  · exact .fail _ _
termination_by sizeOf nodes
decreasing_by
  all_goals
    subst_vars
    simp only [Node.branch.sizeOf_spec, List.cons.sizeOf_spec]
    omega

/-- The parts of a function that are still to come are some from a place on in their order, so the
name and the parameters are not yet known while they may still come. -/
theorem buildFunction_inLine {a : Nat} (span : Span) (id : Option Identifier) (parameters : List Identifier)
    (nodes : List (Node Rule)) (n : Nat) (cuts : span.Cuts source)
    (names : InLine source span.start (id.toList.map .name ++ parameters.map .name) a)
    (laid : grammar.Laid source a nodes span.stop)
    (order : (nodes.map Node.rule).Sublist
      (List.drop n [.identifier, .formalParameters, .functionBody]))
    (noName : n = 0 → id = none) (noParameters : n ≤ 1 → parameters = []) :
    Gives (buildFunction source span id parameters nodes) fun code =>
      InLine source span.start [.function code] span.stop := by
  unfold buildFunction
  split
  next idSpan text rest =>
    -- A name comes first, so nothing has been read before it.
    obtain ⟨le, order⟩ := sublist_drop_of_cons (i := 0) (by decide) rfl order
    obtain ⟨first, name, later⟩ := laid
    obtain rfl := noName (by omega)
    obtain rfl := noParameters (by omega)
    have named := names.append ((name_inLine name).startBefore first)
    exact buildFunction_inLine span _ [] rest 1 cuts named later order nofun fun _ => rfl
  next parametersSpan parameterNodes rest =>
    -- Only a name can have been read before the parameters.
    obtain ⟨le, order⟩ := sublist_drop_of_cons (i := 1) (by decide) rfl order
    obtain ⟨first, list, later⟩ := laid
    obtain rfl := noParameters le
    have named := names.append ((names_inLine list.laid).startBefore first)
    -- The parameters follow the name, not the empty list that stood for them.
    rw [List.map_nil, List.append_nil] at named
    exact buildFunction_inLine span id _ rest 2 cuts named later order nofun (by omega)
  next bodySpan body rest =>
    obtain ⟨begins, body', later⟩ := laid
    exact buildCode_inLine cuts body'.cuts (names.stopAfter begins) later.le
      (buildStatements_inLine body body'.laid)
  · exact .fail _ _
  · exact .fail _ _
termination_by sizeOf nodes
decreasing_by
  all_goals
    subst_vars
    simp only [Node.branch.sizeOf_spec, List.cons.sizeOf_spec]
    omega

theorem buildStatement_inLine (node : Node Rule) (derived : grammar.Derived source node) :
    Gives (buildStatement source node) fun s =>
      InLine source node.span.start [.statement s] node.span.stop := by
  have laid := derived.laid
  have cuts := derived.cuts
  unfold buildStatement
  split
  next span children =>
    obtain ⟨depth, start, stop, within, found, -⟩ := derived.branch
    have order := Grammar.rules_sublist_of_read (by decide) found
    refine (buildFunction_inLine span none [] children 0 cuts (.nil (Nat.le_refl _)) laid order
      (fun _ => rfl) fun _ => rfl).bind fun code line => .after fun _ => .pure ?_
    exact line.wrap rfl rfl
  next span kind declarators =>
    refine .after fun kind => ?_
    refine (buildDeclarators_inLine kind declarators laid.skip).bind fun parts line => .pure ?_
    exact (InLine.node (n := .declaration ⟨span, kind, parts⟩) cuts line).wrap rfl rfl
  next span declarators =>
    refine (buildDeclarators_inLine .var declarators laid).bind fun parts line => .pure ?_
    exact (InLine.node (n := .declaration ⟨span, .var, parts⟩) cuts line).wrap rfl rfl
  next span body =>
    refine (buildBlock_inLine cuts (buildStatements_inLine body laid)).bind fun block line => ?_
    exact .pure (line.wrap rfl rfl)
  next span _ => exact .pure (.node (n := .statement (.empty span)) cuts (.nil cuts.ordered))
  next span _ => exact .pure (.node (n := .statement (.debugger span)) cuts (.nil cuts.ordered))
  next span value =>
    refine (only_inLine laid (buildExpression_inLine value laid.2.1)).bind fun value line => .pure ?_
    exact .node (n := .statement (.expression span value)) cuts line
  next span test consequent =>
    obtain ⟨first, test', second, consequent', last⟩ := laid
    refine (buildExpression_inLine test test').bind fun test line => ?_
    refine (buildStatement_inLine consequent consequent').bind fun consequent line' => .pure ?_
    exact .node (n := .statement (.branch span test consequent none)) cuts
      ((line.widen first second).cons (line'.stopAfter last))
  next span test consequent alternate =>
    obtain ⟨first, test', second, consequent', third, alternate', last⟩ := laid
    refine (buildExpression_inLine test test').bind fun test line => ?_
    refine (buildStatement_inLine consequent consequent').bind fun consequent line' => ?_
    refine (buildStatement_inLine alternate alternate').bind fun alternate line'' => .pure ?_
    exact .node (n := .statement (.branch span test consequent (some alternate))) cuts
      ((line.widen first second).cons ((line'.stopAfter third).cons (line''.stopAfter last)))
  next span test body =>
    obtain ⟨first, test', second, body', last⟩ := laid
    refine (buildExpression_inLine test test').bind fun test line => ?_
    refine (buildStatement_inLine body body').bind fun body line' => .pure ?_
    exact .node (n := .statement (.whileLoop span test body)) cuts
      ((line.widen first second).cons (line'.stopAfter last))
  next span body test =>
    obtain ⟨first, body', second, test', last⟩ := laid
    refine (buildStatement_inLine body body').bind fun body line => ?_
    refine (buildExpression_inLine test test').bind fun test line' => .pure ?_
    exact .node (n := .statement (.doLoop span body test)) cuts
      ((line.widen first second).cons (line'.stopAfter last))
  next span children =>
    obtain ⟨depth, start, stop, within, found, -⟩ := derived.branch
    have order := Grammar.rules_sublist_of_read (by decide) found
    exact (buildFor_inLine span none none none children 0 cuts (.nil (Nat.le_refl _)) laid order
      (fun _ => rfl) (fun _ => rfl) fun _ => rfl).inScope.bind
      fun (loop, scope) line => .pure (line scope)
  next span bindingSpan kind name right body =>
    obtain ⟨first, binding, second, right', third, body', last⟩ := laid
    obtain ⟨before, name', behind⟩ := binding.laid.skip
    refine .after fun kind => ?_
    -- The name is declared in the scope of the loop, whose head and body are built in it.
    have inside : Gives (do
        Build.declare (identifierOf name) (.declared kind)
        let right ← buildExpression source right
        let body ← buildStatement source body
        pure (right, body)) fun (right, body) =>
          InLine source bindingSpan.stop [.expression right, .statement body] span.stop := by
      refine .after fun _ => ?_
      refine (buildExpression_inLine right right').bind fun right line => ?_
      refine (buildStatement_inLine body body').bind fun body line' => .pure ?_
      exact (line.widen second third).cons (line'.stopAfter last)
    refine inside.inScope.bind fun ((right, body), scope) line => .pure ?_
    have head := (name_inLine name').widen (Nat.le_trans first before) behind
    exact .node
      (n := .statement (.forInLoop span (.declaration kind (identifierOf name)) right body scope))
      cuts (head.cons line)
  next span target right body _ =>
    obtain ⟨first, target', second, right', third, body', last⟩ := laid
    have inside : Gives (do
        let target ← buildExpression source target
        let right ← buildExpression source right
        let body ← buildStatement source body
        pure (target, right, body)) fun (target, right, body) =>
          InLine source span.start [.expression target, .expression right, .statement body]
            span.stop := by
      refine (buildExpression_inLine target target').bind fun target line => ?_
      refine (buildExpression_inLine right right').bind fun right line' => ?_
      refine (buildStatement_inLine body body').bind fun body line'' => .pure ?_
      exact (line.widen first second).cons ((line'.stopAfter third).cons (line''.stopAfter last))
    refine inside.inScope.bind fun ((target, right, body), scope) line => .pure ?_
    exact .node (n := .statement (.forInLoop span (.expression target) right body scope)) cuts line
  next span children =>
    have line := label_inLine laid
    exact .pure (.node (n := .statement (.continues span (labelOf children))) cuts line)
  next span children =>
    have line := label_inLine laid
    exact .pure (.node (n := .statement (.breaks span (labelOf children))) cuts line)
  next span => exact .pure (.node (n := .statement (.returns span none)) cuts (.nil cuts.ordered))
  next span argument =>
    refine (only_inLine laid (buildExpression_inLine argument laid.2.1)).bind
      fun argument line => .pure ?_
    exact .node (n := .statement (.returns span (some argument))) cuts line
  next span argument =>
    refine (only_inLine laid (buildExpression_inLine argument laid.2.1)).bind
      fun argument line => .pure ?_
    exact .node (n := .statement (.throws span argument)) cuts line
  next span discriminant clauses =>
    obtain ⟨first, discriminant', later⟩ := laid
    refine (buildExpression_inLine discriminant discriminant').bind fun discriminant line => ?_
    refine (buildClauses_inLine false clauses later).inScope.bind
      fun (cases, scope) others => .pure ?_
    exact .node (n := .statement (.select span discriminant cases scope)) cuts
      ((line.startBefore first).cons others)
  next span blockSpan body clauses =>
    obtain ⟨first, block, later⟩ := laid
    have order := (proper_of_derived derived).1.clauses rfl
    refine (buildBlock_inLine block.cuts (buildStatements_inLine body block.laid)).bind
      fun block line => ?_
    refine (buildHandlers_inLine none none clauses (.nil (Nat.le_refl _)) later order).bind ?_
    rintro ⟨handler, finalizer⟩ others
    dsimp only
    split
    · exact .fail _ _
    · exact .pure (.node (n := .statement (.attempt span block handler finalizer)) cuts
        ((line.startBefore first).cons others))
  next span label body =>
    obtain ⟨first, label', second, body', last⟩ := laid
    refine (buildStatement_inLine body body').bind fun body line => .pure ?_
    exact .node (n := .statement (.labelled span (identifierOf label) body)) cuts
      (((name_inLine label').widen first second).cons (line.stopAfter last))
  · exact .fail _ _
termination_by sizeOf node
decreasing_by
  all_goals
    subst_vars
    simp only [Node.branch.sizeOf_spec, List.cons.sizeOf_spec]
    omega

theorem buildStatements_inLine {a b : Nat} (nodes : List (Node Rule))
    (laid : grammar.Laid source a nodes b) :
    Gives (buildStatements source nodes) fun statements =>
      InLine source a (statements.map .statement) b := by
  unfold buildStatements
  split
  · exact .pure (.nil laid)
  next node rest =>
    obtain ⟨first, derived, later⟩ := laid
    refine (buildStatement_inLine node derived).bind fun s line => ?_
    refine (buildStatements_inLine rest later).bind fun statements others => .pure ?_
    exact (line.startBefore first).cons others
termination_by sizeOf nodes
decreasing_by
  all_goals
    subst_vars
    simp only [List.cons.sizeOf_spec]
    omega

theorem buildDeclarators_inLine {a b : Nat} (kind : DeclarationKind) (nodes : List (Node Rule))
    (laid : grammar.Laid source a nodes b) :
    Gives (buildDeclarators source kind nodes) fun parts =>
      InLine source a (parts.map .declarator) b := by
  unfold buildDeclarators
  split
  · exact .pure (.nil laid)
  next span name rest =>
    obtain ⟨first, part, later⟩ := laid
    obtain ⟨before, name', behind⟩ := part.laid
    refine .after fun _ => ?_
    refine (buildDeclarators_inLine kind rest later).bind fun parts others => .pure ?_
    have here := InLine.node (n := .declarator ⟨span, identifierOf name, none⟩) part.cuts
      ((name_inLine name').widen before behind)
    exact (here.startBefore first).cons others
  next span name init rest =>
    obtain ⟨first, part, later⟩ := laid
    obtain ⟨before, name', second, init', behind⟩ := part.laid
    refine .after fun _ => ?_
    refine (buildExpression_inLine init init').bind fun init line => ?_
    refine (buildDeclarators_inLine kind rest later).bind fun parts others => .pure ?_
    have here := InLine.node (n := .declarator ⟨span, identifierOf name, some init⟩) part.cuts
      (((name_inLine name').widen before second).cons (line.stopAfter behind))
    exact (here.startBefore first).cons others
  · exact .fail _ _
termination_by sizeOf nodes
decreasing_by
  all_goals
    subst_vars
    simp only [Node.branch.sizeOf_spec, List.cons.sizeOf_spec]
    omega

/-- The parts of a loop that are still to come are some from a place on in their order, so nothing
has been built of those that may still come. -/
theorem buildFor_inLine {a : Nat} (span : Span) (init : Option ForInit)
    (test update : Option Expression) (nodes : List (Node Rule)) (n : Nat)
    (cuts : span.Cuts source)
    (head : InLine source span.start (init.toList.map ForInit.child ++
      (test.toList.map .expression ++ update.toList.map .expression)) a)
    (laid : grammar.Laid source a nodes span.stop)
    (order : (nodes.map Node.rule).Sublist ((pattern .forStatement).rules.drop n))
    (noInit : n = 0 → init = none) (noTest : n ≤ 1 → test = none)
    (noUpdate : n ≤ 2 → update = none) :
    Gives (buildFor source span init test update nodes) fun loop =>
      ∀ scope, InLine source span.start [.statement (loop scope)] span.stop := by
  unfold buildFor
  split
  next headSpan declarationSpan kind declarators rest =>
    obtain ⟨le, order⟩ := sublist_drop_of_cons (i := 0) (by decide) rfl order
    obtain ⟨first, part, later⟩ := laid
    obtain ⟨before, declaration, behind⟩ := part.laid
    obtain rfl := noInit (by omega)
    obtain rfl := noTest (by omega)
    obtain rfl := noUpdate (by omega)
    refine .after fun kind => ?_
    refine (buildDeclarators_inLine kind declarators declaration.laid.skip).bind fun parts line => ?_
    have here := InLine.node (n := .declaration ⟨declarationSpan, kind, parts⟩) declaration.cuts line
    have grown := head.append (here.widen (Nat.le_trans first before) behind)
    exact buildFor_inLine span _ none none rest 1 cuts grown later order nofun (fun _ => rfl)
      fun _ => rfl
  next headSpan value rest _ =>
    obtain ⟨le, order⟩ := sublist_drop_of_cons (i := 0) (by decide) rfl order
    obtain ⟨first, part, later⟩ := laid
    have inside := part.laid
    obtain rfl := noInit (by omega)
    obtain rfl := noTest (by omega)
    obtain rfl := noUpdate (by omega)
    refine (only_inLine inside (buildExpression_inLine value inside.2.1)).bind fun value line => ?_
    have grown := head.append (line.startBefore first)
    exact buildFor_inLine span (some (.expression value)) none none rest 1 cuts grown later order
      nofun (fun _ => rfl) fun _ => rfl
  next partSpan value rest =>
    obtain ⟨le, order⟩ := sublist_drop_of_cons (i := 1) (by decide) rfl order
    obtain ⟨first, part, later⟩ := laid
    have inside := part.laid
    obtain rfl := noTest (by omega)
    obtain rfl := noUpdate (by omega)
    refine (only_inLine inside (buildExpression_inLine value inside.2.1)).bind fun value line => ?_
    have grown := head.append (line.startBefore first)
    rw [Option.toList_none, List.map_nil, List.append_nil, List.append_nil] at grown
    exact buildFor_inLine span init (some value) none rest 2 cuts grown later order nofun (by omega)
      fun _ => rfl
  next partSpan value rest =>
    obtain ⟨le, order⟩ := sublist_drop_of_cons (i := 2) (by decide) rfl order
    obtain ⟨first, part, later⟩ := laid
    have inside := part.laid
    obtain rfl := noUpdate (by omega)
    refine (only_inLine inside (buildExpression_inLine value inside.2.1)).bind fun value line => ?_
    have grown := head.append (line.startBefore first)
    rw [Option.toList_none, List.map_nil, List.append_nil, List.append_assoc] at grown
    exact buildFor_inLine span init test (some value) rest 3 cuts grown later order nofun (by omega)
      (by omega)
  next body _ _ _ _ =>
    obtain ⟨first, body', last⟩ := laid
    refine (buildStatement_inLine body body').bind fun body line => .pure fun scope => ?_
    have whole := head.append (line.widen first last)
    rw [List.append_assoc, List.append_assoc] at whole
    exact .node (n := .statement (.forLoop span init test update body scope)) cuts whole
  · exact .fail _ _
  · exact .fail _ _
termination_by sizeOf nodes
decreasing_by
  all_goals
    subst_vars
    simp only [Node.branch.sizeOf_spec, List.cons.sizeOf_spec]
    omega

theorem buildClauses_inLine {a b : Nat} (hasDefault : Bool) (nodes : List (Node Rule))
    (laid : grammar.Laid source a nodes b) :
    Gives (buildClauses source hasDefault nodes) fun cases =>
      InLine source a (cases.map .switchCase) b := by
  unfold buildClauses
  split
  · exact .pure (.nil laid)
  next span headSpan test body rest =>
    obtain ⟨first, clause, later⟩ := laid
    obtain ⟨before, head, inside⟩ := clause.laid
    obtain ⟨begins, test', ends⟩ := head.laid
    refine (buildExpression_inLine test test').bind fun test line => ?_
    refine (buildStatements_inLine body inside).bind fun body others => ?_
    refine (buildClauses_inLine hasDefault rest later).bind fun cases more => .pure ?_
    have here := InLine.node (n := .switchCase ⟨span, some test, body⟩) clause.cuts
      ((line.widen (Nat.le_trans before begins) ends).cons others)
    exact (here.startBefore first).cons more
  next span headSpan _ body rest =>
    obtain ⟨first, clause, later⟩ := laid
    split
    · exact .fail _ _
    · refine (buildStatements_inLine body clause.laid.skip).bind fun body line => ?_
      refine (buildClauses_inLine true rest later).bind fun cases more => .pure ?_
      have here := InLine.node (n := .switchCase ⟨span, none, body⟩) clause.cuts line
      exact (here.startBefore first).cons more
  · exact .fail _ _
termination_by sizeOf nodes
decreasing_by
  all_goals
    subst_vars
    simp only [Node.branch.sizeOf_spec, List.cons.sizeOf_spec]
    omega

/-- The clauses of a `try` behind those that have been built. -/
theorem buildHandlers_inLine {a b c : Nat} (handler : Option Handler) (finalizer : Option Block)
    (nodes : List (Node Rule))
    (line : InLine source a (handler.toList.map .handler ++ finalizer.toList.map .block) b)
    (laid : grammar.Laid source b nodes c)
    (order : (nodes.map Node.rule).Sublist (clausesAfter handler finalizer)) :
    Gives (buildHandlers source handler finalizer nodes) fun (handler, finalizer) =>
      InLine source a (handler.toList.map .handler ++ finalizer.toList.map .block) c := by
  unfold buildHandlers
  split
  · exact .pure (line.stopAfter laid)
  next span parameter blockSpan body rest =>
    obtain ⟨rfl, rfl, others⟩ := catch_first order
    obtain ⟨first, clause, later⟩ := laid
    obtain ⟨before, parameter', second, block, behind⟩ := clause.laid
    refine (buildBlock_inLine block.cuts (buildStatements_inLine body block.laid)).bind
      fun block line' => ?_
    have here := InLine.node (n := .handler ⟨span, identifierOf parameter, block⟩) clause.cuts
      (((name_inLine parameter').widen before second).cons (line'.stopAfter behind))
    have grown := line.append (here.startBefore first)
    exact buildHandlers_inLine (some ⟨span, identifierOf parameter, block⟩) none rest grown later
      others
  next span blockSpan body rest =>
    obtain ⟨rfl, others⟩ := finally_first order
    obtain ⟨first, clause, later⟩ := laid
    -- A `finally` clause has no node of its own, so its block takes its place.
    obtain ⟨before, block, behind⟩ := clause.laid
    refine (buildBlock_inLine block.cuts (buildStatements_inLine body block.laid)).bind
      fun block line' => ?_
    have grown := line.append (line'.widen (Nat.le_trans first before) behind)
    rw [Option.toList_none, List.map_nil, List.append_nil] at grown
    exact buildHandlers_inLine handler (some block) rest grown later others
  · exact .fail _ _
termination_by sizeOf nodes
decreasing_by
  all_goals
    subst_vars
    simp only [Node.branch.sizeOf_spec, List.cons.sizeOf_spec]
    omega

end

/-- In a tree that was built every node is nested. -/
theorem buildScript_nested (forceStrict : Bool) {node : Node Rule}
    (derived : grammar.Derived source node) :
    Gives (buildScript source forceStrict node) fun tree => (SyntaxNode.script tree).Nested source := by
  refine (buildStatements_inLine node.children derived.laid).inScope.bind
    fun (statements, scope) line => .pure ?_
  exact .node derived.cuts line.row line.nested

end Script

end ScriptEngine
