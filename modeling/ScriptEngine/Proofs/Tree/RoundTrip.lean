import ScriptEngine.Proofs.Grammar.OneLine
import ScriptEngine.Proofs.Tree.Connectives
import ScriptEngine.Proofs.Tree.Grouped
import ScriptEngine.Proofs.Tree.RenderedLists
import ScriptEngine.Proofs.Tree.SoleExpression

/-!
# Reading rendered expressions back

A rendered expression is read as the same expression, up to its spans. An operator with operands in
parentheses is read up to a closing parenthesis, and so is a property access behind an expression in
parentheses; so every kind of expression returns if its parts do (`returns`). A script that is
nothing but a rendered expression is then read as that expression, unless its brackets nest too deep
(`read_rendered`).
-/
namespace ScriptEngine.Script

/-! ## Operators and members -/

section

variable {source text rest more : List Char} {e : Expression} {r : Rule}

/-! ### Operators -/

/-- A prefix operator and its operand. -/
theorem yields_prefixed (operator : String)
    (sees : grammar.foresee false 200 (pattern .prefixOperator) (operator.toList ++ ['(']) =
      .leaves ['('] true)
    (argument : Grouped source e) (more : List Char) :
    grammar.Yields (pattern .unaryExpression)
      (operator.toList ++ parenthesized (render e) ++ ')' :: more) (')' :: more) fun nodes =>
        ∃ span node built, nodes = [.token .prefixOperator span operator, node] ∧
          buildExpression source node = pure built ∧ built.shape = e.shape := by
  have skips : grammar.Skips _ (_ ++ ((render e ++ [')']) ++ ')' :: more)) _ :=
    Grammar.skips_of_foresee _ _ sees
  rw [List.append_assoc] at skips
  have token := Grammar.Yields.token .prefixOperator (g := grammar) rfl skips
  have operand : Parses source .unaryExpression _ _ _ :=
    argument.operand [')'] (by decide) more
  have reads := (token.skip (skips_gap_of_foresee (by decide) _)).seq operand
  rw [List.append_assoc]
  refine reads.alt_left.mono ?_
  rintro _ ⟨_, _, ⟨span, rfl⟩, ⟨node, built, rfl, eq, shape⟩, rfl⟩
  exact ⟨span, node, built, by rw [String.ofList_toList]; rfl, eq, shape⟩

theorem returns_unary (span : Span) (operator : UnaryOperator) (argument : Grouped source e) :
    Returns source (.unary span operator e) := by
  intro more
  have reads := yields_prefixed (unaryText operator) (by cases operator <;> decide)
    argument more
  rw [render]
  refine Parses.close (r := .unaryExpression) ?_ (by decide)
  refine .of_children rfl (reads.mono ?_)
  rintro _ ⟨_, node, built, rfl, eq, shape⟩ span'
  refine ⟨.unary span' operator built, ?_, by rw [Expression.shape, Expression.shape, shape]⟩
  rw [buildExpression, eq]
  simp [Node.text, updateOperator?_unaryText, unaryOperator?_unaryText, require]

theorem returns_update (span : Span) (operator : UpdateOperator) (isPrefix : Bool)
    (argument : Grouped source e) : Returns source (.update span operator isPrefix e) := by
  intro more
  cases isPrefix with
  | true =>
    have reads := yields_prefixed (updateText operator) (by cases operator <;> decide)
      argument more
    rw [render, if_pos rfl]
    refine Parses.close (r := .unaryExpression) ?_ (by decide)
    refine .of_children rfl (reads.mono ?_)
    rintro _ ⟨_, node, built, rfl, eq, shape⟩ span'
    refine ⟨.update span' operator true built, ?_, by rw [Expression.shape, Expression.shape, shape]⟩
    rw [buildExpression, eq]
    simp [Node.text, updateOperator?_updateText]
  | false =>
    have operand : Parses source .lhsExpression _ _ _ :=
      argument.operand (updateText operator).toList (by cases operator <;> decide)
        (')' :: more)
    have blank : grammar.Skips inlineGap ((updateText operator).toList ++ ')' :: more)
        ((updateText operator).toList ++ ')' :: more) :=
      Grammar.skips_of_foresee _ _ (by cases operator <;> decide)
    have sees : grammar.foresee false 200 (pattern .postfixOperator)
        ((updateText operator).toList ++ [')']) = .leaves [')'] true := by
      cases operator <;> decide
    have skips : grammar.Skips _ (_ ++ more) _ := Grammar.skips_of_foresee _ _ sees
    rw [List.append_assoc] at skips
    have token := Grammar.Yields.token .postfixOperator (g := grammar) rfl skips
    have reads := operand.seq (Grammar.Skips.seq blank token).optional
    rw [render, if_neg (by decide), List.append_assoc]
    refine Parses.close_fresh (r := .postfixExpression) ?_ (refuses_prefixOperator_paren _) (by decide)
    refine .of_children rfl (reads.mono ?_)
    rintro _ ⟨_, _, ⟨node, built, rfl, eq, shape⟩, ⟨span, rfl⟩, rfl⟩ span'
    refine ⟨.update span' operator false built, ?_, by rw [Expression.shape, Expression.shape, shape]⟩
    rw [List.singleton_append, buildExpression, eq]
    simp [Node.text, updateOperator?_updateText, require]

/-- A binary or logical operator. -/
theorem parses_connective (op : Connective) {left right : Expression} (first : Grouped source left)
    (second : Grouped source right) (more : List Char) :
    Parses source .expression
      (parenthesized (render left) ++ (op.text.toList ++ parenthesized (render right)) ++ ')' :: more)
      (')' :: more) (op.join left.shape right.shape) := by
  have low : 10 - op.tightness < 10 := by
    have := op.tightness_pos
    omega
  have level : op.tightness = 10 - (10 - op.tightness) := by
    have := op.tightness_le
    omega
  have operand : Parses source (levelAt (10 - op.tightness)) _ _ _ :=
    first.operand (op.text.toList ++ ['(']) (by
      cases op with
      | binary operator => cases operator <;> decide
      | logical operator => cases operator <;> decide)
      ((render right ++ [')']) ++ ')' :: more)
  have operand' : Parses source (levelAt (10 - op.tightness)) _ _ _ :=
    second.operand [')'] (by
      cases op with
      | binary operator => cases operator <;> decide
      | logical operator => cases operator <;> decide) more
  have ends : grammar.Refuses (gap ++ separator (10 - op.tightness)) (')' :: more) := by
    have sees : ∀ d < 10, grammar.foresee false 200 (gap ++ separator d) [')'] = .fails := by decide
    exact Grammar.refuses_of_foresee [')'] (sees _ low)
  have before : grammar.Skips gap (op.text.toList ++ '(' :: ((render right ++ [')']) ++ ')' :: more))
      (op.text.toList ++ '(' :: ((render right ++ [')']) ++ ')' :: more)) := by
    have sees : grammar.foresee false 200 gap (op.text.toList ++ ['(']) =
        .leaves (op.text.toList ++ ['(']) true := by
      cases op with
      | binary operator => cases operator <;> decide
      | logical operator => cases operator <;> decide
    have skips : grammar.Skips _ (_ ++ ((render right ++ [')']) ++ ')' :: more)) _ :=
      Grammar.skips_of_foresee _ _ sees
    rwa [List.append_assoc] at skips
  have adds : Extends source (10 - op.tightness) left.shape _ (')' :: more) _ :=
    .link (by decide) low level before (skips_gap_of_foresee (by decide) _) operand'
      (by simp; omega) (.none ends)
  rw [List.append_assoc] at operand
  rw [List.append_assoc, List.append_assoc]
  refine (operand.extend low adds).close ?_
  cases op with
  | binary operator => cases operator <;> decide
  | logical operator => cases operator <;> decide

/-- The sign of an assignment is no operator to the levels below: of those that begin with a shift or a
comparison, what follows is no operand. -/
theorem foresee_assignment {operator : Option BinaryOperator}
    (assigning : operator.all assigns = true) :
    let known := (assignmentText operator).toList ++ ['(']
    passes true false known .primaryExpression 30 .conditional = true ∧
      grammar.foresee false 200 gap known = .leaves known true ∧
      grammar.foresee false 200 (pattern .assignmentOperator) known = .leaves ['('] true := by
  cases operator with
  | none => decide
  | some operator => cases operator <;> first | decide | cases assigning

theorem returns_assign (span : Span) {operator : Option BinaryOperator} {target value : Expression}
    (assigning : operator.all assigns = true) (first : Grouped source target)
    (second : Grouped source value) : Returns source (.assign span operator target value) := by
  intro more
  obtain ⟨passed, nothing, sign⟩ := foresee_assignment assigning
  have operand : Parses source .conditional _ _ _ :=
    first.operand _ passed ((render value ++ [')']) ++ ')' :: more)
  have blank : grammar.Skips _ (_ ++ ((render value ++ [')']) ++ ')' :: more)) _ :=
    Grammar.skips_of_foresee _ _ nothing
  have skips : grammar.Skips _ (_ ++ ((render value ++ [')']) ++ ')' :: more)) _ :=
    Grammar.skips_of_foresee _ _ sign
  rw [List.append_assoc] at skips blank operand
  have token := Grammar.Yields.token .assignmentOperator (g := grammar) rfl skips
  have operand' : Parses source .assignment _ _ _ :=
    second.operand [')'] (by decide) more
  have behind := ((Grammar.Skips.seq blank token).skip (skips_gap_of_foresee (by decide) _)).seq operand'
  have reads := operand.seq behind.optional
  rw [render, List.append_assoc, List.append_assoc]
  refine Parses.close (r := .assignment) ?_ (by decide)
  refine .of_children rfl (reads.mono ?_)
  rintro _ ⟨_, _, ⟨node, built, rfl, eq, shape⟩,
    ⟨_, _, ⟨span, rfl⟩, ⟨node', built', rfl, eq', shape'⟩, rfl⟩, rfl⟩ span'
  refine ⟨.assign span' operator built built', ?_,
    by rw [Expression.shape, Expression.shape, shape, shape']⟩
  rw [List.singleton_append, List.singleton_append, buildExpression, eq, eq']
  simp [Node.text, assignmentOperator?_assignmentText assigning, require]

theorem returns_conditional (span : Span) {test consequent alternate : Expression}
    (first : Grouped source test) (second : Grouped source consequent)
    (third : Grouped source alternate) :
    Returns source (.conditional span test consequent alternate) := by
  intro more
  have third' : Parses source .assignment _ _ _ := third.operand [')'] (by decide) more
  have second' : Parses source .assignment _ _ _ :=
    second.operand [':'] (by decide) (parenthesized (render alternate) ++ ')' :: more)
  have first' : Parses source .logicalOr _ _ _ :=
    first.operand ['?'] (by decide)
      (parenthesized (render consequent) ++ (':' :: (parenthesized (render alternate) ++ ')' :: more)))
  have question := ((skips_gap_of_foresee (c := '?') (by decide) _).skip
    (Grammar.skips_text ['?'] _)).skip (skips_gap_of_foresee (c := '(') (by decide)
      ((render consequent ++ [')']) ++ ':' :: (parenthesized (render alternate) ++ ')' :: more)))
  have colon := (((Grammar.Skips.seq question second').skip
    (skips_gap_of_foresee (c := ':') (by decide) _)).skip (Grammar.skips_text [':'] _)).skip
      (skips_gap_of_foresee (c := '(') (by decide) ((render alternate ++ [')']) ++ ')' :: more))
  have reads := first'.seq (colon.seq third').optional
  rw [render, List.append_assoc, List.cons_append, List.append_assoc, List.cons_append]
  refine Parses.close (r := .conditional) ?_ (by decide)
  refine .of_children rfl (reads.mono ?_)
  rintro _ ⟨_, _, ⟨node, built, rfl, eq, shape⟩,
    ⟨_, _, ⟨node', built', rfl, eq', shape'⟩, ⟨node'', built'', rfl, eq'', shape''⟩, rfl⟩, rfl⟩ span'
  refine ⟨.conditional span' built built' built'', ?_,
    by rw [Expression.shape, Expression.shape, shape, shape', shape'']⟩
  rw [List.singleton_append, List.singleton_append, buildExpression, eq, eq', eq'']
  rfl

/-! ### Members and calls -/

/-- A property access behind an expression in parentheses. -/
theorem parses_member {owner : Expression} (first : Grouped source owner)
    (begins : grammar.Skips gap text text) (shorter : (')' :: more).length < text.length)
    (tail : grammar.Yields (.rule .memberDot ||| .rule .memberIndex) text (')' :: more) fun nodes =>
      ∀ built, built.shape = owner.shape → ∃ whole,
        buildTails source built nodes = pure whole ∧ whole.shape = e) :
    Parses source .expression (parenthesized (render owner) ++ text) (')' :: more) e := by
  have ends : grammar.Refuses (gap ++ (.rule .memberDot ||| .rule .memberIndex)) (')' :: more) :=
    Grammar.refuses_of_foresee [')'] (by decide)
  have tails := (Grammar.Skips.seq begins tail).many shorter ends.many
  have head : grammar.Yields (.rule .primaryExpression ||| .rule .newWithArguments)
      (parenthesized (render owner) ++ text) text _ := (first text).alt_left
  have reads := head.seq tails
  refine Parses.close_fresh (r := .memberExpression) ?_ (refuses_prefixOperator_paren _) (by decide)
  refine .of_children rfl (reads.mono ?_)
  rintro _ ⟨_, _, ⟨node, built, rfl, eq, shape⟩, ⟨nodes, _, known, rfl, rfl⟩, rfl⟩ span
  obtain ⟨whole, eq', shape'⟩ := known built shape
  refine ⟨whole, ?_, shape'⟩
  rw [List.singleton_append, List.append_nil, buildExpression, eq]
  exact eq'

theorem returns_member (span : Span) {owner : Expression} {property : Identifier}
    (isName : isName property.name.toList = true) (first : Grouped source owner) :
    Returns source (.member span owner property) := by
  intro more
  have ends : EndsName (')' :: more) := EndsName.cons (by decide)
  have name := yields_identifierName isName ends
  have blank : grammar.Skips gap (property.name.toList ++ ')' :: more)
      (property.name.toList ++ ')' :: more) :=
    skips_of_nameStarts (by decide) isName
  have dot := Grammar.Yields.branch .memberDot (g := grammar) rfl
    (Grammar.Skips.seq ((Grammar.skips_text ['.'] _).skip blank) name)
  rw [render, List.append_assoc, List.cons_append]
  refine parses_member first (skips_gap_of_foresee (c := '.') (by decide) _)
    (by simp only [List.length_cons, List.length_append]; omega) (dot.alt_left.mono ?_)
  rintro _ ⟨span', _, ⟨span'', rfl⟩, rfl⟩ built shape
  refine ⟨.member (built.span.hull span') built ⟨property.name, span''⟩, ?_, ?_⟩
  · simp [buildTails, identifierOf, Node.text, Node.span]
  · rw [Expression.shape, Expression.shape, shape]
    rfl

theorem returns_index (span : Span) {owner property : Expression} (first : Grouped source owner)
    (second : Grouped source property) : Returns source (.index span owner property) := by
  intro more
  have inside : Parses source .expression _ _ _ :=
    second.operand [']'] (by decide) (')' :: more)
  have opened := (Grammar.skips_text (g := grammar) ['['] _).skip (skips_gap_of_foresee (c := '(')
    (by decide) ((render property ++ [')']) ++ ']' :: ')' :: more))
  have closed := ((Grammar.Skips.seq opened inside).skip
    (skips_gap_of_foresee (c := ']') (by decide) _)).skip (Grammar.skips_text [']'] (')' :: more))
  have index := Grammar.Yields.branch .memberIndex (g := grammar) rfl closed
  have noDot : grammar.Refuses (.rule .memberDot)
      ('[' :: (parenthesized (render property) ++ ']' :: ')' :: more)) :=
    Grammar.refuses_of_foresee ['['] (by decide)
  rw [render, List.append_assoc, List.cons_append, List.append_assoc]
  refine parses_member first (skips_gap_of_foresee (c := '[') (by decide) _)
    (by simp only [List.length_cons, List.length_append]; omega) ((index.alt_right noDot).mono ?_)
  rintro _ ⟨span', _, ⟨node, built', rfl, eq, shape'⟩, rfl⟩ built shape
  refine ⟨.index (built.span.hull span') built built', ?_,
    by rw [Expression.shape, Expression.shape, shape, shape']⟩
  simp [buildTails, eq]

end

/-! ## Whole expressions -/

section

variable {source text rest more : List Char} {e : Expression} {r : Rule}

/-! ### Literals and names -/

theorem parses_literal {value : Literal} (noPrefix : grammar.Refuses (.rule .prefixOperator) text)
    (noThis : grammar.Refuses (.rule .thisExpression) text)
    (reads : grammar.Yields (pattern .literal) text (')' :: more) fun nodes =>
      ∃ node, nodes = [node] ∧ literalValue node = pure value) :
    Parses source .expression text (')' :: more) (.literal .nowhere value) := by
  have literal := Grammar.Yields.branch .literal (g := grammar) rfl reads
  refine Parses.primary noPrefix
    ((literal.alt_right noThis).alt_left.alt_left.alt_left.alt_left.alt_left.mono ?_)
  rintro _ ⟨span, _, ⟨node, rfl, eq⟩, rfl⟩
  refine ⟨_, .literal span value, rfl, ?_, rfl⟩
  rw [buildExpression, eq]
  rfl

theorem returns_literal (span : Span) {value : Literal} (plain : Plain.literal value) :
    Returns source (.literal span value) := by
  intro more
  rw [render, Expression.shape]
  cases value with
  | null =>
    refine parses_literal
      (Grammar.refuses_of_foresee "null)".toList (by decide))
      (Grammar.refuses_of_foresee "null)".toList (by decide)) ?_
    have skips : grammar.Skips (pattern .nullLiteral) ("null".toList ++ ')' :: more) (')' :: more) :=
      Grammar.skips_of_foresee "null)".toList [')'] (by decide)
    refine (Grammar.Yields.token .nullLiteral (g := grammar) rfl
      skips).alt_left.alt_left.alt_left.mono ?_
    rintro _ ⟨span', rfl⟩
    exact ⟨_, rfl, rfl⟩
  | boolean value =>
    have known : renderLiteral (.boolean value) ++ ')' :: more =
        (if value then "true)" else "false)").toList ++ more := by cases value <;> rfl
    have skips : grammar.Skips (pattern .booleanLiteral) (renderLiteral (.boolean value) ++ ')' :: more)
        (')' :: more) := by
      rw [known]
      exact Grammar.skips_of_foresee _ [')'] (by cases value <;> decide)
    have token := Grammar.Yields.token .booleanLiteral (g := grammar) rfl skips
    rw [known] at token ⊢
    have noNull : grammar.Refuses (.rule .nullLiteral)
        ((if value then "true)" else "false)").toList ++ more) :=
      Grammar.refuses_of_foresee _ (by cases value <;> decide)
    refine parses_literal (Grammar.refuses_of_foresee _ (by cases value <;> decide))
      (Grammar.refuses_of_foresee _ (by cases value <;> decide))
      ((token.alt_right noNull).alt_left.alt_left.mono ?_)
    rintro _ ⟨span', rfl⟩
    exact ⟨_, rfl, by cases value <;> rfl⟩
  | string value =>
    have others : grammar.Refuses
        (.rule .nullLiteral ||| .rule .booleanLiteral ||| .rule .numericLiteral : Part)
        (quoted value ++ ')' :: more) :=
      Grammar.refuses_of_foresee ['"'] (by decide)
    refine parses_literal (Grammar.refuses_of_foresee ['"'] (by decide))
      (Grammar.refuses_of_foresee ['"'] (by decide))
      (((yields_quoted value (')' :: more)).alt_right others).mono ?_)
    rintro _ ⟨span, span', rfl⟩
    refine ⟨_, rfl, ?_⟩
    show (stringValue _ >>= _) = _
    rw [stringValue_escaped]
    rfl
  | integer value =>
    obtain ⟨c, rest, eq, mem⟩ := decimal_starts value
    have text : (Text.decimal value).toList ++ ')' :: more = [c] ++ (rest ++ ')' :: more) := by
      rw [eq]
      rfl
    have refuses (p : Part)
        (sees : (digitChars.all fun c => grammar.foresee false 200 p [c] = .fails) = true) :
        grammar.Refuses p ((Text.decimal value).toList ++ ')' :: more) := by
      rw [text]
      exact Grammar.refuses_of_foresee _ (List.all_iff_forall_prop.1 sees c mem)
    have words := refuses (.rule .nullLiteral ||| .rule .booleanLiteral) (by decide)
    refine parses_literal (refuses _ (by decide)) (refuses _ (by decide))
      (((yields_number value more).alt_right words).alt_left.mono ?_)
    rintro _ ⟨span', rfl⟩
    refine ⟨_, rfl, ?_⟩
    simp [literalValue, Node.rule, Node.text, ofNumeric?_decimal plain, require]
  | double value => exact plain.elim

theorem returns_this (span : Span) : Returns source (.this span) := by
  intro more
  have skips : grammar.Skips (pattern .thisExpression) ("this".toList ++ ')' :: more) (')' :: more) :=
    Grammar.skips_of_foresee "this)".toList [')'] (by decide)
  have token := Grammar.Yields.token .thisExpression (g := grammar) rfl skips
  refine Parses.primary
    (Grammar.refuses_of_foresee "this)".toList (by decide))
    (token.alt_left.alt_left.alt_left.alt_left.alt_left.alt_left.mono ?_)
  rintro _ ⟨span', rfl⟩
  exact ⟨_, .this span', rfl, by rw [buildExpression], rfl⟩

theorem returns_identifier {id : Identifier} (isIdentifier : isIdentifier id.name = true) :
    Returns source (.identifier id) := by
  intro more
  have ends : EndsName (')' :: more) := EndsName.cons (by decide)
  exact (parses_identifier isIdentifier ends).close_fresh
    (refuses_prefixOperator isIdentifier ends) (by decide)

/-! ### All expressions -/

mutual

/-- Every expression that can be rendered is read back. -/
theorem returns (source : List Char) : ∀ e : Expression, Plain.expression e → Returns source e
  | .literal span _, plain => returns_literal span plain
  | .identifier _, plain => returns_identifier plain
  | .this span, _ => returns_this span
  | .array span elements, plain => returns_array span (grouped_slots source elements plain)
  | .object span properties, plain =>
    returns_object span plain (grouped_properties source properties plain)
  | .function _, plain => plain.elim
  | .unary span operator argument, plain =>
    returns_unary span operator ((returns source argument plain).grouped plain)
  | .update span operator isPrefix argument, plain =>
    returns_update span operator isPrefix ((returns source argument plain).grouped plain)
  | .binary _ operator left right, ⟨plain, plain'⟩ =>
    parses_connective (.binary operator) ((returns source left plain).grouped plain)
      ((returns source right plain').grouped plain')
  | .logical _ operator left right, ⟨plain, plain'⟩ =>
    parses_connective (.logical operator) ((returns source left plain).grouped plain)
      ((returns source right plain').grouped plain')
  | .assign span _ target value, ⟨assigning, plain, plain'⟩ =>
    returns_assign span assigning ((returns source target plain).grouped plain)
      ((returns source value plain').grouped plain')
  | .conditional span test consequent alternate, ⟨plain, plain', plain''⟩ =>
    returns_conditional span ((returns source test plain).grouped plain)
      ((returns source consequent plain').grouped plain')
      ((returns source alternate plain'').grouped plain'')
  | .member span owner _, ⟨plain, isName⟩ =>
    returns_member span isName ((returns source owner plain).grouped plain)
  | .index span owner property, ⟨plain, plain'⟩ =>
    returns_index span ((returns source owner plain).grouped plain)
      ((returns source property plain').grouped plain')
  | .call span callee arguments, ⟨plain, plain'⟩ =>
    returns_call span ((returns source callee plain).grouped plain)
      (grouped_expressions source arguments plain')
  | .new span callee arguments, ⟨plain, plain'⟩ =>
    returns_new span ((returns source callee plain).grouped plain)
      (grouped_expressions source arguments plain')
  | .sequence span parts, ⟨several, plain⟩ =>
    returns_sequence span several (grouped_expressions source parts plain)

theorem grouped_expressions (source : List Char) :
    ∀ es : List Expression, Plain.expressions es → ∀ e ∈ es, Grouped source e
  | [], _ => List.forall_mem_nil _
  | e :: es, ⟨plain, plain'⟩ => List.forall_mem_cons.2
    ⟨(returns source e plain).grouped plain, grouped_expressions source es plain'⟩

theorem grouped_slots (source : List Char) :
    ∀ slots : List (Option Expression), Plain.slots slots →
      ∀ slot ∈ slots, ∀ e ∈ slot, Grouped source e
  | [], _ => List.forall_mem_nil _
  | none :: slots, plain => List.forall_mem_cons.2 ⟨nofun, grouped_slots source slots plain⟩
  | some e :: slots, ⟨plain, plain'⟩ => List.forall_mem_cons.2
    ⟨fun _ same => Option.some.inj same ▸ (returns source e plain).grouped plain,
      grouped_slots source slots plain'⟩

theorem grouped_properties (source : List Char) :
    ∀ properties : List PropertyNode, Plain.properties properties →
      ∀ property ∈ properties, GroupedProperty source property
  | [], _ => List.forall_mem_nil _
  | .data _ _ value :: properties, ⟨plain, plain'⟩ => List.forall_mem_cons.2
    ⟨(returns source value plain).grouped plain, grouped_properties source properties plain'⟩
  | .getter .. :: _, plain => plain.elim
  | .setter .. :: _, plain => plain.elim

end

/-! ### Renderings are on one line -/

theorem oneLine_of_isName {name : List Char} (isName : isName name = true) : OneLine name := by
  intro c mem
  have part : isNamePart c = true := isName_all isName c mem
  by_contra breaks
  rw [Bool.not_eq_false, isLineBreak] at breaks
  simp only [Bool.or_eq_true, beq_iff_eq] at breaks
  rcases breaks with ((rfl | rfl) | rfl) | rfl <;> cases part

theorem oneLine_quoted (value : String) : OneLine (quoted value) := by
  have char (c : Char) : OneLine (escapeChar c) := by
    unfold escapeChar
    split
    case h_7 feed return' line paragraph =>
      simpa [isLineBreak] using ⟨⟨⟨feed, return'⟩, line⟩, paragraph⟩
    all_goals decide
  have inside : OneLine (escaped value) := by
    intro c mem
    obtain ⟨d, _, mem⟩ := List.mem_flatMap.1 mem
    exact char d c mem
  exact oneLine_cons.2 ⟨by decide, oneLine_append.2 ⟨inside, by decide⟩⟩

theorem oneLine_literal {value : Literal} (plain : Plain.literal value) :
    OneLine (renderLiteral value) := by
  cases value with
  | null => decide
  | boolean value => cases value <;> decide
  | string value => exact oneLine_quoted value
  | integer value =>
    have all : ∀ c ∈ digitChars, isLineBreak c = false := List.all_iff_forall_prop.1 (by decide)
    rw [renderLiteral, Text.decimal, String.toList_ofList]
    exact fun c mem => all c (mem_digitChars
      (Nat.isDigit_of_mem_toDigits (by decide) (by decide) mem))
  | double value => exact plain.elim

theorem oneLine_parenthesized {chars : List Char} (free : OneLine chars) :
    OneLine (parenthesized chars) :=
  oneLine_cons.2 ⟨by decide, oneLine_append.2 ⟨free, by decide⟩⟩

theorem oneLine_commas {texts : List (List Char)} (each : ∀ text ∈ texts, OneLine text) :
    OneLine (commas texts) := by
  have eq : commas texts = commas (texts.map id) := by rw [List.map_id]
  rw [eq]
  cases texts with
  | nil => exact oneLine_nil
  | cons text texts =>
    rw [commas_cons]
    refine oneLine_append.2 ⟨each text List.mem_cons_self, fun c mem => ?_⟩
    obtain ⟨other, listed, mem⟩ := List.mem_flatMap.1 mem
    exact oneLine_cons.2 ⟨by decide, each other (List.mem_cons_of_mem _ listed)⟩ c mem

mutual

theorem oneLine_render : ∀ e : Expression, Plain.expression e → OneLine (render e)
  | .literal _ _, plain => oneLine_literal plain
  | .identifier _, plain => oneLine_of_isName (Bool.and_eq_true_iff.1 plain).1
  | .this _, _ => by rw [render]; decide
  | .array _ elements, plain => by
    have slots : ∀ text ∈ slotTexts elements ++ (if endsInHole elements then [[]] else []),
        OneLine text := by
      refine List.forall_mem_append.2 ⟨oneLine_slotTexts elements plain, ?_⟩
      split <;> simp
    rw [render]
    exact oneLine_cons.2 ⟨by decide, oneLine_append.2 ⟨oneLine_commas slots, by decide⟩⟩
  | .object _ properties, plain => by
    rw [render]
    exact oneLine_cons.2 ⟨by decide,
      oneLine_append.2 ⟨oneLine_commas (oneLine_propertyTexts properties plain), by decide⟩⟩
  | .function _, plain => plain.elim
  | .unary _ operator argument, plain => by
    have inside := oneLine_parenthesized (oneLine_render argument plain)
    rw [render]
    exact oneLine_append.2 ⟨by cases operator <;> decide, inside⟩
  | .update _ operator isPrefix argument, plain => by
    have inside := oneLine_parenthesized (oneLine_render argument plain)
    have sign : OneLine (updateText operator).toList := by cases operator <;> decide
    rw [render]
    split
    · exact oneLine_append.2 ⟨sign, inside⟩
    · exact oneLine_append.2 ⟨inside, sign⟩
  | .binary _ operator left right, ⟨plain, plain'⟩ => by
    have sign : OneLine (binaryText operator).toList := by cases operator <;> decide
    simp [render, sign, oneLine_parenthesized (oneLine_render left plain),
      oneLine_parenthesized (oneLine_render right plain')]
  | .logical _ operator left right, ⟨plain, plain'⟩ => by
    have sign : OneLine (logicalText operator).toList := by cases operator <;> decide
    simp [render, sign, oneLine_parenthesized (oneLine_render left plain),
      oneLine_parenthesized (oneLine_render right plain')]
  | .assign _ operator target value, ⟨_, plain, plain'⟩ => by
    have sign : OneLine (assignmentText operator).toList := by
      cases operator with
      | none => decide
      | some operator => cases operator <;> decide
    simp [render, sign, oneLine_parenthesized (oneLine_render target plain),
      oneLine_parenthesized (oneLine_render value plain')]
  | .conditional _ test consequent alternate, ⟨plain, plain', plain''⟩ => by
    simp [render, isLineBreak, oneLine_parenthesized (oneLine_render test plain),
      oneLine_parenthesized (oneLine_render consequent plain'),
      oneLine_parenthesized (oneLine_render alternate plain'')]
  | .member _ owner _, ⟨plain, isName⟩ => by
    simp [render, isLineBreak, oneLine_parenthesized (oneLine_render owner plain),
      oneLine_of_isName isName]
  | .index _ owner property, ⟨plain, plain'⟩ => by
    simp [render, isLineBreak, oneLine_parenthesized (oneLine_render owner plain),
      oneLine_parenthesized (oneLine_render property plain')]
  | .call _ callee arguments, ⟨plain, plain'⟩ => by
    simp [render, oneLine_parenthesized (oneLine_render callee plain),
      oneLine_parenthesized (oneLine_commas (oneLine_texts arguments plain'))]
  | .new _ callee arguments, ⟨plain, plain'⟩ => by
    simp [render, isLineBreak, oneLine_parenthesized (oneLine_render callee plain),
      oneLine_parenthesized (oneLine_commas (oneLine_texts arguments plain'))]
  | .sequence _ parts, ⟨_, plain⟩ => by
    rw [render]
    exact oneLine_commas (oneLine_texts parts plain)

theorem oneLine_texts :
    ∀ es : List Expression, Plain.expressions es → ∀ text ∈ texts es, OneLine text
  | [], _ => List.forall_mem_nil _
  | e :: es, ⟨plain, plain'⟩ => List.forall_mem_cons.2
    ⟨oneLine_parenthesized (oneLine_render e plain), oneLine_texts es plain'⟩

theorem oneLine_slotTexts : ∀ slots : List (Option Expression), Plain.slots slots →
    ∀ text ∈ slotTexts slots, OneLine text
  | [], _ => List.forall_mem_nil _
  | none :: slots, plain => List.forall_mem_cons.2 ⟨oneLine_nil, oneLine_slotTexts slots plain⟩
  | some e :: slots, ⟨plain, plain'⟩ => List.forall_mem_cons.2
    ⟨oneLine_parenthesized (oneLine_render e plain), oneLine_slotTexts slots plain'⟩

theorem oneLine_propertyTexts : ∀ properties : List PropertyNode, Plain.properties properties →
    ∀ text ∈ propertyTexts properties, OneLine text
  | [], _ => List.forall_mem_nil _
  | .data _ key value :: properties, ⟨plain, plain'⟩ => List.forall_mem_cons.2
    ⟨oneLine_append.2 ⟨oneLine_quoted key, oneLine_cons.2
      ⟨by decide, oneLine_parenthesized (oneLine_render value plain)⟩⟩,
      oneLine_propertyTexts properties plain'⟩
  | .getter .. :: _, plain => plain.elim
  | .setter .. :: _, plain => plain.elim

end

/-! ### Scripts -/

/-- A script that is nothing but a rendered expression, and whose brackets nest within the limit, is
read as that expression, up to its spans. -/
theorem read_rendered (plain : Plain.expression e)
    (shallow : deepest (lexemes (scriptText e)) ≤ Nesting.limit) (forceStrict : Bool) :
    ∃ tree span value, read (String.ofList (scriptText e)) forceStrict = .ok tree ∧
      tree.body = [.expression span value] ∧ value.shape = e.shape := by
  have text : (String.ofList (scriptText e)).toList = scriptText e := String.toList_ofList
  have free : OneLine (scriptText e) :=
    oneLine_append.2 ⟨oneLine_parenthesized (oneLine_render e plain), by decide⟩
  have begins : scriptText e = ['('] ++ (render e ++ [')', ';']) := by
    simp [scriptText, parenthesized]
  have grouped := (returns (scriptText e) e plain).grouped plain
  have parses : Parses (scriptText e) .expression (scriptText e) [';'] e.shape :=
    (grouped [';']).climb_whole true
      (fun _ => refuses_prefixOperator_paren _) (by decide)
  refine read_of_expression [';'] forceStrict ?_ ?_ ?_ ?_ (by rw [text]; exact parses) ?_
  · rw [text]
    exact fun node parsed => firstTooDeep?_eq_none_of_oneLine parsed free shallow
  · rw [text, begins]
    exact skips_gap_of_foresee (c := '(') (by decide) _
  · rw [text, begins]
    have sees : ∀ r ∈ otherItems, grammar.foresee false 200 (.rule r) ['('] = .fails :=
      List.all_iff_forall_prop.1 (by decide)
    exact fun r mem => Grammar.refuses_of_foresee _ (sees r mem)
  · rw [text, begins]
    exact Grammar.refuses_of_foresee _ (by decide)
  · exact Grammar.skips_of_foresee_whole (by decide)

/-- The expression `["\"", , ][i++] in new f({"x": 7})`, without spans. -/
def holesAndQuotes : Expression :=
  .binary .nowhere .isIn
    (.index .nowhere (.array .nowhere [some (.literal .nowhere (.string "\"")), none])
      (.update .nowhere .increment false (.identifier ⟨"i", .nowhere⟩)))
    (.new .nowhere (.identifier ⟨"f", .nowhere⟩)
      [.object .nowhere [.data .nowhere "x" (.literal .nowhere (.integer 7))]])

/-- An array that ends in a hole, a quote in a string, a postfix operator, `in` and `new` all come
back. -/
theorem read_rendered_holesAndQuotes :
    ∃ tree span value, read (String.ofList (scriptText holesAndQuotes)) false = .ok tree ∧
      tree.body = [.expression span value] ∧ value.shape = holesAndQuotes := by
  have plain : Plain.expression holesAndQuotes := by
    simp only [holesAndQuotes, Plain.expression, Plain.expressions, Plain.slots, Plain.properties,
      Plain.literal, and_true, true_and]
    decide
  obtain ⟨tree, span, value, read, body, shape⟩ := read_rendered plain (by decide +kernel) false
  exact ⟨tree, span, value, read, body, shape.trans rfl⟩

end

end ScriptEngine.Script
