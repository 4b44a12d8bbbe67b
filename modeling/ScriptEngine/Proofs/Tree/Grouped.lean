import ScriptEngine.Proofs.Tree.RenderedLiterals

/-!
# Expressions in parentheses

Inside parentheses, what follows a rendered expression is always a closing parenthesis (`Returns`),
and an expression in parentheses is a primary one whatever follows it (`Grouped`). From there it
becomes an operand of any level, since what stands behind an operand in a rendering means nothing to
the tighter levels (`Grouped.operand`).
-/
namespace ScriptEngine.Script

/-- Rendered in parentheses, the expression is read up to the closing parenthesis. -/
def Returns (source : List Char) (e : Expression) : Prop :=
  ∀ more, Parses source .expression (render e ++ ')' :: more) (')' :: more) e.shape

/-- In parentheses the expression is a primary one, whatever follows. -/
def Grouped (source : List Char) (e : Expression) : Prop :=
  ∀ more, Parses source .primaryExpression (parenthesized (render e) ++ more) more e.shape

section

variable {source text rest more : List Char} {e : Expression} {r : Rule}

/-! ## Building blocks -/

/-- A node of a level with operators, from what its children build. -/
theorem Parses.of_children (branch : grammar.isToken r = false)
    (reads : grammar.Yields (pattern r) text rest fun children => ∀ span, ∃ built,
      buildExpression source (.branch r span children) = pure built ∧ built.shape = e) :
    Parses source r text rest e := by
  refine (Grammar.Yields.branch _ branch reads).mono ?_
  rintro _ ⟨span, children, known, rfl⟩
  obtain ⟨built, eq, shape⟩ := known span
  exact ⟨_, built, rfl, eq, shape⟩

theorem skips_gap_of_foresee {c : Char} (sees : grammar.foresee false 200 gap [c] = .leaves [c] true)
    (more : List Char) : grammar.Skips gap (c :: more) (c :: more) :=
  Grammar.skips_of_foresee [c] [c] sees

/-- No prefix operator begins with a parenthesis. -/
theorem refuses_prefixOperator_paren (more : List Char) :
    grammar.Refuses (.rule .prefixOperator) ('(' :: more) :=
  Grammar.refuses_of_foresee ['('] (by decide)

/-- In front of a closing parenthesis, an expression of any level is an expression, if the level of
prefix operators does not lie in between. -/
theorem Parses.close (parses : Parses source r text (')' :: more) e)
    (passed : passes false false [')'] r 30 .expression = true) :
    Parses source .expression text (')' :: more) e :=
  parses.climb false [')'] (fun never => absurd never Bool.false_ne_true) passed

/-- In front of a closing parenthesis, an expression of any level is an expression, if it does not
begin with a prefix operator. -/
theorem Parses.close_fresh (parses : Parses source r text (')' :: more) e)
    (first : grammar.Refuses (.rule .prefixOperator) text)
    (passed : passes true false [')'] r 30 .expression = true) :
    Parses source .expression text (')' :: more) e :=
  parses.climb true [')'] (fun _ => first) passed

/-- In front of a closing parenthesis, a primary expression is an expression. -/
theorem Parses.primary (first : grammar.Refuses (.rule .prefixOperator) text)
    (reads : grammar.Yields (pattern .primaryExpression) text (')' :: more) fun nodes =>
      ∃ node built, nodes = [node] ∧ buildExpression source node = pure built ∧ built.shape = e) :
    Parses source .expression text (')' :: more) e := by
  refine Parses.close_fresh (r := .primaryExpression) ?_ first (by decide)
  refine .of_children rfl (reads.mono ?_)
  rintro _ ⟨node, built, rfl, eq, shape⟩ span
  refine ⟨built, ?_, shape⟩
  rw [buildExpression, eq]

/-- An expression in parentheses is an operand of a level, if what follows means nothing to the levels
in between. -/
theorem Grouped.operand (known : List Char) (grouped : Grouped source e)
    (passed : passes true false known .primaryExpression 30 r = true) (more : List Char) :
    Parses source r (parenthesized (render e) ++ (known ++ more)) (known ++ more) e.shape :=
  (grouped (known ++ more)).climb true known (fun _ => refuses_prefixOperator_paren _) passed

/-! ## The first character -/

/-- The characters that renderings begin with. -/
def starters : List Char :=
  nameStarts ++ digitChars ++ ['"', '(', '[', '\x7b', '-', '+', '!', '~']

theorem render_starts (plain : Plain.expression e) :
    ∃ c rest, render e = c :: rest ∧ c ∈ starters := by
  have paren (e : Expression) (text : List Char) :
      ∃ c rest, parenthesized (render e) ++ text = c :: rest ∧ c ∈ starters :=
    ⟨'(', _, rfl, by decide⟩
  cases e with
  | literal span value =>
    cases value with
    | null => exact ⟨'n', _, rfl, by decide⟩
    | boolean value => cases value <;> exact ⟨_, _, rfl, by decide⟩
    | string value => exact ⟨'"', _, rfl, by decide⟩
    | integer value =>
      obtain ⟨c, rest, eq, mem⟩ := decimal_starts value
      exact ⟨c, rest, eq, List.mem_append_left _ (List.mem_append_right _ mem)⟩
    | double value => exact plain.elim
  | identifier id =>
    have isName := (Bool.and_eq_true_iff.1 plain).1
    rw [render]
    cases eq : id.name.toList with
    | nil =>
      rw [eq] at isName
      cases isName
    | cons c rest =>
      rw [eq] at isName
      have start := mem_nameStarts (Bool.and_eq_true_iff.1 isName).1
      exact ⟨c, rest, rfl, List.mem_append_left _ (List.mem_append_left _ start)⟩
  | this span => exact ⟨'t', _, rfl, by decide⟩
  | array span elements => exact ⟨'[', _, rfl, by decide⟩
  | object span properties => exact ⟨'\x7b', _, rfl, by decide⟩
  | function code => exact plain.elim
  | unary span operator argument => cases operator <;> exact ⟨_, _, rfl, by decide⟩
  | update span operator isPrefix argument =>
    cases isPrefix with
    | false => exact paren argument _
    | true => cases operator <;> exact ⟨_, _, rfl, by decide⟩
  | binary span operator left right => exact paren left _
  | logical span operator left right => exact paren left _
  | assign span operator target value => exact paren target _
  | conditional span test consequent alternate => exact paren test _
  | member span owner property => exact paren owner _
  | index span owner property => exact paren owner _
  | call span callee arguments => exact paren callee _
  | new span callee arguments => exact ⟨'n', _, rfl, by decide⟩
  | sequence span parts =>
    obtain ⟨several, _⟩ := plain
    cases parts with
    | nil => simp at several
    | cons first rest =>
      cases rest with
      | nil => simp at several
      | cons second rest => exact ⟨'(', _, rfl, by decide⟩

theorem skips_gap_render (plain : Plain.expression e) (more : List Char) :
    grammar.Skips gap (render e ++ more) (render e ++ more) := by
  obtain ⟨c, rest, eq, mem⟩ := render_starts plain
  have all : ∀ c ∈ starters, grammar.foresee false 200 gap [c] = .leaves [c] true :=
    List.all_iff_forall_prop.1 (by decide)
  rw [eq]
  exact skips_gap_of_foresee (all c mem) (rest ++ more)

/-! ## Parentheses -/

/-- What is read up to a closing parenthesis is a primary expression in parentheses. -/
theorem Returns.grouped (plain : Plain.expression e) (returns : Returns source e) :
    Grouped source e := by
  intro more
  have inside : grammar.Yields (inParentheses expression) (parenthesized (render e) ++ more) more
      fun nodes => ∃ node built, nodes = [node] ∧ buildExpression source node = pure built ∧
        built.shape = e.shape := by
    have opened := Grammar.Skips.seq (Grammar.skips_text ['('] _)
      (skips_gap_render plain (')' :: more))
    have closing := skips_gap_of_foresee (c := ')') (by decide) more
    rw [parenthesized, List.cons_append, List.append_assoc]
    exact ((Grammar.Skips.seq opened (returns more)).skip closing).skip (Grammar.skips_text [')'] more)
  have others : grammar.Refuses (.rule .thisExpression ||| .rule .literal ||| identifier |||
      .rule .arrayLiteral ||| .rule .objectLiteral ||| .rule .functionExpression : Part)
      (parenthesized (render e) ++ more) :=
    Grammar.refuses_of_foresee ['('] (by decide)
  refine .of_children rfl ((inside.alt_right others).mono ?_)
  rintro _ ⟨node, built, rfl, eq, shape⟩ span
  refine ⟨built, ?_, shape⟩
  rw [buildExpression]
  exact eq

end

end ScriptEngine.Script
