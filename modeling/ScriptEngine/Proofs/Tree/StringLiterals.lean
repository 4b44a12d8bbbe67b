import ScriptEngine.Proofs.Grammar.Derivation
import ScriptEngine.Proofs.Grammar.SoleLiteral
import ScriptEngine.Proofs.Tree.Building

/-!
# String literals in the tree

Which expressions are built as string literals, and where these have been matched in the source: a
level with a single operand is built as that operand, so a node that is nothing but a string literal
is built as one (`run_of_bare`), and whatever is built as a string literal has its place from one
(`buildExpression_fromSource`).
-/
namespace ScriptEngine

namespace Script

section

variable {source : List Char} {token : Span} {node : Node Rule} {t t' : Tracker}

/-- A level with a single operand is built as that operand. -/
theorem build_level {r next : Rule} (step : tighter r = some next) (span : Span)
    (child : Node Rule) :
    buildExpression source (.branch r span [child]) = buildExpression source child := by
  cases r with
  | expression =>
    rw [buildExpression, buildExpressions, buildExpressions]
    simp
  | assignment | conditional | unaryExpression | postfixExpression => rw [buildExpression]
  | logicalOr | logicalAnd =>
    rw [buildExpression]
    simp [buildLogical]
  | binary level =>
    rw [buildExpression]
    simp [buildBinary]
  | lhsExpression | memberExpression =>
    rw [buildExpression]
    simp [buildTails]
  | _ => cases step

theorem run_of_bare (bare : Bare token node) {e : Expression}
    (built : (buildExpression source node).run t = (.ok e, t')) :
    ∃ value, e = .literal token (.string value) := by
  induction bare with
  | literal span children =>
    rw [buildExpression, Build.run_bind] at built
    split at built
    next value t'' eq =>
      cases built
      change (stringValue _ >>= fun value => pure (Literal.string value)).run t = _ at eq
      rw [Build.run_bind] at eq
      split at eq
      next value' _ _ =>
        cases eq
        exact ⟨value', rfl⟩
      · cases eq
    · cases built
  | primary span inside ih =>
    rw [buildExpression] at built
    exact ih built
  | level step span inside ih =>
    rw [build_level step] at built
    exact ih built

end

end Script

namespace Build

variable {α β : Type}

/-- A condition on what a builder returns. -/
def Gives (x : Build α) (P : α → Prop) : Prop :=
  ∀ (t t' : Tracker) (a : α), x.run t = (.ok a, t') → P a

namespace Gives

variable {x : Build α} {f : α → Build β} {P : α → Prop} {Q : β → Prop}

theorem pure {a : α} (h : P a) : Gives (Pure.pure a) P := by
  rintro t t' _ ⟨⟩
  exact h

theorem fail (problem : Problem) (span : Span) : Gives (Build.fail problem span) P := by
  rintro t t' a ⟨⟩

theorem bind (first : Gives x P) (second : ∀ a, P a → Gives (f a) Q) : Gives (x >>= f) Q := by
  intro t t'' b run
  rw [run_bind] at run
  split at run
  next a t' eq => exact second a (first t t' a eq) t' t'' b run
  · cases run

/-- The value of the first part may not matter. -/
theorem after (second : ∀ a, Gives (f a) Q) : Gives (x >>= f) Q :=
  bind (P := fun _ => True) (fun _ _ _ _ => trivial) fun a _ => second a

theorem inScope {openScope : Tracker → Tracker} (inside : Gives x P) :
    Gives (Build.inScope openScope x) fun (a, _) => P a := by
  rintro t t'' ⟨a, scope⟩ run
  simp only [Build.inScope, ExceptT.run] at run
  split at run
  · cases run
  next a' t' eq =>
    split at run
    · cases run
      exact inside _ _ a eq
    · cases run
      exact inside _ _ a eq

end Gives

end Build

namespace Script

open Build

/-! ### Where literals come from -/

section

variable {source : List Char} {node : Node Rule}

/-- An expression that is a string literal has its place from one that was matched there. -/
def FromSource (source : List Char) (e : Expression) : Prop :=
  ∀ token value, e = .literal token (.string value) →
    ∃ depth start stop literal, start.Within source ∧
      grammar.read depth (.rule .stringLiteral) start = .matched stop literal ∧
        token = ⟨start.offset, stop.offset⟩

theorem buildBinary_fromSource (left : Expression) (nodes : List (Node Rule))
    (literal : FromSource source left) :
    Gives (buildBinary source left nodes) (FromSource source) := by
  unfold buildBinary
  split
  · exact .pure literal
  · exact .fail _ _
  · refine .after fun kind => .after fun right => ?_
    exact buildBinary_fromSource _ _ fun _ _ same => by cases same
termination_by sizeOf nodes

theorem buildLogical_fromSource (operator : LogicalOperator) (left : Expression)
    (nodes : List (Node Rule)) (literal : FromSource source left) :
    Gives (buildLogical source operator left nodes) (FromSource source) := by
  unfold buildLogical
  split
  · exact .pure literal
  · exact .after fun right => buildLogical_fromSource operator _ _ fun _ _ same => by cases same
termination_by sizeOf nodes

theorem buildTails_fromSource (object : Expression) (nodes : List (Node Rule))
    (literal : FromSource source object) :
    Gives (buildTails source object nodes) (FromSource source) := by
  unfold buildTails
  split
  · exact .pure literal
  · exact .after fun arguments => buildTails_fromSource _ _ fun _ _ same => by cases same
  · exact buildTails_fromSource _ _ fun _ _ same => by cases same
  · exact .after fun index => buildTails_fromSource _ _ fun _ _ same => by cases same
  · exact .fail _ _
termination_by sizeOf nodes

theorem ofNumeric?_ne_string (token : List Char) (text : String) :
    Literal.ofNumeric? token ≠ some (.string text) := by
  unfold Literal.ofNumeric?
  split
  · dsimp only
    split <;> nofun
  · dsimp only
    split <;> nofun
  · intro eq
    obtain ⟨number, -, eq⟩ := Option.map_eq_some_iff.1 eq
    split at eq <;> cases eq

/-- Only a string literal has a string for its value. -/
theorem literalValue_string (value : Node Rule) :
    Gives (literalValue value) fun literal =>
      (∃ text, literal = .string text) → value.rule = .stringLiteral := by
  unfold literalValue
  split
  · exact .pure nofun
  · exact .pure nofun
  · unfold require
    split
    next found =>
      refine .pure ?_
      rintro ⟨text, rfl⟩
      exact absurd found (ofNumeric?_ne_string _ text)
    · exact .fail _ _
  next isString => exact .after fun _ => .pure fun _ => isString
  · exact .fail _ _

theorem literal_fromSource {span : Span} {value : Node Rule}
    (derived : grammar.Derived source (.branch .literal span [value])) :
    Gives (literalValue value >>= fun value => pure (.literal span value)) (FromSource source) := by
  obtain ⟨depth, start, stop, within, found, rfl⟩ := derived.branch
  refine (literalValue_string value).bind fun literal isString => .pure ?_
  rintro token text ⟨⟩
  have string := isString ⟨text, rfl⟩
  -- The value is the node of the only alternative that makes string literals.
  have other {name : Rule} (different : name ≠ .stringLiteral) :
      grammar.read depth (.rule name) start ≠ .matched stop [value] := by
    intro found
    obtain ⟨_, _, -, -, eq⟩ := Grammar.read_rule_matched.1 found
    cases eq
    rw [Grammar.rule_node] at string
    exact different string
  rcases Grammar.read_alt_matched.1 found with found | ⟨-, found⟩
  · rcases Grammar.read_alt_matched.1 found with found | ⟨-, found⟩
    · rcases Grammar.read_alt_matched.1 found with found | ⟨-, found⟩
      · exact absurd found (other nofun)
      · exact absurd found (other nofun)
    · exact absurd found (other nofun)
  · exact ⟨depth, start, stop, _, within, found, rfl⟩

mutual

theorem buildExpression_fromSource (node : Node Rule) (derived : grammar.Derived source node) :
    Gives (buildExpression source node) (FromSource source) := by
  have inside := derived.children
  unfold buildExpression
  split
  · exact .pure nofun
  · exact .pure nofun
  · exact literal_fromSource derived
  next span children =>
    refine (buildExpressions_fromSource children inside).bind fun parts each => ?_
    split
    · exact .fail _ _
    · exact .pure (each _ List.mem_cons_self)
    · exact .pure nofun
  · exact buildExpression_fromSource _ (inside _ List.mem_cons_self)
  · exact .after fun _ => .after fun _ => .after fun _ => .pure nofun
  · exact buildExpression_fromSource _ (inside _ List.mem_cons_self)
  · exact .after fun _ => .after fun _ => .after fun _ => .pure nofun
  next first rest =>
    exact (buildExpression_fromSource first (inside _ List.mem_cons_self)).bind
      fun e literal => buildLogical_fromSource .or e rest literal
  next first rest =>
    exact (buildExpression_fromSource first (inside _ List.mem_cons_self)).bind
      fun e literal => buildLogical_fromSource .and e rest literal
  next first rest =>
    exact (buildExpression_fromSource first (inside _ List.mem_cons_self)).bind
      fun e literal => buildBinary_fromSource e rest literal
  · exact buildExpression_fromSource _ (inside _ List.mem_cons_self)
  · refine .after fun _ => ?_
    split
    · exact .pure nofun
    · exact .after fun _ => .pure nofun
  · exact buildExpression_fromSource _ (inside _ List.mem_cons_self)
  · exact .after fun _ => .after fun _ => .pure nofun
  next first tails =>
    exact (buildExpression_fromSource first (inside _ List.mem_cons_self)).bind
      fun e literal => buildTails_fromSource e tails literal
  next first tails =>
    exact (buildExpression_fromSource first (inside _ List.mem_cons_self)).bind
      fun e literal => buildTails_fromSource e tails literal
  · exact .after fun _ => .after fun _ => .pure nofun
  · exact .after fun _ => .pure nofun
  · exact buildExpression_fromSource _ (inside _ List.mem_cons_self)
  · exact .after fun _ => .pure nofun
  · exact .after fun _ => .pure nofun
  · exact .after fun _ => .pure nofun
  · exact .fail _ _
termination_by sizeOf node
decreasing_by
  all_goals
    subst_vars
    simp only [Node.branch.sizeOf_spec, List.cons.sizeOf_spec]
    omega

theorem buildExpressions_fromSource (nodes : List (Node Rule))
    (derived : ∀ node ∈ nodes, grammar.Derived source node) :
    Gives (buildExpressions source nodes) fun es => ∀ e ∈ es, FromSource source e := by
  unfold buildExpressions
  split
  · exact .pure (List.forall_mem_nil _)
  next node rest =>
    obtain ⟨first, others⟩ := List.forall_mem_cons.1 derived
    refine (buildExpression_fromSource node first).bind fun e literal => ?_
    refine (buildExpressions_fromSource rest others).bind fun es each => .pure ?_
    exact List.forall_mem_cons.2 ⟨literal, each⟩
termination_by sizeOf nodes
decreasing_by
  all_goals
    subst_vars
    simp only [List.cons.sizeOf_spec]
    omega

end

end

end Script

end ScriptEngine
