import ScriptEngine.Program
import ScriptEngine.Proofs.Grammar.Bound
import ScriptEngine.Proofs.Tree.Levels

/-!
# Scripts that are one expression

A text that no other statement or declaration can begin with, and that is an expression and the end
of a statement, is read as a script of one expression statement (`read_of_expression`).
-/
namespace ScriptEngine.Script

/-- The statements and declarations that are no expression statements. -/
def otherItems : List Rule :=
  [.functionDeclaration, .lexicalDeclaration, .block, .variableStatement, .emptyStatement,
    .ifStatement, .forInStatement, .forStatement, .whileStatement, .doWhileStatement,
    .continueStatement, .breakStatement, .returnStatement, .switchStatement, .throwStatement,
    .tryStatement, .debuggerStatement, .labelledStatement]

section

variable {text rest : List Char} {e : Expression} {made : List (Node Rule) → Prop}

theorem yields_item (others : ∀ r ∈ otherItems, grammar.Refuses (.rule r) text)
    (reads : grammar.Yields (.rule .expressionStatement) text rest made) :
    grammar.Yields item text rest made := by
  have declarations :
      grammar.Refuses (.rule .functionDeclaration ||| .rule .lexicalDeclaration : Part) text :=
    (others _ (by decide)).alt (others _ (by decide))
  refine Grammar.Yields.alt_right declarations (Grammar.Yields.alt_right ?_ reads)
  repeat' refine Grammar.Refuses.alt ?_ ?_
  all_goals exact others _ (by decide)

/-- A text that is one expression statement is a script. -/
theorem yields_script (begins : grammar.Skips gap text text) (nonempty : text ≠ [])
    (others : ∀ r ∈ otherItems, grammar.Refuses (.rule r) text)
    (reads : grammar.Yields (.rule .expressionStatement) text [] made) :
    grammar.Yields (.rule .script) text [] fun nodes =>
      ∃ span children, made children ∧ nodes = [.branch .script span children] := by
  have only : grammar.Skips items [] [] := by
    have nothing : grammar.Skips gap [] [] :=
      Grammar.skips_of_foresee_whole (by decide)
    have end' : grammar.Refuses item [] := Grammar.refuses_of_foresee_whole (by decide)
    exact (Grammar.Yields.refuses_seq nothing end').many
  have round := Grammar.Skips.seq begins (yields_item others reads)
  have all : grammar.Yields items text [] made :=
    (round.many (List.length_pos_iff.2 nonempty) only).mono fun _ ⟨front, _, known, empty, eq⟩ => by
      rwa [eq, empty, List.append_nil]
  have behind : grammar.Skips gap [] [] :=
    Grammar.skips_of_foresee_whole (by decide)
  have last : grammar.Skips (.notAhead anyChar) [] [] :=
    Grammar.skips_of_foresee_whole (by decide)
  exact Grammar.Yields.branch _ rfl ((all.skip behind).skip last)

/-- What an expression statement is built of. -/
theorem buildStatement_expression {source : List Char} {span : Span} {node : Node Rule}
    {built : Expression} (eq : buildExpression source node = pure built) :
    buildStatement source (.branch .expressionStatement span [node]) =
      pure (.expression span built) := by
  rw [buildStatement, eq]
  rfl

/-- A text that no other statement can begin with, and that is an expression and the end of a
statement, is read as a script of this one expression. -/
theorem read_of_expression {source : String} (rest : List Char) (forceStrict : Bool)
    (shallow : ∀ node, parse source.toList = .ok node →
      Nesting.firstTooDeep? source.toList = none)
    (begins : grammar.Skips gap source.toList source.toList)
    (others : ∀ r ∈ otherItems, grammar.Refuses (.rule r) source.toList)
    (first : grammar.Refuses (sign "\x7b" ||| word "function") source.toList)
    (parses : Parses source.toList .expression source.toList rest e)
    (ends : grammar.Skips statementEnd rest []) :
    ∃ tree span value, read source forceStrict = .ok tree ∧ tree.body = [.expression span value] ∧
      value.shape = e := by
  have statement := Grammar.Yields.branch .expressionStatement (g := grammar) rfl
    (Grammar.Skips.seq first.notAhead parses |>.skip ends)
  have nonempty : source.toList ≠ [] := by
    intro empty
    -- Without a character, there would be no expression.
    obtain ⟨_, _, _, found, _⟩ := parses ⟨[], 0⟩ empty.symm
    have refused : grammar.Refuses expression [] :=
      Grammar.refuses_of_foresee_whole (by decide)
    exact found.not_fails (refused _ rfl)
  obtain ⟨stop, _, _, found, span, _, ⟨span', _, ⟨node, built, rfl, eq, shape⟩, rfl⟩, rfl⟩ :=
    yields_script begins nonempty others statement ⟨source.toList, 0⟩ rfl
  have parsed := (parse_eq_ok_iff source.toList _).2 ⟨stop, found⟩
  have body : buildStatements source.toList [.branch .expressionStatement span' [node]] =
      pure [.expression span' built] := by
    rw [buildStatements, buildStatement_expression eq, buildStatements]
    rfl
  have shown : concrete source.toList =
      .ok (.branch .script span [.branch .expressionStatement span' [node]]) := by
    unfold concrete
    rw [shallow _ parsed, parsed]
  let strict := forceStrict ||
    asksForStrict source.toList [.branch .expressionStatement span' [node]]
  have made : tree source.toList forceStrict =
      .ok ⟨span, [.expression span' built], .empty (strict || Tracker.empty.isStrict)⟩ := by
    unfold tree
    rw [shown]
    show ((buildScript source.toList forceStrict _).run Tracker.empty |>.run.1) = _
    rw [buildScript, Node.children_branch, body]
    rfl
  have reading : read source forceStrict =
      .ok ⟨span, [.expression span' built], .empty (strict || Tracker.empty.isStrict)⟩ := by
    show (tree source.toList forceStrict).mapError _ = _
    rw [made]
    rfl
  exact ⟨_, span', built, reading, rfl, shape⟩

end

end ScriptEngine.Script
