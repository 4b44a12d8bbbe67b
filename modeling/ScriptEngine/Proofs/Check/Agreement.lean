import ScriptEngine.Proofs.Check.Lawful
import ScriptEngine.Proofs.Tree.Accepted

/-!
# The static rules against the walk through the tree

The walk comes by every piece of a tree once, with what surrounds it. Main results: it reports nothing
if and only if all pieces of a script obey the rules (`script_eq_nil_iff`), so a text that can be read
compiles if and only if they do (`compiles_iff_lawful`).
-/
namespace ScriptEngine

/-- All pieces in a piece obey the rules. -/
def AllObey (around : Path) (whole : Piece) : Prop :=
  ∀ path piece, Occurs whole path piece → piece.Obeys (path ++ around)

theorem allObey_iff {around : Path} {whole : Piece} :
    AllObey around whole ↔
      whole.Obeys around ∧ ∀ inner ∈ whole.below, AllObey (whole :: around) inner :=
  forall_occurs_iff

namespace Check

theorem deletion_eq_nil_iff {context : Context} {path : Path}
    (strict : context.strict = path.isStrict) (span : Span) {operator : UnaryOperator}
    {argument : Expression} :
    deletion context operator argument = [] ↔
      (Expression.unary span operator argument).Obeys path := by
  cases argument with
  | identifier id =>
    cases operator with
    | delete => cases eq : path.isStrict <;> simp [deletion, report, Expression.Obeys, strict, eq]
    | _ => simp [deletion, Expression.Obeys]
  | _ => cases operator <;> simp [deletion, Expression.Obeys]

-- By recursion along the walk. Each case compares one report with one rule and leaves the parts of
-- the piece to the lemmas for their kinds; the context for them has to describe their surroundings.
mutual

theorem expression_eq_nil_iff (e : Expression) {context : Context} {path : Path}
    (strict : context.strict = path.isStrict) :
    expression context e = [] ↔ AllObey path (.expression e) := by
  rw [allObey_iff]
  have inner : context.strict = Path.isStrict (.expression e :: path) := strict
  match e, inner with
  | .literal .., _ | .identifier _, _ | .this _, _ =>
    simp [expression, Piece.Obeys, Expression.Obeys, Piece.below, Expression.pieces]
  | .array _ elements, inner =>
    simp [expression, Piece.Obeys, Expression.Obeys, Piece.below, Expression.pieces,
      slots_eq_nil_iff elements inner]
  | .object _ nodes, inner =>
    simp [expression, Piece.Obeys, Expression.Obeys, Piece.below, Expression.pieces,
      properties_eq_nil_iff nodes inner]
  | .function code, _ =>
    simp [expression, Piece.Obeys, Expression.Obeys, Piece.below, Expression.pieces,
      function_eq_nil_iff code (.expression (.function code) :: path)]
  -- What may be deleted depends on the operand, not on what surrounds it.
  | .unary span operator argument, inner =>
    simp [expression, Piece.Obeys, Piece.below, Expression.pieces, deletion_eq_nil_iff strict span,
      expression_eq_nil_iff argument inner]
  | .update _ _ _ place, inner =>
    simp [expression, Piece.Obeys, Expression.Obeys, Piece.below, Expression.pieces,
      target_eq_nil_iff, strict, expression_eq_nil_iff place inner]
  | .assign _ _ place value, inner =>
    simp [expression, Piece.Obeys, Expression.Obeys, Piece.below, Expression.pieces,
      target_eq_nil_iff, strict, expression_eq_nil_iff place inner,
      expression_eq_nil_iff value inner, and_assoc]
  | .binary _ _ left right, inner | .logical _ _ left right, inner | .index _ left right, inner =>
    simp [expression, Piece.Obeys, Expression.Obeys, Piece.below, Expression.pieces,
      expression_eq_nil_iff left inner, expression_eq_nil_iff right inner]
  | .conditional _ test consequent alternate, inner =>
    simp [expression, Piece.Obeys, Expression.Obeys, Piece.below, Expression.pieces,
      expression_eq_nil_iff test inner, expression_eq_nil_iff consequent inner,
      expression_eq_nil_iff alternate inner]
  | .member _ owner _, inner =>
    simp [expression, Piece.Obeys, Expression.Obeys, Piece.below, Expression.pieces,
      expression_eq_nil_iff owner inner]
  | .call _ callee arguments, inner | .new _ callee arguments, inner =>
    simp [expression, Piece.Obeys, Expression.Obeys, Piece.below, Expression.pieces,
      expression_eq_nil_iff callee inner, expressions_eq_nil_iff arguments inner]
  | .sequence _ parts, inner =>
    simp [expression, Piece.Obeys, Expression.Obeys, Piece.below, Expression.pieces,
      expressions_eq_nil_iff parts inner]

theorem expressions_eq_nil_iff (es : List Expression) {context : Context} {path : Path}
    (strict : context.strict = path.isStrict) :
    expressions context es = [] ↔ ∀ e ∈ es, AllObey path (.expression e) := by
  match es with
  | [] => simp [expressions]
  | e :: rest =>
    simp [expressions, expression_eq_nil_iff e strict, expressions_eq_nil_iff rest strict]

theorem slots_eq_nil_iff (elements : List (Option Expression)) {context : Context} {path : Path}
    (strict : context.strict = path.isStrict) :
    slots context elements = [] ↔ ∀ e, some e ∈ elements → AllObey path (.expression e) := by
  match elements with
  | [] => simp [slots]
  | none :: rest => simp [slots, slots_eq_nil_iff rest strict]
  | some e :: rest =>
    simp [slots, expression_eq_nil_iff e strict, slots_eq_nil_iff rest strict, or_imp,
      forall_and]

theorem properties_eq_nil_iff (nodes : List PropertyNode) {context : Context} {path : Path}
    (strict : context.strict = path.isStrict) :
    properties context nodes = [] ↔ ∀ node ∈ nodes, AllObey path node.piece := by
  match nodes with
  | [] => simp [properties]
  | .data _ _ value :: rest =>
    rw [properties, List.append_eq_nil_iff, List.forall_mem_cons]
    exact and_congr (expression_eq_nil_iff value strict) (properties_eq_nil_iff rest strict)
  | .getter _ _ code :: rest | .setter _ _ code :: rest =>
    rw [properties, List.append_eq_nil_iff, List.forall_mem_cons]
    exact and_congr (function_eq_nil_iff code path) (properties_eq_nil_iff rest strict)

/-- What surrounds a function has no part in how its inside is judged. -/
theorem function_eq_nil_iff (code : FunctionCode) (path : Path) :
    function code = [] ↔ AllObey path (.function code) := by
  rw [allObey_iff]
  match code with
  | ⟨span, id, names, bodySpan, body, scope⟩ =>
    have described := Describes.ofFunction ⟨span, id, names, bodySpan, body, scope⟩ path
    have named : (match id with
        | some id => bindingName (.ofFunction scope.strict) id
        | none => []) = [] ↔ ∀ own ∈ id, MayBind scope.strict own := by
      cases id <;> simp [bindingName_eq_nil_iff, Context.ofFunction]
    simp only [function, List.append_eq_nil_iff, Piece.Obeys, Piece.below, List.forall_mem_map,
      and_assoc]
    exact and_congr named (and_congr parameters_lawful_iff
      (and_congr declarations_eq_nil_iff (statements_eq_nil_iff body described)))

theorem statement_eq_nil_iff (s : Statement) {context : Context} {path : Path}
    (described : Describes path context) :
    statement context s = [] ↔ AllObey path (.statement s) := by
  rw [allObey_iff]
  have inner : context.strict = Path.isStrict (.statement s :: path) := described.strict
  match s, inner with
  | .expression _ value, inner | .throws _ value, inner =>
    simp [statement, Piece.Obeys, Statement.Obeys, Piece.below, Statement.pieces,
      expression_eq_nil_iff value inner]
  | .block body, _ =>
    have below := described.same (.statement (.block body)) rfl rfl rfl
    simp [statement, Piece.Obeys, Statement.Obeys, Piece.below, Statement.pieces,
      block_eq_nil_iff body below]
  | .empty _, _ | .debugger _, _ =>
    simp [statement, Piece.Obeys, Statement.Obeys, Piece.below, Statement.pieces]
  | .returns span argument, inner =>
    have outside : (if context.inFunction then [] else report .illegalReturn span) = [] ↔
        (Statement.returns span argument).Obeys path := by
      rw [Statement.Obeys, ← described.inFunction]
      cases context.inFunction <;> simp [report]
    cases argument with
    | none => simp [statement, outside, Piece.Obeys, Piece.below, Statement.pieces]
    | some value =>
      simp [statement, outside, Piece.Obeys, Piece.below, Statement.pieces,
        expression_eq_nil_iff value inner]
  | .breaks span label, _ =>
    simp [statement, Piece.Obeys, Piece.below, Statement.pieces, described.breakTarget_eq_nil_iff]
  | .continues span label, _ =>
    simp [statement, Piece.Obeys, Piece.below, Statement.pieces,
      described.continueTarget_eq_nil_iff]
  | .labelled span id body, _ =>
    simp only [statement, List.append_eq_nil_iff, Piece.Obeys, Piece.below, Statement.pieces,
      List.forall_mem_singleton, ← described.label_eq_nil_iff span id body]
    -- Behind a label that is repeated nothing is known of what surrounds a place.
    refine and_congr_right fun free => statement_eq_nil_iff body ?_
    exact described.labelled (Bool.eq_false_iff.2 (ite_report_eq_nil_iff.1 free))
  -- The branches are in the same surroundings as the statement itself.
  | .branch span test consequent alternate, inner =>
    have below := described.same (.statement (.branch span test consequent alternate)) rfl rfl rfl
    cases alternate with
    | none =>
      simp [statement, Piece.Obeys, Statement.Obeys, Piece.below, Statement.pieces,
        expression_eq_nil_iff test inner, statement_eq_nil_iff consequent below]
    | some alternate =>
      simp [statement, Piece.Obeys, Statement.Obeys, Piece.below, Statement.pieces,
        expression_eq_nil_iff test inner, statement_eq_nil_iff consequent below,
        statement_eq_nil_iff alternate below]
  -- A switch is left by `break` but is no target of `continue`.
  | .select span discriminant clauses scope, inner =>
    have below : Describes (.statement (.select span discriminant clauses scope) :: path)
        { context with inBreakable := true } :=
      described.inside rfl rfl rfl rfl described.distinct rfl rfl
    simp only [statement, List.append_eq_nil_iff, Piece.Obeys, Statement.Obeys, Piece.below,
      Statement.pieces, List.forall_mem_cons, List.forall_mem_map,
      expression_eq_nil_iff discriminant inner, declarations_eq_nil_iff,
      cases_eq_nil_iff clauses below]
    rw [described.strict, and_assoc, and_left_comm]
  | .attempt span body clause finalizer, _ =>
    have below := described.same (.statement (.attempt span body clause finalizer)) rfl rfl rfl
    have handled : (match clause with
        | some ⟨_, parameter, inside⟩ =>
          catchParameter context parameter inside ++ block context inside
        | none => []) = [] ↔ ∀ part ∈ clause.toList,
          AllObey (.statement (.attempt span body clause finalizer) :: path) (.handler part) := by
      match clause, below with
      | none, _ => simp
      | some ⟨start, parameter, inside⟩, below =>
        rw [Option.toList_some, List.forall_mem_singleton]
        exact handler_eq_nil_iff ⟨start, parameter, inside⟩ below
    have finished : (match finalizer with
        | some body => block context body
        | none => []) = [] ↔ ∀ part ∈ finalizer.toList,
          AllObey (.statement (.attempt span body clause finalizer) :: path) (.block part) := by
      match finalizer, below with
      | none, _ => simp
      | some inside, below => simp [block_eq_nil_iff inside below]
    unfold statement
    simp only [List.append_eq_nil_iff, Piece.Obeys, Statement.Obeys, Piece.below,
      Statement.pieces, List.forall_mem_cons, List.forall_mem_append, List.forall_mem_map,
      true_and, and_assoc]
    exact and_congr (block_eq_nil_iff body below) (and_congr handled finished)
  | .whileLoop span test body, inner =>
    have below := described.loopBody (s := .whileLoop span test body) rfl rfl
    simp [statement, Piece.Obeys, Statement.Obeys, Piece.below, Statement.pieces,
      expression_eq_nil_iff test inner, statement_eq_nil_iff body below]
  | .doLoop span body test, inner =>
    have below := described.loopBody (s := .doLoop span body test) rfl rfl
    simp [statement, Piece.Obeys, Statement.Obeys, Piece.below, Statement.pieces,
      expression_eq_nil_iff test inner, statement_eq_nil_iff body below]
  | .forLoop span init test update body scope, inner =>
    have below := described.loopBody (s := .forLoop span init test update body scope) rfl rfl
    have started : (match init with
        | some (.declaration ⟨_, kind, parts⟩) => declarators context kind parts
        | some (.expression value) => expression context value
        | none => []) = [] ↔ ∀ part ∈ init.toList.flatMap ForInit.pieces,
          AllObey (.statement (.forLoop span init test update body scope) :: path) part := by
      match init, inner with
      | none, _ => simp
      | some (.declaration ⟨span, kind, parts⟩), inner =>
        simp [ForInit.pieces, Declaration.pieces, declarators_eq_nil_iff kind parts inner]
      | some (.expression value), inner => simp [ForInit.pieces, expression_eq_nil_iff value inner]
    have tested : (match test with
        | some test => expression context test
        | none => []) = [] ↔ ∀ part ∈ test.toList,
          AllObey (.statement (.forLoop span init test update body scope) :: path)
            (.expression part) := by
      match test, inner with
      | none, _ => simp
      | some test, inner => simp [expression_eq_nil_iff test inner]
    have updated : (match update with
        | some update => expression context update
        | none => []) = [] ↔ ∀ part ∈ update.toList,
          AllObey (.statement (.forLoop span init test update body scope) :: path)
            (.expression part) := by
      match update, inner with
      | none, _ => simp
      | some update, inner => simp [expression_eq_nil_iff update inner]
    unfold statement
    simp only [List.append_eq_nil_iff, Piece.Obeys, Statement.Obeys, Piece.below,
      Statement.pieces, List.forall_mem_append, List.forall_mem_map, List.forall_mem_singleton,
      and_assoc, ← described.strict]
    exact and_congr declarations_eq_nil_iff (and_congr started (and_congr tested
      (and_congr updated (statement_eq_nil_iff body below))))
  | .forInLoop span left right body scope, inner =>
    have below := described.loopBody (s := .forInLoop span left right body scope) rfl rfl
    cases left with
    | declaration kind id =>
      simp [statement, Piece.Obeys, Statement.Obeys, Piece.below, Statement.pieces,
        ForTarget.pieces, declarations_eq_nil_iff, bindingName_eq_nil_iff, described.strict,
        expression_eq_nil_iff right inner, statement_eq_nil_iff body below, and_assoc]
    | expression place =>
      simp [statement, Piece.Obeys, Statement.Obeys, Piece.below, Statement.pieces,
        ForTarget.pieces, declarations_eq_nil_iff, target_eq_nil_iff, described.strict,
        expression_eq_nil_iff place inner, expression_eq_nil_iff right inner,
        statement_eq_nil_iff body below, and_assoc]
  | .function code, _ =>
    simp [statement, Piece.Obeys, Statement.Obeys, Piece.below, Statement.pieces,
      function_eq_nil_iff code (.statement (.function code) :: path)]
  | .declaration ⟨span, kind, parts⟩, inner =>
    simp [statement, Piece.Obeys, Statement.Obeys, Piece.below, Statement.pieces,
      Declaration.pieces, declarators_eq_nil_iff kind parts inner]

theorem block_eq_nil_iff (body : Block) {context : Context} {path : Path}
    (described : Describes path context) :
    block context body = [] ↔ AllObey path (.block body) := by
  rw [allObey_iff]
  match body with
  | ⟨span, list, scope⟩ =>
    have below := described.same (.block ⟨span, list, scope⟩) rfl rfl rfl
    simp [block, Piece.Obeys, Piece.below, declarations_eq_nil_iff, described.strict,
      statements_eq_nil_iff list below]

theorem handler_eq_nil_iff (clause : Handler) {context : Context} {path : Path}
    (described : Describes path context) :
    catchParameter context clause.parameter clause.body ++ block context clause.body = [] ↔
      AllObey path (.handler clause) := by
  rw [allObey_iff]
  match clause with
  | ⟨span, parameter, body⟩ =>
    have below := described.same (.handler ⟨span, parameter, body⟩) rfl rfl rfl
    simp only [List.append_eq_nil_iff, catchParameter_eq_nil_iff, described.strict, Piece.Obeys,
      Piece.below, List.forall_mem_singleton, block_eq_nil_iff body below]

theorem cases_eq_nil_iff (clauses : List Case) {context : Context} {path : Path}
    (described : Describes path context) :
    cases context clauses = [] ↔ ∀ part ∈ clauses, AllObey path (.clause part) := by
  match clauses with
  | [] => simp [cases]
  | ⟨span, none, body⟩ :: rest =>
    have below := described.same (.clause ⟨span, none, body⟩) rfl rfl rfl
    rw [List.forall_mem_cons, allObey_iff]
    simp [cases, Piece.Obeys, Piece.below, statements_eq_nil_iff body below,
      cases_eq_nil_iff rest described]
  | ⟨span, some test, body⟩ :: rest =>
    have below := described.same (.clause ⟨span, some test, body⟩) rfl rfl rfl
    rw [List.forall_mem_cons, allObey_iff]
    simp [cases, Piece.Obeys, Piece.below, expression_eq_nil_iff test below.strict,
      statements_eq_nil_iff body below, cases_eq_nil_iff rest described, and_assoc]

theorem declarators_eq_nil_iff (kind : DeclarationKind) (parts : List Declarator)
    {context : Context} {path : Path} (strict : context.strict = path.isStrict) :
    declarators context kind parts = [] ↔ ∀ part ∈ parts, AllObey path (.declarator kind part) := by
  match parts with
  | [] => simp [declarators]
  | ⟨span, id, none⟩ :: rest =>
    rw [List.forall_mem_cons, allObey_iff, declarators, List.append_eq_nil_iff,
      List.append_eq_nil_iff, bindingName_eq_nil_iff, ite_report_eq_nil_iff,
      declarators_eq_nil_iff kind rest strict, strict]
    simp [Piece.Obeys, Piece.below]
  | ⟨span, id, some init⟩ :: rest =>
    have inner : context.strict = Path.isStrict (.declarator kind ⟨span, id, some init⟩ :: path) :=
      strict
    rw [List.forall_mem_cons, allObey_iff]
    simp [declarators, Piece.Obeys, Piece.below, bindingName_eq_nil_iff, strict,
      expression_eq_nil_iff init inner, declarators_eq_nil_iff kind rest strict, and_assoc]

theorem statements_eq_nil_iff (list : List Statement) {context : Context} {path : Path}
    (described : Describes path context) :
    statements context list = [] ↔ ∀ s ∈ list, AllObey path (.statement s) := by
  match list with
  | [] => simp [statements]
  | s :: rest =>
    simp [statements, statement_eq_nil_iff s described, statements_eq_nil_iff rest described]

end

/-- Nothing is reported of a script if and only if all its pieces obey the rules. -/
theorem script_eq_nil_iff (tree : ScriptTree) : script tree = [] ↔ tree.Lawful := by
  have whole : tree.Lawful ↔ AllObey [] (.script tree) := by
    simp only [ScriptTree.Lawful, AllObey, List.append_nil]
  rw [whole, allObey_iff, script, List.append_eq_nil_iff, declarations_eq_nil_iff,
    statements_eq_nil_iff tree.body (.ofScript tree)]
  simp only [Piece.Obeys, Piece.below, List.forall_mem_map, Context.ofScript]

end Check

/-- A text that can be read compiles if and only if no piece of its tree, at any depth, violates a
rule. -/
theorem compiles_iff_lawful (source name : String) (forceStrict : Bool) (tree : ScriptTree)
    (read : Script.read source forceStrict = .ok tree) :
    (∃ p, Program.compile source name forceStrict = .ok p) ↔ tree.Lawful := by
  rw [← Check.script_eq_nil_iff, ← Program.diagnostics_eq_nil_iff source.toList, Program.compile,
    read]
  dsimp only
  cases Program.diagnostics source.toList tree with
  | nil => exact iff_of_true ⟨_, rfl⟩ rfl
  | cons first rest =>
    constructor
    · rintro ⟨p, compiled⟩
      cases compiled
    · nofun

/-- A jump to the second label of a loop, out of a switch and behind a function that has the same
label inside. -/
theorem compiles_iff_lawful_labelled :
    let source :=
      "a: for (;;) switch (1) \x7b case 1: (function () \x7b a: break a \x7d); continue a \x7d"
    ∃ tree, Script.read source false = .ok tree ∧
      ((∃ p, Program.compile source "" false = .ok p) ↔ tree.Lawful) ∧ tree.Lawful := by
  extract_lets source
  have passes : (Program.compile source "" false).toOption.isSome = true := by decide +kernel
  obtain ⟨p, compiled⟩ : ∃ p, Program.compile source "" false = .ok p := by
    cases eq : Program.compile source "" false with
    | error e =>
      rw [eq] at passes
      cases passes
    | ok p => exact ⟨p, rfl⟩
  cases read : Script.read source false with
  | error d =>
    rw [Program.compile, read] at compiled
    cases compiled
  | ok tree =>
    have agrees := compiles_iff_lawful source "" false tree read
    exact ⟨tree, rfl, agrees, agrees.1 ⟨p, compiled⟩⟩

end ScriptEngine
