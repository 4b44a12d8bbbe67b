import ScriptEngine.Proofs.Grammar.Derivation
import ScriptEngine.Proofs.Tree.Placed
import ScriptEngine.Tree.Builder

/-!
# What building records

While a tree is being built, declarations are recorded in the innermost open scope, and those of
`var` names also in the scopes around it up to the nearest function. `Yields` describes a builder by
what it returns together with what it recorded, so that builders compose like the parts of a tree.
Main result: `buildScript_placed`, every scope of a tree that was built lists what is declared in
it, if the parts of the concrete tree are arranged as the grammar asks.
-/
namespace ScriptEngine

/-- Records declarations in the innermost of some scopes, and those that go outward in the scopes
around it. Of a scope it is told whether it is a function's, and what is recorded in it. -/
def record (d : Declared) : List (Bool × Declared) → List (Bool × Declared)
  | [] => []
  | (isFunction, first) :: outer =>
    (isFunction, first ++ d) :: if isFunction then outer else record d.outward outer

@[simp]
theorem record_nothing (scopes : List (Bool × Declared)) : record .nothing scopes = scopes := by
  induction scopes with
  | nil => rfl
  | cons scope outer ih => simp [record, ih]

theorem record_append (first second : Declared) (scopes : List (Bool × Declared)) :
    record (first ++ second) scopes = record second (record first scopes) := by
  induction scopes generalizing first second with
  | nil => rfl
  | cons scope outer ih =>
    simp only [record, Declared.append_assoc, Declared.outward_append, ih]
    split <;> rfl

@[simp]
theorem length_record (d : Declared) (scopes : List (Bool × Declared)) :
    (record d scopes).length = scopes.length := by
  induction scopes generalizing d with
  | nil => rfl
  | cons scope outer ih =>
    simp only [record, List.length_cons]
    split
    · rfl
    · rw [ih]

/-- What is recorded in the open scopes. -/
def ScopeFrame.listed (frame : ScopeFrame) : Bool × Declared :=
  (frame.isFunction, frame.scope.listed)

def Tracker.listed (t : Tracker) : List (Bool × Declared) := t.frames.map ScopeFrame.listed

/-- What is recorded when a name is declared. -/
def DeclarationKind.records (id : Identifier) (kind : DeclarationKind) : Declared :=
  ⟨[], kind.vars id, kind.lexical id, []⟩

theorem listed_declareVar (id : Identifier) (frames : List ScopeFrame) :
    (declareVar id frames).map ScopeFrame.listed =
      record ⟨[], [id], [], []⟩ (frames.map ScopeFrame.listed) := by
  induction frames with
  | nil => rfl
  | cons frame outer ih =>
    have first : ({ frame.scope with vars := frame.scope.vars ++ [id] } : Scope).listed =
        frame.scope.listed ++ ⟨[], [id], [], []⟩ :=
      Declared.ext (List.append_nil _).symm rfl (List.append_nil _).symm (List.append_nil _).symm
    simp only [declareVar, List.map_cons, ScopeFrame.listed, record, first]
    -- A function keeps the name; from any other scope it goes on to the next one.
    split
    · rfl
    · rw [ih]
      rfl

/-- What is no `var` name is recorded in the innermost scope alone. -/
theorem Tracker.listed_modifyScope (t : Tracker) {change : Scope → Scope} {d : Declared}
    (inner : d.vars = []) (records : ∀ s, (change s).listed = s.listed ++ d) :
    (t.modifyScope change).listed = record d t.listed := by
  obtain ⟨frames⟩ := t
  cases frames with
  | nil => rfl
  | cons frame outer =>
    -- Only `var` names go outward, so the scopes around it stay as they are.
    have outward : d.outward = .nothing := by
      simp only [Declared.outward, inner, Declared.nothing]
    simp [modifyScope, Tracker.listed, ScopeFrame.listed, record, records, outward]

theorem Tracker.listed_declare (t : Tracker) (id : Identifier) (kind : DeclarationKind) :
    (t.declare id (.declared kind)).listed = record (kind.records id) t.listed := by
  have named {isConst : Bool} : (t.modifyScope fun s =>
      { s with lexical := s.lexical ++ [⟨id, isConst⟩] }).listed =
        record ⟨[], [], [⟨id, isConst⟩], []⟩ t.listed :=
    t.listed_modifyScope rfl fun s =>
      Declared.ext (List.append_nil _).symm (List.append_nil _).symm rfl (List.append_nil _).symm
  cases kind with
  | var => exact listed_declareVar id t.frames
  | «let» => exact named
  | const => exact named

theorem Tracker.listed_declareParameter (t : Tracker) (id : Identifier) :
    (t.declare id .parameter).listed = record ⟨[id], [], [], []⟩ t.listed :=
  t.listed_modifyScope rfl fun _ =>
    Declared.ext rfl (List.append_nil _).symm (List.append_nil _).symm (List.append_nil _).symm

theorem Tracker.listed_declareFunction (t : Tracker) (code : FunctionCode) :
    (t.declareFunction code).listed = record ⟨[], [], [], [code]⟩ t.listed :=
  t.listed_modifyScope rfl fun _ =>
    Declared.ext (List.append_nil _).symm (List.append_nil _).symm (List.append_nil _).symm rfl

namespace Build

variable {α β : Type}

/-- What a builder returns, with what it records in the open scopes. -/
def Yields (x : Build α) (Q : α → Declared → Prop) : Prop :=
  ∀ (t t' : Tracker) (a : α), x.run t = (.ok a, t') → ∃ d, Q a d ∧ t'.listed = record d t.listed

/-- What a builder returns that records nothing. -/
def Makes (x : Build α) (P : α → Prop) : Prop := x.Yields fun a d => P a ∧ d = .nothing

theorem run_bind (x : Build α) (f : α → Build β) (t : Tracker) :
    (x >>= f).run t = match x.run t with
      | (.ok a, t') => (f a).run t'
      | (.error e, t') => (.error e, t') := by
  change ExceptT.bindCont f (x.run t).1 (x.run t).2 = _
  obtain ⟨outcome, t'⟩ := x.run t
  cases outcome <;> rfl

namespace Yields

variable {x : Build α} {f : α → Build β} {Q : α → Declared → Prop}
  {R : β → Declared → Prop}

theorem pure {a : α} (h : Q a .nothing) : Yields (pure a) Q := by
  rintro t t' _ ⟨⟩
  exact ⟨.nothing, h, (record_nothing _).symm⟩

theorem fail (problem : Problem) (span : Span) : Yields (Build.fail problem span) Q := by
  rintro t t' a ⟨⟩

theorem malformed (node : Node Rule) : Yields (Build.malformed node) Q := fail _ _

theorem bind (first : Yields x Q)
    (second : ∀ a d, Q a d → Yields (f a) fun b more => R b (d ++ more)) :
    Yields (x >>= f) R := by
  intro t t'' b run
  rw [run_bind] at run
  split at run
  next a t' eq =>
    obtain ⟨d, holds, recorded⟩ := first t t' a eq
    obtain ⟨more, holds', recorded'⟩ := second a d holds t' t'' b run
    -- Recording is in source order, so the second part adds behind the first.
    exact ⟨d ++ more, holds', by rw [recorded', recorded, record_append]⟩
  · cases run

theorem weaken {Q' : α → Declared → Prop} (h : Yields x Q)
    (weaker : ∀ a d, Q a d → Q' a d) : Yields x Q' := by
  intro t t' a run
  obtain ⟨d, holds, recorded⟩ := h t t' a run
  exact ⟨d, weaker a d holds, recorded⟩

end Yields

namespace Makes

variable {x : Build α} {f : α → Build β} {P : α → Prop}

theorem pure {a : α} (h : P a) : Makes (pure a) P := Yields.pure ⟨h, rfl⟩

theorem fail (problem : Problem) (span : Span) : Makes (Build.fail problem span) P :=
  Yields.fail problem span

theorem malformed (node : Node Rule) : Makes (Build.malformed node) P := Yields.malformed node

/-- A part that records nothing does not show in what the rest yields. -/
theorem thenYields {R : β → Declared → Prop} (first : Makes x P)
    (second : ∀ a, P a → Yields (f a) R) : Yields (x >>= f) R := by
  refine Yields.bind first fun a d made => ?_
  obtain ⟨holds, rfl⟩ := made
  exact second a holds

theorem bind {P' : β → Prop} (first : Makes x P) (second : ∀ a, P a → Makes (f a) P') :
    Makes (x >>= f) P' := first.thenYields second

end Makes

/-- A part that yields something, before a rest that records nothing. -/
theorem Yields.thenMakes {Q : α → Declared → Prop} {R : β → Declared → Prop} {x : Build α}
    {f : α → Build β} (first : Yields x Q)
    (second : ∀ a d, Q a d → Makes (f a) (R · d)) : Yields (x >>= f) R := by
  refine Yields.bind first fun a d yielded => ?_
  refine Yields.weaken (second a d yielded) fun b more made => ?_
  obtain ⟨holds, rfl⟩ := made
  rw [Declared.append_nothing]
  exact holds

theorem Yields.declareFunction (code : FunctionCode) :
    Yields (modify (·.declareFunction code)) fun _ d => d = ⟨[], [], [], [code]⟩ := by
  rintro t t' _ ⟨⟩
  exact ⟨_, rfl, t.listed_declareFunction code⟩

theorem Yields.declare (id : Identifier) (kind : DeclarationKind) :
    Yields (Build.declare id (.declared kind)) fun _ d => d = kind.records id := by
  rintro t t' _ ⟨⟩
  exact ⟨_, rfl, t.listed_declare id kind⟩

theorem Yields.declareAll (ids : List Identifier) :
    Yields (ids.forM (Build.declare · .parameter)) fun _ d => d = ⟨ids, [], [], []⟩ := by
  induction ids with
  | nil => exact pure rfl
  | cons id rest ih =>
    have first : Yields (Build.declare id .parameter) fun _ d => d = ⟨[id], [], [], []⟩ := by
      rintro t t' _ ⟨⟩
      exact ⟨_, rfl, t.listed_declareParameter id⟩
    refine first.bind fun _ d named => Yields.weaken ih fun _ more others => ?_
    rw [named, others]
    rfl

/-- What goes on from an inner scope to the scopes around it. -/
def passesOn (isFunction : Bool) (inside : Declared) : Declared :=
  if isFunction then .nothing else inside.outward

/-- Inside a new scope everything is recorded in that scope. -/
theorem Yields.inScope {openScope : Tracker → Tracker} {body : Build α} {isFunction : Bool}
    {Q : α → Declared → Prop}
    (opened : ∀ t, ∃ frame : ScopeFrame, frame.listed = (isFunction, .nothing) ∧
      (openScope t).frames = frame :: t.frames)
    (inside : Yields body Q) :
    Yields (Build.inScope openScope body) fun (a, scope) d =>
      Q a scope.listed ∧ d = passesOn isFunction scope.listed := by
  rintro t t'' ⟨a, scope⟩ run
  obtain ⟨frame, new, frames⟩ := opened t
  simp only [Build.inScope, ExceptT.run] at run
  split at run
  · cases run
  next a t' eq =>
    obtain ⟨d, holds, recorded⟩ := inside _ t' a eq
    -- The builder inside leaves as many scopes open as it found.
    have scopes : t'.listed = (isFunction, d) :: record (passesOn isFunction d) t.listed := by
      rw [recorded]
      simp only [Tracker.listed, frames, List.map_cons, new, record, Declared.nothing_append]
      cases isFunction <;> simp [passesOn]
    -- So closing the scope gives up exactly the innermost one.
    obtain ⟨inner⟩ := t'
    cases inner with
    | nil => cases scopes
    | cons frame' outer =>
      simp only [Tracker.listed, List.map_cons, List.cons.injEq] at scopes
      obtain ⟨same, outside⟩ := scopes
      have deep : outer.length = t.frames.length := by
        have lengths := congrArg List.length outside
        rw [length_record] at lengths
        simpa [Tracker.listed] using lengths
      have kept : (⟨frame' :: outer⟩ : Tracker).abandonTo (t.depth + 1) = ⟨frame' :: outer⟩ := by
        simp [Tracker.abandonTo, Tracker.depth, deep]
      rw [kept] at run
      cases run
      cases same
      exact ⟨_, ⟨holds, rfl⟩, outside⟩

/-- A block passes its `var` names on. -/
theorem Yields.inBlock {body : Build α} {Q : α → Declared → Prop} (inside : Yields body Q) :
    Yields (Build.inBlock body) fun (a, scope) d =>
      Q a scope.listed ∧ d = scope.listed.outward :=
  Yields.inScope (fun t => ⟨⟨false, .empty t.isStrict⟩, rfl, rfl⟩) inside

theorem Makes.inFunction (directive : Bool) {body : Build α} {Q : α → Declared → Prop}
    (inside : Yields body Q) :
    Makes (Build.inFunction directive body) fun (a, scope) => Q a scope.listed :=
  Yields.inScope (fun t => ⟨⟨true, .empty (directive || t.isStrict)⟩, rfl, rfl⟩) inside

end Build

namespace Script

open Build

theorem require_makes {α : Type} (node : Node Rule) (a : Option α) :
    Makes (require node a) fun _ => True := by
  cases a with
  | none => exact .malformed node
  | some a => exact .pure trivial

theorem buildBlock_yields (span : Span) {body : Build (List Statement)}
    (inside : Yields body fun statements d =>
      d = declares statements ∧ Placed.statements statements) :
    Yields (buildBlock span body) fun block d =>
      d = ⟨[], block.vars, [], []⟩ ∧ Placed.block block := by
  refine (Yields.inBlock inside).thenMakes fun (statements, scope) d built => .pure ?_
  obtain ⟨⟨listed, placed⟩, rfl⟩ := built
  refine And.intro ?_ ((Placed.block_iff _).2 (And.intro listed placed))
  rw [listed]
  rfl

theorem buildCode_makes (directive : Bool) (span : Span) (id : Option Identifier)
    (parameters : List Identifier) (bodySpan : Span) {body : Build (List Statement)}
    (inside : Yields body fun statements d =>
      d = declares statements ∧ Placed.statements statements) :
    Makes (buildCode directive span id parameters bodySpan body) Placed.function := by
  have declared : Yields (do parameters.forM (Build.declare · .parameter); body)
      fun statements d =>
        d = declaresInFunction parameters statements ∧ Placed.statements statements := by
    refine (Yields.declareAll parameters).bind fun _ d named => Yields.weaken inside ?_
    rintro statements more ⟨rfl, placed⟩
    rw [named]
    exact And.intro (Declared.ext (List.append_nil _) rfl rfl rfl) placed
  refine (Makes.inFunction directive declared).bind fun (statements, scope) built => .pure ?_
  exact (Placed.function_iff _).2 built

theorem stringValue_makes (node : Node Rule) : Makes (stringValue node) fun _ => True := by
  unfold stringValue
  split
  · split
    · exact .pure trivial
    · exact .fail _ _
  · exact .malformed node

theorem literalValue_makes (node : Node Rule) : Makes (literalValue node) fun _ => True := by
  unfold literalValue
  split
  · exact .pure trivial
  · exact .pure trivial
  · exact require_makes node _
  · exact (stringValue_makes node).bind fun _ _ => .pure trivial
  · exact .malformed node

theorem propertyKey_makes (node : Node Rule) : Makes (propertyKey node) fun _ => True := by
  unfold propertyKey
  split
  · split
    · exact .pure trivial
    · exact stringValue_makes _
    · exact require_makes _ _
    · exact .malformed _
  · exact .malformed node

/-- The clauses of a `try` that may follow those that have been built. -/
def clausesAfter : Option Handler → Option Block → List Rule
  | _, some _ => []
  | none, none => [.catchClause, .finallyClause]
  | some _, none => [.finallyClause]

/-- Nothing comes before a catch clause. -/
theorem catch_first {handler : Option Handler} {finalizer : Option Block} {rest : List Rule}
    (order : (Rule.catchClause :: rest).Sublist (clausesAfter handler finalizer)) :
    handler = none ∧ finalizer = none ∧ rest.Sublist [.finallyClause] := by
  have clause := order.subset List.mem_cons_self
  match handler, finalizer with
  | none, none => exact And.intro rfl (And.intro rfl (List.cons_sublist_cons.1 order))
  | some _, none => cases List.mem_singleton.1 clause
  | _, some _ => cases clause

/-- Nothing comes behind a finally clause. -/
theorem finally_first {handler : Option Handler} {finalizer : Option Block} {rest : List Rule}
    (order : (Rule.finallyClause :: rest).Sublist (clausesAfter handler finalizer)) :
    finalizer = none ∧ rest.Sublist [] := by
  have clause := order.subset List.mem_cons_self
  match handler, finalizer with
  | none, none =>
    -- The catch clause that may come first is not there.
    cases order with
    | cons _ order => exact And.intro rfl (List.cons_sublist_cons.1 order)
  | some _, none => exact And.intro rfl (List.cons_sublist_cons.1 order)
  | _, some _ => cases clause

/-- A statement as it is built from a node, with what is recorded: a `let` or `const` declaration
comes from no other kind of node. -/
structure Built (node : Node Rule) (s : Statement) (d : Declared) : Prop where
  declared : d = s.declares
  placed : Placed.statement s
  single : node.rule ≠ .lexicalDeclaration → s.lexical = []

/-- A statement that declares nothing. -/
theorem Built.apart {node : Node Rule} {s : Statement} (placed : Placed.statement s)
    (declared : s.declares = .nothing) : Built node s .nothing :=
  ⟨declared.symm, placed, fun _ => congrArg Declared.lexical declared⟩

/-- Where there is to be a single statement, it declares no `let` or `const` names. -/
theorem Built.alone {node : Node Rule} {s : Statement} {d : Declared} (built : Built node s d)
    (single : node.rule ≠ .lexicalDeclaration) :
    d = s.declares ∧ Placed.statement s ∧ s.lexical = [] :=
  ⟨built.declared, built.placed, built.single single⟩

-- By recursion on the concrete tree, as the builders go: `proper` says how the children of a node
-- are arranged, and nodes of any other shape are never built from.
mutual

theorem buildExpression_makes (source : List Char) (node : Node Rule) (proper : Proper node) :
    Makes (buildExpression source node) Placed.expression := by
  unfold buildExpression
  split
  · exact .pure trivial
  · exact .pure trivial
  next span value => exact (literalValue_makes value).bind fun _ _ => .pure trivial
  next span children =>
    refine (buildExpressions_makes source children proper.2).bind fun parts made => ?_
    -- A list of one expression is that expression.
    split
    · exact .malformed _
    · exact .pure made.1
    · exact .pure made
  · exact buildExpression_makes source _ proper.2.1
  next span target operator value =>
    refine (buildExpression_makes source target proper.2.1).bind fun target' first => ?_
    refine (require_makes operator _).bind fun kind _ => ?_
    exact (buildExpression_makes source value proper.2.2.2.1).bind fun _ second =>
      .pure (And.intro first second)
  · exact buildExpression_makes source _ proper.2.1
  next span test consequent alternate =>
    refine (buildExpression_makes source test proper.2.1).bind fun _ first => ?_
    refine (buildExpression_makes source consequent proper.2.2.1).bind fun _ second => ?_
    refine (buildExpression_makes source alternate proper.2.2.2.1).bind fun _ third => ?_
    exact .pure (And.intro first (And.intro second third))
  next first rest =>
    exact (buildExpression_makes source first proper.2.1).bind fun e made =>
      buildLogical_makes source .or e made rest proper.2.2
  next first rest =>
    exact (buildExpression_makes source first proper.2.1).bind fun e made =>
      buildLogical_makes source .and e made rest proper.2.2
  next first rest =>
    exact (buildExpression_makes source first proper.2.1).bind
      fun e made => buildBinary_makes source e made rest proper.2.2
  · exact buildExpression_makes source _ proper.2.1
  next span operator argument =>
    refine (buildExpression_makes source argument proper.2.2.1).bind fun _ made => ?_
    split
    · exact .pure made
    · exact (require_makes operator _).bind fun _ _ => .pure made
  · exact buildExpression_makes source _ proper.2.1
  next span argument operator =>
    refine (buildExpression_makes source argument proper.2.1).bind fun _ made => ?_
    exact (require_makes operator _).bind fun _ _ => .pure made
  -- Calls and accesses are built outward from the object that comes first.
  next first tails =>
    exact (buildExpression_makes source first proper.2.1).bind
      fun e made => buildTails_makes source e made tails proper.2.2
  next first tails =>
    exact (buildExpression_makes source first proper.2.1).bind
      fun e made => buildTails_makes source e made tails proper.2.2
  next span callee _ arguments =>
    refine (buildExpression_makes source callee proper.2.1).bind fun _ first => ?_
    exact (buildExpressions_makes source arguments proper.2.2.1.2).bind
      fun _ second => .pure (And.intro first second)
  next span callee =>
    exact (buildExpression_makes source callee proper.2.1).bind fun _ made =>
      .pure (And.intro made trivial)
  · exact buildExpression_makes source _ proper.2.1
  next span slots => exact (buildSlots_makes source slots proper.2).bind fun _ made => .pure made
  next span properties =>
    exact (buildProperties_makes source properties proper.2).bind fun _ made => .pure made
  next span children =>
    exact (buildFunction_makes source span none [] children proper.2).bind fun _ made => .pure made
  · exact .malformed _
termination_by sizeOf node
decreasing_by
  all_goals
    subst_vars
    simp only [Node.branch.sizeOf_spec, List.cons.sizeOf_spec]
    omega

theorem buildExpressions_makes (source : List Char) (nodes : List (Node Rule))
    (proper : AllProper nodes) :
    Makes (buildExpressions source nodes) Placed.expressions := by
  unfold buildExpressions
  split
  · exact .pure trivial
  next node rest =>
    refine (buildExpression_makes source node proper.1).bind fun _ first => ?_
    exact (buildExpressions_makes source rest proper.2).bind fun _ others =>
      .pure (And.intro first others)
termination_by sizeOf nodes
decreasing_by
  all_goals
    subst_vars
    simp only [List.cons.sizeOf_spec]
    omega

theorem buildSlots_makes (source : List Char) (nodes : List (Node Rule))
    (proper : AllProper nodes) :
    Makes (buildSlots source nodes) Placed.slots := by
  unfold buildSlots
  split
  · exact .pure trivial
  · exact .pure trivial
  next rest _ =>
    exact (buildSlots_makes source rest proper.2).bind fun _ others =>
      .pure (And.intro trivial others)
  next element rest =>
    refine (buildExpression_makes source element proper.1.2.1).bind fun _ first => ?_
    exact (buildSlots_makes source rest proper.2).bind fun _ others =>
      .pure (And.intro first others)
  · exact .malformed _
termination_by sizeOf nodes
decreasing_by
  all_goals
    subst_vars
    simp only [Node.branch.sizeOf_spec, List.cons.sizeOf_spec]
    omega

theorem buildBinary_makes (source : List Char) (left : Expression) (made : Placed.expression left)
    (nodes : List (Node Rule)) (proper : AllProper nodes) :
    Makes (buildBinary source left nodes) Placed.expression := by
  unfold buildBinary
  split
  · exact .pure made
  · exact .malformed _
  next operator right rest =>
    refine (require_makes operator _).bind fun kind _ => ?_
    refine (buildExpression_makes source right proper.2.1).bind fun _ second => ?_
    refine buildBinary_makes source _ ?_ rest proper.2.2
    exact And.intro made second
termination_by sizeOf nodes
decreasing_by
  all_goals
    subst_vars
    simp only [List.cons.sizeOf_spec]
    omega

theorem buildLogical_makes (source : List Char) (operator : LogicalOperator) (left : Expression)
    (made : Placed.expression left) (nodes : List (Node Rule)) (proper : AllProper nodes) :
    Makes (buildLogical source operator left nodes) Placed.expression := by
  unfold buildLogical
  split
  · exact .pure made
  next right rest =>
    refine (buildExpression_makes source right proper.1).bind fun _ second => ?_
    refine buildLogical_makes source operator _ ?_ rest proper.2
    exact And.intro made second
termination_by sizeOf nodes
decreasing_by
  all_goals
    subst_vars
    simp only [List.cons.sizeOf_spec]
    omega

theorem buildTails_makes (source : List Char) (object : Expression)
    (made : Placed.expression object) (nodes : List (Node Rule)) (proper : AllProper nodes) :
    Makes (buildTails source object nodes) Placed.expression := by
  unfold buildTails
  split
  · exact .pure made
  next span arguments rest =>
    refine (buildExpressions_makes source arguments proper.1.2).bind fun _ others => ?_
    refine buildTails_makes source _ ?_ rest proper.2
    exact And.intro made others
  next span name rest =>
    refine buildTails_makes source _ ?_ rest proper.2
    exact made
  next span index rest =>
    refine (buildExpression_makes source index proper.1.2.1).bind fun _ second => ?_
    refine buildTails_makes source _ ?_ rest proper.2
    exact And.intro made second
  · exact .malformed _
termination_by sizeOf nodes
decreasing_by
  all_goals
    subst_vars
    simp only [Node.branch.sizeOf_spec, List.cons.sizeOf_spec]
    omega

theorem buildProperties_makes (source : List Char) (nodes : List (Node Rule))
    (proper : AllProper nodes) :
    Makes (buildProperties source nodes) Placed.properties := by
  unfold buildProperties
  split
  · exact .pure trivial
  next span key value rest =>
    refine (propertyKey_makes key).bind fun _ _ => ?_
    refine (buildExpression_makes source value proper.1.2.2.1).bind fun _ first => ?_
    exact (buildProperties_makes source rest proper.2).bind fun _ others =>
      .pure (And.intro first others)
  next span key bodySpan body rest =>
    have inside := buildStatements_yields source body proper.1.2.2.1.2
    refine (propertyKey_makes key).bind fun _ _ => ?_
    refine (buildCode_makes _ _ _ _ _ inside).bind fun _ first => ?_
    exact (buildProperties_makes source rest proper.2).bind fun _ others =>
      .pure (And.intro first others)
  next span key parameter bodySpan body rest =>
    have inside := buildStatements_yields source body proper.1.2.2.2.1.2
    refine (propertyKey_makes key).bind fun _ _ => ?_
    refine (buildCode_makes _ _ _ _ _ inside).bind fun _ first => ?_
    exact (buildProperties_makes source rest proper.2).bind fun _ others =>
      .pure (And.intro first others)
  · exact .malformed _
termination_by sizeOf nodes
decreasing_by
  all_goals
    subst_vars
    simp only [Node.branch.sizeOf_spec, List.cons.sizeOf_spec]
    omega

theorem buildFunction_makes (source : List Char) (span : Span) (id : Option Identifier)
    (parameters : List Identifier) (nodes : List (Node Rule)) (proper : AllProper nodes) :
    Makes (buildFunction source span id parameters nodes) Placed.function := by
  unfold buildFunction
  split
  -- The name and the parameters are set aside until the scope of the function is open.
  next rest => exact buildFunction_makes source span _ parameters rest proper.2
  next rest => exact buildFunction_makes source span id _ rest proper.2
  next bodySpan body _ =>
    exact buildCode_makes _ _ _ _ _ (buildStatements_yields source body proper.1.2)
  · exact .malformed _
  · exact .fail _ _
termination_by sizeOf nodes
decreasing_by
  all_goals
    subst_vars
    simp only [Node.branch.sizeOf_spec, List.cons.sizeOf_spec]
    omega

theorem buildStatement_yields (source : List Char) (node : Node Rule) (proper : Proper node) :
    Yields (buildStatement source node) (Built node) := by
  unfold buildStatement
  split
  next span children =>
    refine (buildFunction_makes source span none [] children proper.2).thenYields
      fun code made => ?_
    -- The declaration is recorded after its body was built, in the scope around it.
    refine (Yields.declareFunction code).bind fun _ d recorded => .pure ?_
    exact ⟨by rw [recorded, Declared.append_nothing]; rfl, made, fun _ => rfl⟩
  -- The one kind of node that may declare `let` and `const` names.
  next span kind declarators =>
    refine (require_makes kind _).thenYields fun kind' _ => ?_
    refine (buildDeclarators_yields source kind' declarators proper.2.2).thenMakes
      fun _ d made => .pure ?_
    exact ⟨made.1, made.2, fun other => absurd rfl other⟩
  next span declarators =>
    refine (buildDeclarators_yields source .var declarators proper.2).thenMakes
      fun parts d made => .pure ?_
    exact ⟨made.1, made.2, fun _ => declaredBy_var parts⟩
  next span body =>
    have inside := buildStatements_yields source body proper.2
    refine (buildBlock_yields span inside).thenMakes fun _ d made => .pure ?_
    exact ⟨made.1, made.2, fun _ => rfl⟩
  · exact .pure (.apart trivial rfl)
  · exact .pure (.apart trivial rfl)
  next span value =>
    exact (buildExpression_makes source value proper.2.1).thenYields
      fun _ made => .pure (.apart made rfl)
  next span test consequent =>
    have single := proper.1.single rfl consequent (by simp)
    refine (buildExpression_makes source test proper.2.1).thenYields fun _ first => ?_
    refine (buildStatement_yields source consequent proper.2.2.1).thenMakes
      fun _ d second => .pure ?_
    obtain ⟨rfl, second, none⟩ := second.alone single
    -- What the single statement declares goes on outward: `var` names and labelled functions.
    exact ⟨Declared.ext rfl (List.append_nil _).symm none (List.append_nil _).symm,
      And.intro first (And.intro (And.intro second none) trivial), fun _ => rfl⟩
  next span test consequent alternate =>
    refine (buildExpression_makes source test proper.2.1).thenYields fun _ first => ?_
    refine (buildStatement_yields source consequent proper.2.2.1).bind
      fun consequent' d second => ?_
    refine (buildStatement_yields source alternate proper.2.2.2.1).thenMakes
      fun alternate' more third => .pure ?_
    obtain ⟨rfl, second, none⟩ := second.alone (proper.1.single rfl consequent (by simp))
    obtain ⟨rfl, third, none'⟩ := third.alone (proper.1.single rfl alternate (by simp))
    have names : consequent'.lexical ++ alternate'.lexical = [] := by rw [none, none']; rfl
    exact ⟨Declared.ext rfl rfl names rfl,
      And.intro first (And.intro (And.intro second none) (And.intro third none')), fun _ => rfl⟩
  next span test body =>
    refine (buildExpression_makes source test proper.2.1).thenYields fun _ first => ?_
    refine (buildStatement_yields source body proper.2.2.1).thenMakes fun _ d second => .pure ?_
    obtain ⟨rfl, second', none⟩ := second.alone (proper.1.single rfl body (by simp))
    exact ⟨Declared.ext rfl rfl none rfl, And.intro first (And.intro second' none), fun _ => rfl⟩
  next span body test =>
    refine (buildStatement_yields source body proper.2.1).thenMakes fun _ d first => ?_
    refine (buildExpression_makes source test proper.2.2.1).bind fun _ second => .pure ?_
    obtain ⟨rfl, first', none⟩ := first.alone (proper.1.single rfl body (by simp))
    exact ⟨Declared.ext rfl rfl none rfl, And.intro second (And.intro first' none), fun _ => rfl⟩
  next span children =>
    have single : ∀ child ∈ children, child.rule ≠ .lexicalDeclaration := proper.1.single rfl
    -- The scope of the loop is only known when its parts are built, and it closes over the body.
    refine (Yields.inBlock (buildFor_yields source span none none none trivial trivial trivial
      children (.inl rfl) (proper.1.head rfl) single proper.2)).thenMakes
      fun (loop, scope) d made => .pure ?_
    obtain ⟨built, rfl⟩ := made
    obtain ⟨same, placed⟩ := built scope rfl
    exact ⟨same.1.symm, placed, fun _ => same.2⟩
  next span kind name right body =>
    have single := proper.1.single rfl body (by simp)
    refine (require_makes kind _).thenYields fun kind' _ => ?_
    -- The name and the body are in the scope of the loop, and so is the object that it goes over.
    have inside : Yields (do
        Build.declare (identifierOf name) (.declared kind')
        let right ← buildExpression source right
        let body ← buildStatement source body
        pure (right, body)) fun (right, body) d =>
          d = kind'.records (identifierOf name) ++ body.declares ∧ Placed.expression right ∧
            Placed.statement body ∧ body.lexical = [] := by
      refine (Yields.declare _ _).bind fun _ d named => ?_
      refine (buildExpression_makes source right proper.2.2.1).thenYields fun _ first => ?_
      refine (buildStatement_yields source body proper.2.2.2.1).thenMakes
        fun _ more second => .pure ?_
      obtain ⟨rfl, second'⟩ := second.alone single
      exact ⟨by rw [named], first, second'⟩
    refine (Yields.inBlock inside).thenMakes fun ((right, body), scope) d made => .pure ?_
    obtain ⟨⟨recorded, first, second⟩, rfl⟩ := made
    exact ⟨congrArg Declared.outward recorded,
      And.intro trivial (And.intro first (And.intro second recorded)), fun _ => rfl⟩
  next span target right body _ =>
    have single := proper.1.single rfl body (by simp)
    -- A target that is no declaration declares nothing, but the scope is there all the same.
    have inside : Yields (do
        let target ← buildExpression source target
        let right ← buildExpression source right
        let body ← buildStatement source body
        pure (target, right, body)) fun (target, right, body) d =>
          d = body.declares ∧ Placed.expression target ∧ Placed.expression right ∧
            Placed.statement body ∧ body.lexical = [] := by
      refine (buildExpression_makes source target proper.2.1).thenYields fun _ first => ?_
      refine (buildExpression_makes source right proper.2.2.1).thenYields fun _ second => ?_
      refine (buildStatement_yields source body proper.2.2.2.1).thenMakes fun _ d third => .pure ?_
      obtain ⟨rfl, third'⟩ := third.alone single
      exact ⟨rfl, first, second, third'⟩
    refine (Yields.inBlock inside).thenMakes fun ((target, right, body), scope) d made => .pure ?_
    obtain ⟨⟨recorded, first, second, third⟩, rfl⟩ := made
    exact ⟨congrArg Declared.outward recorded,
      And.intro first (And.intro second (And.intro third recorded)), fun _ => rfl⟩
  · exact .pure (.apart trivial rfl)
  · exact .pure (.apart trivial rfl)
  · exact .pure (.apart trivial rfl)
  next span argument =>
    exact (buildExpression_makes source argument proper.2.1).thenYields
      fun _ made => .pure (.apart made rfl)
  next span argument =>
    exact (buildExpression_makes source argument proper.2.1).thenYields
      fun _ made => .pure (.apart made rfl)
  next span discriminant clauses =>
    refine (buildExpression_makes source discriminant proper.2.1).thenYields fun _ first => ?_
    -- All clauses share one scope, which is opened behind the discriminant.
    refine (Yields.inBlock (buildClauses_yields source false clauses proper.2.2)).thenMakes
      fun (cases, scope) d made => .pure ?_
    obtain ⟨⟨recorded, others⟩, rfl⟩ := made
    exact ⟨congrArg Declared.outward recorded, And.intro first (And.intro recorded others),
      fun _ => rfl⟩
  next span blockSpan body clauses =>
    have inside := buildStatements_yields source body proper.2.1.2
    refine (buildBlock_yields blockSpan inside).bind fun block d first => ?_
    obtain ⟨rfl, first⟩ := first
    refine (buildHandlers_yields source none none trivial trivial clauses
      (proper.1.clauses rfl) proper.2.2).thenMakes ?_
    -- A `try` needs a handler or a finalizer.
    rintro ⟨handler, finalizer⟩ more ⟨recorded, others⟩
    simp only
    split
    · exact .fail _ _
    · refine .pure ⟨?_, And.intro first others, fun _ => rfl⟩
      rw [show more = _ from recorded]
      rfl
  next span label body =>
    refine (buildStatement_yields source body proper.2.2.1).thenMakes fun _ d made => .pure ?_
    obtain ⟨rfl, made', none⟩ := made.alone (proper.1.single rfl body (by simp))
    exact ⟨Declared.ext rfl rfl none rfl, And.intro made' none, fun _ => rfl⟩
  · exact .malformed _
termination_by sizeOf node
decreasing_by
  all_goals
    subst_vars
    simp only [Node.branch.sizeOf_spec, List.cons.sizeOf_spec]
    omega

theorem buildStatements_yields (source : List Char) (nodes : List (Node Rule))
    (proper : AllProper nodes) :
    Yields (buildStatements source nodes) fun statements d =>
      d = declares statements ∧ Placed.statements statements := by
  unfold buildStatements
  split
  · exact .pure (And.intro rfl trivial)
  next node rest =>
    refine (buildStatement_yields source node proper.1).bind fun _ d first => ?_
    refine (buildStatements_yields source rest proper.2).thenMakes fun _ more others => .pure ?_
    obtain ⟨rfl, first, -⟩ := first
    obtain ⟨rfl, others⟩ := others
    exact And.intro rfl (And.intro first others)
termination_by sizeOf nodes
decreasing_by
  all_goals
    subst_vars
    simp only [List.cons.sizeOf_spec]
    omega

theorem buildDeclarators_yields (source : List Char) (kind : DeclarationKind)
    (nodes : List (Node Rule)) (proper : AllProper nodes) :
    Yields (buildDeclarators source kind nodes) fun parts d =>
      d = declaresBy kind parts ∧ Placed.declarators parts := by
  unfold buildDeclarators
  split
  · exact .pure (And.intro rfl trivial)
  next span name rest =>
    refine (Yields.declare _ _).bind fun _ d named => ?_
    refine (buildDeclarators_yields source kind rest proper.2).thenMakes
      fun _ more others => .pure ?_
    obtain ⟨rfl, others⟩ := others
    exact And.intro (by rw [named]; rfl) (And.intro trivial others)
  next span name init rest =>
    -- The name is recorded before its initializer is built.
    refine (Yields.declare _ _).bind fun _ d named => ?_
    refine (buildExpression_makes source init proper.1.2.2.1).thenYields fun _ first => ?_
    refine (buildDeclarators_yields source kind rest proper.2).thenMakes
      fun _ more others => .pure ?_
    obtain ⟨rfl, others⟩ := others
    exact And.intro (by rw [named]; rfl) (And.intro first others)
  · exact .malformed _
termination_by sizeOf nodes
decreasing_by
  all_goals
    subst_vars
    simp only [Node.branch.sizeOf_spec, List.cons.sizeOf_spec]
    omega

/-- The parts of a loop with a head. -/
theorem buildFor_yields (source : List Char) (span : Span) (init : Option ForInit)
    (test update : Option Expression) (initMade : Placed.forInit init)
    (testMade : Placed.optional test) (updateMade : Placed.optional update)
    (nodes : List (Node Rule)) (first : init = none ∨ ∀ node ∈ nodes, node.rule ≠ .forInit)
    (later : ∀ node ∈ nodes.tail, node.rule ≠ .forInit)
    (single : ∀ node ∈ nodes, node.rule ≠ .lexicalDeclaration) (proper : AllProper nodes) :
    Yields (buildFor source span init test update nodes) fun loop d =>
      ∀ scope, scope.listed = declaresInHead init ++ d →
        ((loop scope).declares = scope.listed.outward ∧ (loop scope).lexical = []) ∧
          Placed.statement (loop scope) := by
  -- What follows the first part of a loop is no head.
  have others : ∀ {node : Node Rule} {rest : List (Node Rule)}, nodes = node :: rest →
      (∀ other ∈ rest, other.rule ≠ .forInit) ∧ (∀ other ∈ rest.tail, other.rule ≠ .forInit) ∧
        ∀ other ∈ rest, other.rule ≠ .lexicalDeclaration := by
    rintro node rest rfl
    exact ⟨later, fun other mem => later other (List.mem_of_mem_tail mem),
      fun other mem => single other (List.mem_cons_of_mem _ mem)⟩
  unfold buildFor
  split
  -- Only the first part can be a head, so nothing was built from one before.
  next span' kind declarators rest =>
    obtain ⟨noHead, later', single'⟩ := others rfl
    refine (require_makes kind _).thenYields fun kind' _ => ?_
    refine (buildDeclarators_yields source kind' declarators proper.1.2.1.2.2).bind
      fun parts d made => ?_
    have none : init = none := first.resolve_right fun noHead => noHead _ List.mem_cons_self rfl
    refine Yields.weaken (buildFor_yields source span _ test update (by exact made.2) testMade
      updateMade rest (.inr noHead) later' single' proper.2) fun loop more built => ?_
    rw [made.1, none]
    exact built
  next value rest _ =>
    obtain ⟨noHead, later', single'⟩ := others rfl
    refine (buildExpression_makes source value proper.1.2.1).thenYields fun _ made => ?_
    have none : init = none := first.resolve_right fun noHead => noHead _ List.mem_cons_self rfl
    refine Yields.weaken (buildFor_yields source span _ test update (by exact made) testMade
      updateMade rest (.inr noHead) later' single' proper.2) fun loop more built => ?_
    rw [none]
    exact built
  next value rest =>
    obtain ⟨noHead, later', single'⟩ := others rfl
    refine (buildExpression_makes source value proper.1.2.1).thenYields fun _ made => ?_
    exact buildFor_yields source span init _ update initMade (by exact made) updateMade rest
      (.inr noHead) later' single' proper.2
  next value rest =>
    obtain ⟨noHead, later', single'⟩ := others rfl
    refine (buildExpression_makes source value proper.1.2.1).thenYields fun _ made => ?_
    exact buildFor_yields source span init test _ initMade testMade (by exact made) rest
      (.inr noHead) later' single' proper.2
  · refine (buildStatement_yields source _ proper.1).thenMakes fun _ d made => .pure ?_
    obtain ⟨rfl, made'⟩ := made.alone (single _ List.mem_cons_self)
    intro scope listed
    exact ⟨⟨(congrArg Declared.outward listed).symm, rfl⟩, And.intro initMade (And.intro testMade
      (And.intro updateMade (And.intro made' listed)))⟩
  · exact .malformed _
  · exact .fail _ _
termination_by sizeOf nodes
decreasing_by
  all_goals
    subst_vars
    simp only [Node.branch.sizeOf_spec, List.cons.sizeOf_spec]
    omega

theorem buildClauses_yields (source : List Char) (hasDefault : Bool) (nodes : List (Node Rule))
    (proper : AllProper nodes) :
    Yields (buildClauses source hasDefault nodes) fun cases d =>
      d = declaresInCases cases ∧ Placed.cases cases := by
  unfold buildClauses
  split
  · exact .pure (And.intro rfl trivial)
  next span test body rest =>
    refine (buildExpression_makes source test proper.1.2.1.2.1).thenYields fun _ first => ?_
    refine (buildStatements_yields source body proper.1.2.2).bind fun _ d second => ?_
    refine (buildClauses_yields source hasDefault rest proper.2).thenMakes
      fun _ more others => .pure ?_
    obtain ⟨rfl, second⟩ := second
    obtain ⟨rfl, others⟩ := others
    exact And.intro rfl (And.intro first (And.intro second others))
  -- There may be only one default clause.
  next span headSpan _ body rest =>
    split
    · exact .fail _ _
    · refine (buildStatements_yields source body proper.1.2.2).bind fun _ d second => ?_
      refine (buildClauses_yields source true rest proper.2).thenMakes
        fun _ more others => .pure ?_
      obtain ⟨rfl, second⟩ := second
      obtain ⟨rfl, others⟩ := others
      exact And.intro rfl (And.intro trivial (And.intro second others))
  · exact .malformed _
termination_by sizeOf nodes
decreasing_by
  all_goals
    subst_vars
    simp only [Node.branch.sizeOf_spec, List.cons.sizeOf_spec]
    omega

/-- The clauses of a `try` behind those that have been built. -/
theorem buildHandlers_yields (source : List Char) (handler : Option Handler)
    (finalizer : Option Block) (handlerMade : Placed.handler handler)
    (finalizerMade : Placed.optionalBlock finalizer) (nodes : List (Node Rule))
    (order : (nodes.map Node.rule).Sublist (clausesAfter handler finalizer))
    (proper : AllProper nodes) :
    Yields (buildHandlers source handler finalizer nodes) fun (handler', finalizer') d =>
      declaresInClauses handler finalizer ++ d = declaresInClauses handler' finalizer' ∧
        Placed.handler handler' ∧ Placed.optionalBlock finalizer' := by
  unfold buildHandlers
  split
  · exact .pure (And.intro (Declared.append_nothing _) (And.intro handlerMade finalizerMade))
  next span parameter blockSpan body rest =>
    have inside := buildStatements_yields source body proper.1.2.2.1.2
    obtain ⟨rfl, rfl, later⟩ := catch_first order
    refine (buildBlock_yields blockSpan inside).bind fun block d made => ?_
    obtain ⟨rfl, made⟩ := made
    have passed : declaresInClauses none none ++ ⟨[], block.vars, [], []⟩ =
        declaresInClauses (some ⟨span, identifierOf parameter, block⟩) none :=
      Declared.ext rfl (by simp [declaresInClauses, varsInHandler, varsInFinalizer]) rfl rfl
    exact Yields.weaken (buildHandlers_yields source (some ⟨span, identifierOf parameter, block⟩)
      none made trivial rest later proper.2) fun _ more built =>
        And.intro (by rw [← built.1, ← passed, Declared.append_assoc]) built.2
  next blockSpan body rest =>
    have inside := buildStatements_yields source body proper.1.2.1.2
    obtain ⟨rfl, later⟩ := finally_first order
    refine (buildBlock_yields blockSpan inside).bind fun block d made => ?_
    obtain ⟨rfl, made⟩ := made
    have passed : declaresInClauses handler none ++ ⟨[], block.vars, [], []⟩ =
        declaresInClauses handler (some block) :=
      Declared.ext rfl (by simp [declaresInClauses, varsInFinalizer]) rfl rfl
    exact Yields.weaken (buildHandlers_yields source handler (some block) handlerMade made rest
      later proper.2) fun _ more built =>
        And.intro (by rw [← built.1, ← passed, Declared.append_assoc]) built.2
  · exact .malformed _
termination_by sizeOf nodes
decreasing_by
  all_goals
    subst_vars
    simp only [Node.branch.sizeOf_spec, List.cons.sizeOf_spec]
    omega

end

/-- Every scope of a script that was built lists what is declared in it. -/
theorem buildScript_placed (source : List Char) (forceStrict : Bool) {node : Node Rule}
    (proper : Proper node) : Makes (buildScript source forceStrict node) Placed.Script := by
  have inside := buildStatements_yields source node.children proper.children
  refine (Makes.inFunction _ inside).bind ?_
  exact fun (body, scope) built => .pure ⟨built.1, built.2⟩

end Script

end ScriptEngine
