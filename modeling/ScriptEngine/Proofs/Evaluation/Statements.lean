import ScriptEngine.Proofs.Evaluation.Endings

/-!
# Statements keep contracts

A statement that the static rules accept keeps every lawful contract that allows the functions in
it, and ends in a way that its context allows (`execute_keeps`). The induction follows the walk
over the tree; what is left of the labels around a statement shrinks by those of the statement.
-/
namespace ScriptEngine.Evaluate

open Evaluation Operation Contract

/-- The initial values in an accepted declaration are accepted. -/
theorem accepted_declarators {context : Check.Context} {kind : DeclarationKind} {d : Declarator}
    {rest : List Declarator} (accepted : Check.declarators context kind (d :: rest) = []) :
    (∀ init, d.init = some init → Check.expression context init = []) ∧
      Check.declarators context kind rest = [] := by
  obtain ⟨_, id, init⟩ := d
  cases init with
  | none =>
    simp only [Check.declarators, List.append_eq_nil_iff] at accepted
    refine ⟨fun _ eq => ?_, accepted.2⟩
    cases eq
  | some init =>
    simp only [Check.declarators, List.append_eq_nil_iff] at accepted
    exact ⟨fun _ eq => Option.some.inj eq ▸ accepted.1.2, accepted.2⟩

/-- What is not reported holds. -/
theorem of_unreported {holds : Bool} {problem : Problem} {span : Span}
    (accepted : (if holds then [] else Check.report problem span) = []) : holds = true := by
  cases holds with
  | false => cases accepted
  | true => rfl

theorem isLoop_of_continueTarget {context : Check.Context} {span : Span} {label : Identifier}
    (accepted : Check.continueTarget context span (some label) = []) :
    (context.labels.find? (·.name == label.name)).any (·.isLoop) = true := by
  unfold Check.continueTarget at accepted
  cases found : context.labels.find? (·.name == label.name) with
  | none =>
    simp only [found] at accepted
    cases accepted
  | some target =>
    simp only [found] at accepted
    exact of_unreported accepted

/-! ### Accepted statements -/

section

variable {C : Contract} (lawful : C.Lawful) (lenient : C.Lenient) {call : Caller}
  (calls : C.Calls call) {T : FunctionCode → Prop}
  (judged : ∀ {code : FunctionCode}, code.Judged → T code → C.code code) {context : Check.Context}

include lawful lenient calls judged

theorem runDeclarator_safe {kind : DeclarationKind} {d : Declarator}
    (accepted : ∀ init, d.init = some init → Check.expression context init = [])
    (tied : Scoped.optional d.init) (each : ∀ code ∈ Functions.optional d.init, T code) :
    C.Safe (runDeclarator call kind d) := by
  have inside : ∀ value, (d.init.map fun init => named d.id.name init (evaluate call init)) =
      some value → C.Safe value := by
    intro value eq
    cases eqInit : d.init with
    | none =>
      rw [eqInit] at eq
      cases eq
    | some init =>
      rw [eqInit] at eq tied each
      cases eq
      have clean := accepted init eqInit
      simp only [Scoped.optional] at tied
      exact namedScoped_safe lawful judged _ clean tied each
        (evaluateScoped_safe lawful calls judged init clean tied each)
  have initialized : ∀ value : Option (Evaluation Value), (∀ x, value = some x → C.Safe x) →
      C.Safe (do
        let value ← value.getD (return .undefined)
        initializeLexical (← askControl (·.lexical)) d.id.name value) := by
    intro value safe
    refine Safe.bind ?_ fun value => .askingControl fun env =>
      initializeLexical_safe lawful lenient env _ value
    cases value with
    | none => exact .pure trivial
    | some x => exact safe x rfl
  unfold runDeclarator
  generalize d.init.map _ = value at inside ⊢
  cases kind with
  | var =>
    cases value with
    | none => exact .pure trivial
    | some x =>
      refine (resolveHere_safe _).bind fun place => (inside x rfl).bind fun value => ?_
      exact putValue_safe lawful calls place value
  | «let» | const => exact initialized value inside

theorem runDeclaration_safe (span : Span) {kind : DeclarationKind} {parts : List Declarator}
    (accepted : Check.declarators context kind parts = []) (tied : Scoped.declarators parts)
    (each : ∀ code ∈ Functions.declarators parts, T code) :
    C.Safe (runDeclaration call ⟨span, kind, parts⟩) := by
  change C.Safe (parts.forM (runDeclarator call kind))
  induction parts with
  | nil => exact .pure trivial
  | cons d rest ih =>
    have tied : Scoped.optional d.init ∧ Scoped.declarators rest := by
      cases d
      simpa only [Scoped.declarators] using tied
    obtain ⟨here, others⟩ : (∀ code ∈ Functions.optional d.init, T code) ∧
        ∀ code ∈ Functions.declarators rest, T code := by
      cases d
      simpa only [Functions.declarators, List.forall_mem_append] using each
    obtain ⟨first, later⟩ := accepted_declarators accepted
    exact (runDeclarator_safe lawful lenient calls judged first tied.1 here).bind
      fun _ => ih later tied.2 others

omit lenient in
theorem selectCase_safe (value : Value) (index : Nat) (fallback : Option Nat) (cases : List Case)
    (accepted : Check.cases context cases = []) (tied : Scoped.cases cases)
    (each : ∀ code ∈ Functions.cases cases, T code) :
    C.Safe (selectCase call value index fallback cases) := by
  induction cases generalizing index fallback with
  | nil => exact .pure trivial
  | cons clause rest ih =>
    obtain ⟨_, test, body⟩ := clause
    simp only [Scoped.cases] at tied
    simp only [Functions.cases, List.forall_mem_append] at each
    cases test with
    | none =>
      simp only [Check.cases, List.append_eq_nil_iff] at accepted
      exact ih _ _ accepted.2 tied.2.2 each.2.2
    | some test =>
      simp only [Check.cases, List.append_eq_nil_iff] at accepted
      simp only [Scoped.optional] at tied
      have tested := evaluateScoped_safe lawful calls judged test accepted.1.1 tied.1 each.1
      refine tested.bind fun found => ?_
      split
      · exact .pure trivial
      · exact ih _ _ accepted.2 tied.2.2 each.2.2

theorem forLoop_keeps {P : Ending → Prop} {init : Option ForInit} (scope : Scope)
    {rounds : List String → Evaluation Ending}
    (accepted : (match init with
      | some (.declaration ⟨_, kind, parts⟩) => Check.declarators context kind parts
      | some (.expression value) => Check.expression context value
      | none => []) = [])
    (tied : Scoped.forInit init) (each : ∀ code ∈ Functions.forInit init, T code)
    (inside : ∀ names, C.Keeps (rounds names) P) :
    C.Keeps (forLoop call init scope rounds) P := by
  unfold forLoop
  split
  · exact inside _
  · simp only [Scoped.forInit] at tied
    exact (evaluateScoped_safe lawful calls judged _ accepted tied each).bind fun _ => inside _
  next d =>
    obtain ⟨span, kind, parts⟩ := d
    simp only [Scoped.forInit] at tied
    have declared := runDeclaration_safe lawful lenient calls judged span accepted tied each
    split
    · exact declared.bind fun _ => inside _
    · refine (openScopeHere_safe lawful).bind fun env => ?_
      refine (declareLexical_safe lawful lenient env scope).bind fun _ => lawful.withScope env ?_
      exact declared.bind fun _ => inside _

omit lenient in
theorem optional_safe {part : Option Expression}
    (accepted : (match part with
      | some e => Check.expression context e
      | none => []) = [])
    (tied : Scoped.optional part) (each : ∀ code ∈ Functions.optional part, T code)
    (x : Evaluation Value) (eq : part.map (evaluate call) = some x) : C.Safe x := by
  cases part with
  | none => cases eq
  | some e =>
    cases eq
    simp only [Scoped.optional] at tied
    exact evaluateScoped_safe lawful calls judged e accepted tied each

/-! ### Statements one by one -/

section

variable (bound : Nat) {labels : List String} {outer : List Check.Label}

omit lenient

theorem execute_expression_keeps {span : Span} {value : Expression}
    (accepted : Check.statement context (.expression span value) = [])
    (tied : Scoped.statement (.expression span value))
    (each : ∀ code ∈ Functions.statement (.expression span value), T code) :
    C.Keeps (execute call bound labels (.expression span value)) (Allowed context outer) := by
  simp only [Check.statement] at accepted
  simp only [Scoped.statement] at tied
  simp only [Functions.statement] at each
  unfold execute
  exact (evaluateScoped_safe lawful calls judged value accepted tied each).bind
    fun _ => .pure trivial

theorem execute_throws_keeps {span : Span} {value : Expression}
    (accepted : Check.statement context (.throws span value) = [])
    (tied : Scoped.statement (.throws span value))
    (each : ∀ code ∈ Functions.statement (.throws span value), T code) :
    C.Keeps (execute call bound labels (.throws span value)) (Allowed context outer) := by
  simp only [Check.statement] at accepted
  simp only [Scoped.statement] at tied
  simp only [Functions.statement] at each
  unfold execute
  exact (evaluateScoped_safe lawful calls judged value accepted tied each).bind
    fun _ => lawful.throw _

theorem execute_declaration_keeps (lenient : C.Lenient) {d : Declaration}
    (accepted : Check.statement context (.declaration d) = [])
    (tied : Scoped.statement (.declaration d))
    (each : ∀ code ∈ Functions.statement (.declaration d), T code) :
    C.Keeps (execute call bound labels (.declaration d)) (Allowed context outer) := by
  obtain ⟨span, kind, parts⟩ := d
  simp only [Check.statement] at accepted
  simp only [Scoped.statement] at tied
  simp only [Functions.statement] at each
  unfold execute
  exact (runDeclaration_safe lawful lenient calls judged span accepted tied each).bind
    fun _ => .pure trivial

/-- Only functions have a statement that returns. -/
theorem execute_returns_keeps {span : Span} {argument : Option Expression}
    (accepted : Check.statement context (.returns span argument) = [])
    (tied : Scoped.statement (.returns span argument))
    (each : ∀ code ∈ Functions.statement (.returns span argument), T code) :
    C.Keeps (execute call bound labels (.returns span argument)) (Allowed context outer) := by
  unfold Check.statement at accepted
  simp only [List.append_eq_nil_iff] at accepted
  simp only [Scoped.statement] at tied
  simp only [Functions.statement] at each
  have inFunction := of_unreported accepted.1
  cases argument with
  | none =>
    unfold execute
    exact .pure inFunction
  | some value =>
    simp only [Scoped.optional] at tied
    simp only [Functions.optional] at each
    unfold execute
    exact (evaluateScoped_safe lawful calls judged value accepted.2 tied each).bind
      fun _ => .pure inFunction

omit lawful calls judged in
theorem execute_breaks_keeps {span : Span} {label : Option Identifier}
    (accepted : Check.statement context (.breaks span label) = []) :
    C.Keeps (execute call bound labels (.breaks span label)) (Allowed context outer) := by
  simp only [Check.statement] at accepted
  unfold execute
  cases label <;> exact .pure (of_unreported accepted)

omit lawful calls judged in
theorem execute_continues_keeps {span : Span} {label : Option Identifier}
    (around : context.labels = labels.map (⟨·, false⟩) ++ outer)
    (accepted : Check.statement context (.continues span label) = []) :
    C.Keeps (execute call bound labels (.continues span label)) (Allowed context outer) := by
  simp only [Check.statement] at accepted
  unfold execute
  -- The rules look for the label among all labels around, those of this statement included.
  refine .pure (Allowed.outside around ?_)
  cases label with
  | none => exact of_unreported accepted
  | some label => exact isLoop_of_continueTarget accepted

/-- The clauses of a `switch` share one scope, which is entered before any test is evaluated. -/
theorem execute_select_keeps (lenient : C.Lenient) {span : Span} {discriminant : Expression}
    {clauses : List Case} {scope : Scope}
    (around : context.labels = labels.map (⟨·, false⟩) ++ outer)
    (accepted : Check.expression context discriminant = [])
    (admitted : Check.cases { context with inBreakable := true } clauses = [])
    (tied : Scoped.statement (.select span discriminant clauses scope))
    (each : ∀ code ∈ Functions.statement (.select span discriminant clauses scope), T code)
    (executed : ∀ skipped, C.Keeps (executeCases call bound skipped .undefined clauses)
      (Allowed { context with inBreakable := true } context.labels)) :
    C.Keeps (execute call bound labels (.select span discriminant clauses scope))
      (Allowed context outer) := by
  simp only [Scoped.statement] at tied
  simp only [Functions.statement, List.forall_mem_append] at each
  have functions : ∀ code ∈ scope.functions, C.code code := by
    intro code mem
    rw [tied.2.1] at mem
    exact judged (judged_of_mem_declaredInCases admitted tied.2.2 mem)
      (each.2 code (Functions.declaredInCases_subset clauses mem))
  unfold execute
  refine (evaluateScoped_safe lawful calls judged discriminant accepted tied.1 each.1).bind
    fun value => ?_
  -- Inside, a `break` without a label ends the switch; outside, it has ended.
  refine Keeps.bind (Q := Allowed { context with inBreakable := true } context.labels)
    (inBlock_keeps lawful lenient functions ?_)
    fun _ allowed => .pure (Allowed.outside around allowed.endBreak)
  have selected := selectCase_safe lawful calls judged value 0 none clauses admitted tied.2.2 each.2
  refine selected.bind fun found => ?_
  cases found with
  | none => exact .pure trivial
  | some entry => exact executed entry

theorem execute_while_keeps {span : Span} {test : Expression} {body : Statement}
    (around : context.labels = labels.map (⟨·, true⟩) ++ outer)
    (accepted : Check.expression context test = []) (tied : Scoped.expression test)
    (each : ∀ code ∈ Functions.expression test, T code)
    (inside : C.Keeps (execute call bound [] body) (Allowed context.loopBody context.labels)) :
    C.Keeps (execute call bound labels (.whileLoop span test body)) (Allowed context outer) := by
  have condition := evaluateScoped_safe lawful calls judged test accepted tied each
  unfold execute
  exact (whileLoop_keeps (Allowed.leaves around) bound condition inside).bind
    fun _ allowed => .pure allowed.endBreak

theorem execute_do_keeps {span : Span} {test : Expression} {body : Statement}
    (around : context.labels = labels.map (⟨·, true⟩) ++ outer)
    (accepted : Check.expression context test = []) (tied : Scoped.expression test)
    (each : ∀ code ∈ Functions.expression test, T code)
    (inside : C.Keeps (execute call bound [] body) (Allowed context.loopBody context.labels)) :
    C.Keeps (execute call bound labels (.doLoop span body test)) (Allowed context outer) := by
  have condition := evaluateScoped_safe lawful calls judged test accepted tied each
  unfold execute
  exact (doLoop_keeps (Allowed.leaves around) bound inside condition).bind
    fun _ allowed => .pure allowed.endBreak

theorem execute_for_keeps (lenient : C.Lenient) {span : Span} {init : Option ForInit}
    {test update : Option Expression} {body : Statement} {scope : Scope}
    (around : context.labels = labels.map (⟨·, true⟩) ++ outer)
    (accepted : Check.statement context (.forLoop span init test update body scope) = [])
    (tied : Scoped.statement (.forLoop span init test update body scope))
    (each : ∀ code ∈ Functions.statement (.forLoop span init test update body scope), T code)
    (inside : C.Keeps (execute call bound [] body) (Allowed context.loopBody context.labels)) :
    C.Keeps (execute call bound labels (.forLoop span init test update body scope))
      (Allowed context outer) := by
  unfold Check.statement at accepted
  simp only [List.append_eq_nil_iff] at accepted
  simp only [Scoped.statement] at tied
  simp only [Functions.statement, List.forall_mem_append] at each
  unfold execute
  refine Keeps.bind (Q := Allowed { context with inBreakable := true } outer)
    (forLoop_keeps lawful lenient calls judged scope accepted.1.1.1.2 tied.1 each.1
      fun names => ?_)
    fun _ allowed => .pure allowed.endBreak
  refine forRounds_keeps (Allowed.leaves around) lawful bound
    (nextScope_safe lawful lenient names) ?_ ?_ inside
  · exact optional_safe lawful calls judged accepted.1.1.2 tied.2.1 each.2.1
  · exact optional_safe lawful calls judged accepted.1.2 tied.2.2.1 each.2.2.1

theorem execute_forIn_keeps (lenient : C.Lenient) {span : Span} {left : ForTarget}
    {right : Expression} {body : Statement} {scope : Scope}
    (around : context.labels = labels.map (⟨·, true⟩) ++ outer)
    (accepted : Check.statement context (.forInLoop span left right body scope) = [])
    (tied : Scoped.statement (.forInLoop span left right body scope))
    (each : ∀ code ∈ Functions.statement (.forInLoop span left right body scope), T code)
    (inside : C.Keeps (execute call bound [] body) (Allowed context.loopBody context.labels)) :
    C.Keeps (execute call bound labels (.forInLoop span left right body scope))
      (Allowed context outer) := by
  unfold Check.statement at accepted
  simp only [List.append_eq_nil_iff] at accepted
  simp only [Scoped.statement] at tied
  simp only [Functions.statement, List.forall_mem_append] at each
  have first := evaluateScoped_safe lawful calls judged right accepted.1.2 tied.2.1 each.2.1
  have object := forInObject_safe lawful lenient left first
  have place : ∀ target, left = .expression target → C.Safe (reference call target) := by
    rintro target rfl
    obtain ⟨isPlace, clean⟩ := isReference_of_target accepted.1.1.2
    simp only [Scoped.forTarget] at tied
    exact referenceScoped_safe lawful calls judged target isPlace clean tied.1 each.1
  rw [execute_forIn]
  exact (forInLoop_keeps (Allowed.leaves around) lawful object
    (keyRound_keeps lawful lenient calls place inside)).bind fun _ allowed => .pure allowed.endBreak

end

/-! ### All statements -/

set_option linter.unusedSectionVars false in
mutual

/-- An accepted statement ends in a way that its context allows. Its own labels are those between
it and the labels outside. -/
theorem execute_keeps {context : Check.Context} (bound : Nat) (labels : List String)
    (outer : List Check.Label) (s : Statement)
    (around : context.labels = labels.map (⟨·, s.unlabelled.isLoop⟩) ++ outer)
    (accepted : Check.statement context s = []) (tied : Scoped.statement s)
    (each : ∀ code ∈ Functions.statement s, T code) :
    C.Keeps (execute call bound labels s) (Allowed context outer) := by
  match s with
  | .expression _ _ => exact execute_expression_keeps lawful calls judged bound accepted tied each
  | .block body =>
    simp only [Check.statement] at accepted
    simp only [Scoped.statement] at tied
    simp only [Functions.statement] at each
    unfold execute
    exact (executeBlock_keeps bound body accepted tied each).weaken
      fun _ => Allowed.outside around
  | .empty _ | .debugger _ | .function _ =>
    unfold execute
    exact .pure trivial
  | .declaration _ =>
    exact execute_declaration_keeps lawful calls judged bound lenient accepted tied each
  | .returns _ _ => exact execute_returns_keeps lawful calls judged bound accepted tied each
  | .breaks _ _ => exact execute_breaks_keeps bound accepted
  | .continues _ _ => exact execute_continues_keeps bound around accepted
  | .throws _ _ => exact execute_throws_keeps lawful calls judged bound accepted tied each
  | .labelled _ id body =>
    simp only [Check.statement, List.append_eq_nil_iff] at accepted
    simp only [Scoped.statement] at tied
    simp only [Functions.statement] at each
    -- The label is one more between the body and the labels outside.
    have inside := execute_keeps bound (id.name :: labels) outer body
      (congrArg (List.cons _) around) accepted.2 tied each
    unfold execute
    exact inside.bind fun _ allowed => .pure allowed.endLabelledBreak
  | .branch _ test consequent none =>
    unfold Check.statement at accepted
    simp only [List.append_eq_nil_iff] at accepted
    simp only [Scoped.statement] at tied
    simp only [Functions.statement, List.forall_mem_append] at each
    have first := evaluateScoped_safe lawful calls judged test accepted.1.1 tied.1 each.1
    have second := execute_keeps bound [] context.labels consequent rfl accepted.1.2 tied.2.1
      each.2.1
    -- A part of the statement has all labels around it outside, the labels of the statement too.
    have third : C.Keeps (pure (.normal none)) (Allowed context context.labels) := .pure trivial
    unfold execute
    exact (branch_keeps Allowed.stable first second third).weaken fun _ => Allowed.outside around
  | .branch _ test consequent (some alternate) =>
    unfold Check.statement at accepted
    simp only [List.append_eq_nil_iff] at accepted
    simp only [Scoped.statement, Scoped.alternative] at tied
    simp only [Functions.statement, Functions.alternative, List.forall_mem_append] at each
    have first := evaluateScoped_safe lawful calls judged test accepted.1.1 tied.1 each.1
    have second := execute_keeps bound [] context.labels consequent rfl accepted.1.2 tied.2.1
      each.2.1
    have third := execute_keeps bound [] context.labels alternate rfl accepted.2 tied.2.2 each.2.2
    unfold execute
    exact (branch_keeps Allowed.stable first second third).weaken fun _ => Allowed.outside around
  | .select _ discriminant clauses scope =>
    have tied' := tied
    have each' := each
    simp only [Check.statement, List.append_eq_nil_iff] at accepted
    simp only [Scoped.statement] at tied
    simp only [Functions.statement, List.forall_mem_append] at each
    exact execute_select_keeps lawful calls judged bound lenient around accepted.1.1
      accepted.2 tied' each' fun skipped =>
        executeCases_keeps bound skipped .undefined clauses accepted.2 tied.2.2 each.2
  | .attempt _ body handler finalizer =>
    unfold Check.statement at accepted
    simp only [List.append_eq_nil_iff] at accepted
    simp only [Scoped.statement] at tied
    simp only [Functions.statement, List.forall_mem_append] at each
    have attempted := executeBlock_keeps bound body accepted.1.1 tied.1 each.1
    have handled := executeHandler_keeps bound handler accepted.1.2 tied.2.1 each.2.1
    have finished := executeFinalizer_keeps bound finalizer accepted.2 tied.2.2 each.2.2
    unfold execute
    exact (tryStatement_keeps Allowed.stable attempted handled finished).weaken
      fun _ => Allowed.outside around
  | .whileLoop _ test body =>
    simp only [Check.statement, List.append_eq_nil_iff] at accepted
    simp only [Scoped.statement] at tied
    simp only [Functions.statement, List.forall_mem_append] at each
    -- The body sees the labels of the loop as targets of `continue`, and has none of its own.
    have inside : C.Keeps (execute call bound [] body) (Allowed context.loopBody context.labels) :=
      execute_keeps bound [] context.labels body rfl accepted.2 tied.2 each.2
    exact execute_while_keeps lawful calls judged bound around accepted.1 tied.1 each.1 inside
  | .doLoop _ body test =>
    simp only [Check.statement, List.append_eq_nil_iff] at accepted
    simp only [Scoped.statement] at tied
    simp only [Functions.statement, List.forall_mem_append] at each
    have inside : C.Keeps (execute call bound [] body) (Allowed context.loopBody context.labels) :=
      execute_keeps bound [] context.labels body rfl accepted.2 tied.2 each.2
    exact execute_do_keeps lawful calls judged bound around accepted.1 tied.1 each.1 inside
  | .forLoop _ _ _ _ body _ =>
    refine execute_for_keeps lawful calls judged bound lenient around accepted tied each ?_
    unfold Check.statement at accepted
    simp only [List.append_eq_nil_iff] at accepted
    simp only [Scoped.statement] at tied
    simp only [Functions.statement, List.forall_mem_append] at each
    exact execute_keeps bound [] context.labels body rfl accepted.2 tied.2.2.2.1 each.2.2.2
  | .forInLoop _ _ _ body _ =>
    refine execute_forIn_keeps lawful calls judged bound lenient around accepted tied each ?_
    unfold Check.statement at accepted
    simp only [List.append_eq_nil_iff] at accepted
    simp only [Scoped.statement] at tied
    simp only [Functions.statement, List.forall_mem_append] at each
    exact execute_keeps bound [] context.labels body rfl accepted.2 tied.2.2.1 each.2.2

theorem executeList_keeps {context : Check.Context} (bound : Nat) (last : Option Value)
    (statements : List Statement) (accepted : Check.statements context statements = [])
    (tied : Scoped.statements statements) (each : ∀ code ∈ Functions.statements statements, T code) :
    C.Keeps (executeList call bound last statements) (Allowed context context.labels) := by
  match statements with
  | [] =>
    unfold executeList
    exact .pure trivial
  | s :: rest =>
    simp only [Check.statements, List.append_eq_nil_iff] at accepted
    simp only [Scoped.statements] at tied
    simp only [Functions.statements, List.forall_mem_append] at each
    have first := execute_keeps bound [] context.labels s rfl accepted.1 tied.1 each.1
    unfold executeList
    exact thenNext_keeps Allowed.stable last first
      fun last => executeList_keeps bound last rest accepted.2 tied.2 each.2

theorem executeBlock_keeps {context : Check.Context} (bound : Nat) (block : Block)
    (accepted : Check.block context block = []) (tied : Scoped.block block)
    (each : ∀ code ∈ Functions.block block, T code) :
    C.Keeps (executeBlock call bound block) (Allowed context context.labels) := by
  match block with
  | ⟨_, body, scope⟩ =>
    simp only [Check.block, List.append_eq_nil_iff] at accepted
    simp only [Scoped.block] at tied
    simp only [Functions.block] at each
    have functions : ∀ code ∈ scope.functions, C.code code := by
      intro code mem
      rw [tied.1] at mem
      exact judged (judged_of_mem_declaredIn accepted.2 tied.2 mem)
        (each code (Functions.declaredIn_subset body mem))
    unfold executeBlock
    exact inBlock_keeps lawful lenient functions
      (executeList_keeps bound none body accepted.2 tied.2 each)

theorem executeCases_keeps {context : Check.Context} (bound : Nat) (skipped : Nat) (last : Value)
    (cases : List Case) (accepted : Check.cases context cases = []) (tied : Scoped.cases cases)
    (each : ∀ code ∈ Functions.cases cases, T code) :
    C.Keeps (executeCases call bound skipped last cases) (Allowed context context.labels) := by
  match cases with
  | [] =>
    unfold executeCases
    exact .pure trivial
  | ⟨_, test, body⟩ :: rest =>
    have parts := accepted_cases accepted
    simp only [Scoped.cases] at tied
    simp only [Functions.cases, List.forall_mem_append] at each
    unfold executeCases
    split
    · have first := executeList_keeps bound none body parts.1 tied.2.1 each.2.1
      exact fallThrough_keeps Allowed.stable last first
        fun last => executeCases_keeps bound 0 last rest parts.2 tied.2.2 each.2.2
    · exact executeCases_keeps bound (skipped - 1) last rest parts.2 tied.2.2 each.2.2

theorem executeHandler_keeps {context : Check.Context} (bound : Nat) (handler : Option Handler)
    (accepted : (match handler with
      | some ⟨_, parameter, body⟩ =>
        Check.catchParameter context parameter body ++ Check.block context body
      | none => []) = [])
    (tied : Scoped.handler handler) (each : ∀ code ∈ Functions.handler handler, T code) :
    ∀ handle, executeHandler call bound handler = some handle → ∀ raised, C.raised raised →
      C.Keeps (handle raised) (Allowed context context.labels) := by
  match handler with
  | none =>
    intro handle eq
    unfold executeHandler at eq
    cases eq
  | some ⟨_, parameter, body⟩ =>
    simp only [List.append_eq_nil_iff] at accepted
    simp only [Scoped.handler] at tied
    simp only [Functions.handler] at each
    have handled := executeBlock_keeps bound body accepted.2 tied each
    intro handle eq raised allowed
    unfold executeHandler at eq
    cases eq
    exact catchClause_keeps lawful parameter.name handled allowed

theorem executeFinalizer_keeps {context : Check.Context} (bound : Nat) (finalizer : Option Block)
    (accepted : (match finalizer with
      | some body => Check.block context body
      | none => []) = [])
    (tied : Scoped.optionalBlock finalizer)
    (each : ∀ code ∈ Functions.optionalBlock finalizer, T code) :
    ∀ final, executeFinalizer call bound finalizer = some final →
      C.Keeps final (Allowed context context.labels) := by
  match finalizer with
  | none =>
    intro final eq
    unfold executeFinalizer at eq
    cases eq
  | some body =>
    simp only [Scoped.optionalBlock] at tied
    simp only [Functions.optionalBlock] at each
    have finished := executeBlock_keeps bound body accepted tied each
    intro final eq
    unfold executeFinalizer at eq
    cases eq
    exact finished

end

end

end ScriptEngine.Evaluate
