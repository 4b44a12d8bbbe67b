import ScriptEngine.Proofs.Evaluation.Calls
import ScriptEngine.Proofs.Evaluation.Rounds
import ScriptEngine.Proofs.Evaluation.Statements

/-!
# Evaluation keeps names in order

An accepted and placed statement initializes the names that it declares in the scope around it, and
no other names from outside (`execute_initializes`). Since a scope lists what is declared in it, the
names of a list of statements are those that are due when the list is entered, and each statement
finds its own still waiting. The body of a loop declares no names in the scope around it, so it can
run any number of times.

The statements of a script or of a function run where the names of its scope are due. So a whole
script and a call initialize no names from outside, wherever they start, and keep every name in
order that is kept waiting.
-/
namespace ScriptEngine.Evaluate

/-! ## Statements -/

open Evaluation Operation Contract

/-- Any ending will do. -/
theorem Stable.any : Stable fun _ => True := ⟨fun _ => trivial, fun _ _ => trivial⟩

theorem Leaves.any (labels : List String) : Leaves labels (fun _ => True) fun _ => True :=
  ⟨fun _ => trivial, fun _ _ _ => trivial⟩

variable {names more : List LexicalName} {kept : Names} {past : List Event} {m : Machine}

/-! ### Parts of statements -/

theorem thenNext_initializes {statement : Evaluation Ending}
    {next : Option Value → Evaluation Ending} (last : Option Value)
    (first : Initializes statement names) (rest : ∀ last, Initializes (next last) more) :
    Initializes (thenNext last statement next) (names ++ more) := by
  refine first.bind fun ending => ?_
  split
  · exact rest _
  · exact .pure _

theorem fallThrough_initializes {clause : Evaluation Ending} {next : Value → Evaluation Ending}
    (last : Value) (first : Initializes clause names)
    (rest : ∀ last, Initializes (next last) more) :
    Initializes (fallThrough last clause next) (names ++ more) := by
  refine first.bind fun ending => ?_
  split
  · exact rest _
  · exact .pure _

theorem forInObject_initializes (left : ForTarget) {right : Evaluation Value}
    (inside : Initializes right []) : Initializes (forInObject left right) [] := by
  have scope : ∀ name, Initializes (do
      let env ← openScopeHere
      createLexical env name false
      withScope env right) [] := by
    refine fun name => ⟨fun {kept past m} store control _ => ?_⟩
    refine (openScopeHere_goes ordered_lawful store).bind
      fun env _ m₁ _ returns₁ store₁ opened => ?_
    -- The name is never initialized: it waits for as long as its environment can be seen.
    refine (createLexical_goes store₁ opened.2.declarative (opened.2.absent name) false).bind
      fun _ _ m₂ _ returns₂ store₂ _ => ?_
    exact withScope_goes inside store₂ (by rwa [returns₂, returns₁]) .nil
  unfold forInObject
  split
  · exact scope _
  · exact scope _
  · exact inside

theorem visitScope_initializes (name : String) (isConst : Bool) {body : Evaluation Ending}
    (inside : Initializes body []) (key : Value) :
    Initializes (visitScope name isConst body key) [] := by
  refine ⟨fun {kept past m} store control _ => ?_⟩
  refine (openScopeHere_goes ordered_lawful store).bind
    fun env _ m₁ _ returns₁ store₁ opened => ?_
  refine (createLexical_goes store₁ opened.2.declarative (opened.2.absent name) isConst).bind ?_
  rintro _ _ m₂ _ returns₂ store₂ ⟨rfl, waits, free⟩
  refine (initializeLexical_goes store₂ waits free key).bind fun _ _ m₃ _ returns₃ store₃ _ => ?_
  exact withScope_goes inside store₃ (by rwa [returns₃, returns₂, returns₁]) .nil

/-! ### Every statement -/

section

variable {call : Caller} (calls : ∀ kept, (ordered kept).Calls call) {context : Check.Context}

include calls

theorem evaluatePlaced_safe (e : Expression) (accepted : Check.expression context e = [])
    (placed : Placed.expression e) (kept : Names) : (ordered kept).Safe (evaluate call e) :=
  evaluate_safe ordered_lawful (calls kept) .mk e accepted (Placed.function_of_mem e placed)

theorem evaluate_initializes (e : Expression) (accepted : Check.expression context e = [])
    (placed : Placed.expression e) : Initializes (evaluate call e) names :=
  .of_safe (evaluatePlaced_safe calls e accepted placed)

/-- A `let` or `const` declarator initializes its name, after its value has been evaluated. -/
theorem runDeclarator_initializes {kind : DeclarationKind} {d : Declarator}
    (accepted : ∀ init, d.init = some init → Check.expression context init = [])
    (placed : Placed.optional d.init) :
    Initializes (runDeclarator call kind d) (kind.lexical d.id) := by
  -- The value is evaluated first, and the name waits meanwhile like any other.
  have inside : ∀ value, (d.init.map fun init => named d.id.name init (evaluate call init)) =
      some value → Initializes value [] := by
    intro value eq
    cases eqInit : d.init with
    | none =>
      rw [eqInit] at eq
      cases eq
    | some init =>
      rw [eqInit] at eq placed
      cases eq
      have clean := accepted init eqInit
      simp only [Placed.optional] at placed
      exact .of_safe fun kept =>
        named_safe ordered_lawful .mk _ clean (Placed.function_of_mem init placed)
          (evaluatePlaced_safe calls init clean placed kept)
  have initialized : ∀ {value : Option (Evaluation Value)} (l : LexicalName),
      l.name = d.id.name → (∀ x, value = some x → Initializes x []) → Initializes (do
        let value ← value.getD (return .undefined)
        initializeLexical (← askControl (·.lexical)) d.id.name value) [l] := by
    intro value l named inside
    refine Initializes.nil_bind ?_ fun value => ?_
    · cases value with
      | none => exact .pure _
      | some x => exact inside x rfl
    · refine ⟨fun {kept past m} store control due => ?_⟩
      refine (Goes.askControl (Q := fun env past' m' =>
        env = m.control.lexical ∧ past' = past ∧ m' = m) store ⟨rfl, rfl, rfl⟩).bind ?_
      rintro _ _ m' _ _ store' ⟨rfl, rfl, rfl⟩
      have waits := due.waiting l List.mem_cons_self
      have free := due.free l List.mem_cons_self
      rw [named] at waits free
      exact (initializeLexical_goes store' waits free value).weaken fun _ _ _ _ _ _ _ => trivial
  unfold runDeclarator
  generalize d.init.map _ = value at inside ⊢
  cases kind with
  | var =>
    cases value with
    | none => exact .pure _
    | some x =>
      refine .of_safe fun kept => (resolveHere_safe _).bind fun place => ?_
      refine ((inside x rfl).safe kept).bind fun value => ?_
      exact putValue_safe ordered_lawful (calls kept) place value
  | «let» | const => exact initialized ⟨d.id, _⟩ rfl inside

theorem runDeclaration_initializes (span : Span) {kind : DeclarationKind} {parts : List Declarator}
    (accepted : Check.declarators context kind parts = []) (placed : Placed.declarators parts) :
    Initializes (runDeclaration call ⟨span, kind, parts⟩) (declaredBy kind parts) := by
  change Initializes (parts.forM (runDeclarator call kind)) _
  induction parts with
  | nil => exact .pure _
  | cons d rest ih =>
    have placed : Placed.optional d.init ∧ Placed.declarators rest := by
      cases d
      simpa only [Placed.declarators] using placed
    obtain ⟨first, later⟩ := accepted_declarators accepted
    exact (runDeclarator_initializes calls first placed.1).bind fun _ => ih later placed.2

theorem selectCase_initializes (value : Value) (index : Nat) (fallback : Option Nat)
    (cases : List Case) (accepted : Check.cases context cases = []) (placed : Placed.cases cases) :
    Initializes (selectCase call value index fallback cases) [] := by
  induction cases generalizing index fallback with
  | nil => exact .pure _
  | cons clause rest ih =>
    obtain ⟨_, test, body⟩ := clause
    simp only [Placed.cases] at placed
    cases test with
    | none =>
      simp only [Check.cases, List.append_eq_nil_iff] at accepted
      exact ih _ _ accepted.2 placed.2.2
    | some test =>
      simp only [Check.cases, List.append_eq_nil_iff] at accepted
      simp only [Placed.optional] at placed
      refine (evaluate_initializes calls test accepted.1.1 placed.1).nil_bind fun found => ?_
      split
      · exact .pure _
      · exact ih _ _ accepted.2 placed.2.2

omit calls in
/-- The names of a head are those of its declarators, unless it declares `var` names. -/
theorem lexicalInHead_names (span : Span) {kind : DeclarationKind} (lexical : kind ≠ .var)
    (parts : List Declarator) :
    (lexicalInHead (some (.declaration ⟨span, kind, parts⟩))).map LexicalName.name =
      parts.map (·.id.name) := by
  induction parts with
  | nil => rfl
  | cons part rest ih =>
    simp only [lexicalInHead, declaredBy, List.flatMap_cons, List.map_append, List.map_cons] at ih ⊢
    rw [ih]
    cases kind with
    | var => exact absurd rfl lexical
    | «let» | const => rfl

/-- The head of a loop declares its names in an environment of its own. -/
theorem forLoop_initializes {init : Option ForInit} {scope : Scope}
    {rounds : List String → Evaluation Ending} (distinct : Distinct scope)
    (listed : scope.lexical = lexicalInHead init)
    (accepted : (match init with
      | some (.declaration ⟨_, kind, parts⟩) => Check.declarators context kind parts
      | some (.expression value) => Check.expression context value
      | none => []) = [])
    (placed : Placed.forInit init)
    (inside : ∀ names, names.Nodup → GoesOn (rounds names) names) :
    Initializes (forLoop call init scope rounds) [] := by
  have unnamed : Initializes (rounds []) [] := (inside [] .nil).initializes
  unfold forLoop
  split
  · exact unnamed
  · simp only [Placed.forInit] at placed
    exact (evaluate_initializes calls _ accepted placed).nil_bind fun _ => unnamed
  next d =>
    obtain ⟨span, kind, parts⟩ := d
    simp only [Placed.forInit] at placed
    have declared := runDeclaration_initializes calls span accepted placed
    split
    next isVar =>
      dsimp only at isVar
      subst isVar
      rw [declaredBy_var] at declared
      exact declared.nil_bind fun _ => unnamed
    next notVar =>
      dsimp only at notVar
      refine ⟨fun {kept past m} store control _ => ?_⟩
      refine (openScopeHere_goes ordered_lawful store).bind
        fun env _ m₁ _ returns₁ store₁ opened => ?_
      refine (declareLexical_goes distinct.lexical store₁ opened.2.declarative
        fun l _ => opened.2.absent l.name).bind fun _ _ m₂ _ returns₂ store₂ due => ?_
      rw [listed] at due
      have control₂ : (ordered kept).control m₂.control := returns₂ ▸ returns₁ ▸ control
      refine .bracket store₂ nofun id fun _ => ?_
      have here : ((Bracket.scope env).entered m₂).control.lexical = env :=
        lexical_withLexical control₂ env
      have control₃ := ordered_lawful.scopeEntered env control₂
      have names := lexicalInHead_names span notVar parts
      -- The declaration of the head runs before the first round.
      have goes := declared.goes (m := (Bracket.scope env).entered m₂) store₂ control₃
        (here.symm ▸ due.1)
      refine (goes.also fun _ after ran => runDeclaration_settles notVar ran ?_).bind ?_
      · intro part mem
        rw [here]
        have listed : part.id.name ∈ (lexicalInHead (some (.declaration ⟨span, kind, parts⟩))).map
            LexicalName.name := names ▸ List.mem_map_of_mem mem
        obtain ⟨l, mem, same⟩ := List.mem_map.1 listed
        obtain ⟨binding, found, permanent, -⟩ := store₂.1.bound_of_waits (due.1.waiting l mem)
        exact ⟨binding, same ▸ found, permanent⟩
      · rintro _ past₄ m₄ _ returns₄ store₄ ⟨-, settled⟩
        have control₄ : (ordered kept).control m₄.control := returns₄ ▸ control₃
        split
        · refine (inside _ (names ▸ due.1.distinct)).goes store₄ control₄ fun name mem => ?_
          obtain ⟨part, declared, rfl⟩ := List.mem_map.1 mem
          rw [returns₄]
          exact settled part declared
        · exact (inside [] .nil).goes store₄ control₄ nofun

theorem optionalPlaced_safe {part : Option Expression}
    (accepted : (match part with
      | some e => Check.expression context e
      | none => []) = [])
    (placed : Placed.optional part) (kept : Names) (x : Evaluation Value)
    (eq : part.map (evaluate call) = some x) : (ordered kept).Safe x := by
  cases part with
  | none => cases eq
  | some e =>
    cases eq
    simp only [Placed.optional] at placed
    exact evaluatePlaced_safe calls e accepted placed kept

/-! ### Statements one by one -/

section

variable (bound : Nat) {labels : List String} {span : Span}

theorem execute_expression_initializes {value : Expression}
    (accepted : Check.statement context (.expression span value) = [])
    (placed : Placed.statement (.expression span value)) :
    Initializes (execute call bound labels (.expression span value)) [] := by
  simp only [Check.statement] at accepted
  simp only [Placed.statement] at placed
  unfold execute
  exact (evaluate_initializes calls value accepted placed).nil_bind fun _ => .pure _

theorem execute_declaration_initializes {d : Declaration}
    (accepted : Check.statement context (.declaration d) = [])
    (placed : Placed.statement (.declaration d)) :
    Initializes (execute call bound labels (.declaration d)) (Statement.declaration d).lexical := by
  obtain ⟨span, kind, parts⟩ := d
  simp only [Check.statement] at accepted
  simp only [Placed.statement] at placed
  unfold execute
  exact (runDeclaration_initializes calls span accepted placed).bind_nil fun _ => .pure _

theorem execute_returns_initializes {argument : Option Expression}
    (accepted : Check.statement context (.returns span argument) = [])
    (placed : Placed.statement (.returns span argument)) :
    Initializes (execute call bound labels (.returns span argument)) [] := by
  unfold Check.statement at accepted
  simp only [List.append_eq_nil_iff] at accepted
  simp only [Placed.statement] at placed
  cases argument with
  | none =>
    unfold execute
    exact .pure _
  | some value =>
    simp only [Placed.optional] at placed
    unfold execute
    exact (evaluate_initializes calls value accepted.2 placed).nil_bind fun _ => .pure _

theorem execute_throws_initializes {value : Expression}
    (accepted : Check.statement context (.throws span value) = [])
    (placed : Placed.statement (.throws span value)) :
    Initializes (execute call bound labels (.throws span value)) [] := by
  simp only [Check.statement] at accepted
  simp only [Placed.statement] at placed
  have thrown := evaluatePlaced_safe calls value accepted placed
  unfold execute
  exact .of_safe fun kept => (thrown kept).bind fun _ => ordered_lawful.throw _

/-- The tests of the clauses are evaluated while all names of the `switch` wait. -/
theorem execute_select_initializes {discriminant : Expression} {clauses : List Case} {scope : Scope}
    (accepted : Check.statement context (.select span discriminant clauses scope) = [])
    (placed : Placed.statement (.select span discriminant clauses scope))
    (entered : ∀ entry, Initializes (executeCases call bound entry .undefined clauses)
      (lexicalInCases clauses)) :
    Initializes (execute call bound labels (.select span discriminant clauses scope)) [] := by
  simp only [Check.statement, List.append_eq_nil_iff] at accepted
  simp only [Placed.statement] at placed
  obtain ⟨first, listed, placed⟩ := placed
  have functions : ∀ code ∈ scope.functions, code.Sound := by
    intro code mem
    rw [Placed.functions_of_listed listed] at mem
    exact sound_of_mem_declaredInCases accepted.2 placed mem
  unfold execute
  refine (evaluate_initializes calls discriminant accepted.1.1 first).nil_bind fun value => ?_
  refine (inBlock_initializes (distinct_of_accepted accepted.1.2) functions
    ((selectCase_initializes calls value 0 none clauses accepted.2 placed).nil_bind
      fun found => ?_)).nil_bind fun _ => .pure _
  rw [Placed.lexical_of_listed listed]
  cases found with
  | none => exact .pure _
  | some entry => exact entered entry

/-! In a loop the body initializes nothing from outside, so one round is like another. -/

theorem execute_while_initializes {test : Expression} {body : Statement}
    (accepted : Check.expression context test = []) (placed : Placed.expression test)
    (inside : Initializes (execute call bound [] body) []) :
    Initializes (execute call bound labels (.whileLoop span test body)) [] := by
  have condition := evaluatePlaced_safe calls test accepted placed
  unfold execute
  exact .of_safe fun kept =>
    (whileLoop_keeps (Leaves.any labels) bound (condition kept) (inside.safe kept)).bind
      fun _ _ => .pure trivial

theorem execute_do_initializes {test : Expression} {body : Statement}
    (accepted : Check.expression context test = []) (placed : Placed.expression test)
    (inside : Initializes (execute call bound [] body) []) :
    Initializes (execute call bound labels (.doLoop span body test)) [] := by
  have condition := evaluatePlaced_safe calls test accepted placed
  unfold execute
  exact .of_safe fun kept =>
    (doLoop_keeps (Leaves.any labels) bound (inside.safe kept) (condition kept)).bind
      fun _ _ => .pure trivial

theorem execute_for_initializes {init : Option ForInit} {test update : Option Expression}
    {body : Statement} {scope : Scope}
    (accepted : Check.statement context (.forLoop span init test update body scope) = [])
    (placed : Placed.statement (.forLoop span init test update body scope))
    (inside : Initializes (execute call bound [] body) []) :
    Initializes (execute call bound labels (.forLoop span init test update body scope)) [] := by
  unfold Check.statement at accepted
  simp only [List.append_eq_nil_iff] at accepted
  simp only [Placed.statement] at placed
  obtain ⟨initPlaced, testPlaced, updatePlaced, ⟨-, single⟩, listed⟩ := placed
  have names : scope.lexical = lexicalInHead init := by
    rw [Placed.lexical_of_listed listed]
    simp [declaresInHead, Statement.declares, single]
  unfold execute
  refine (forLoop_initializes calls (distinct_of_accepted accepted.1.1.1.1) names
    accepted.1.1.1.2 initPlaced fun names distinct => ?_).nil_bind fun _ => .pure _
  exact forRounds_goesOn bound labels distinct
    (optionalPlaced_safe calls accepted.1.1.2 testPlaced)
    (optionalPlaced_safe calls accepted.1.2 updatePlaced) inside.safe

theorem execute_forIn_initializes {left : ForTarget} {right : Expression} {body : Statement}
    {scope : Scope} (accepted : Check.statement context (.forInLoop span left right body scope) = [])
    (placed : Placed.statement (.forInLoop span left right body scope))
    (inside : Initializes (execute call bound [] body) []) :
    Initializes (execute call bound labels (.forInLoop span left right body scope)) [] := by
  unfold Check.statement at accepted
  simp only [List.append_eq_nil_iff] at accepted
  simp only [Placed.statement] at placed
  obtain ⟨leftPlaced, rightPlaced, -, -⟩ := placed
  have object := forInObject_initializes left
    (evaluate_initializes calls right accepted.1.2 rightPlaced)
  unfold execute
  refine .of_safe fun kept => (forInLoop_keeps (Leaves.any labels) ordered_lawful
    (object.safe kept) fun key => ?_).bind fun _ _ => .pure trivial
  cases left with
  | declaration kind id =>
    cases kind with
    | var =>
      exact visitPlace_keeps ordered_lawful (calls kept) (resolveHere_safe id.name)
        (inside.safe kept) key
    | «let» | const => exact (visitScope_initializes id.name _ inside key).safe kept
  | expression place =>
    obtain ⟨isPlace, clean⟩ := isReference_of_target accepted.1.1.2
    simp only [Placed.forTarget] at leftPlaced
    exact visitPlace_keeps ordered_lawful (calls kept)
      (reference_safe ordered_lawful (calls kept) .mk place isPlace clean
        (Placed.function_of_mem place leftPlaced)) (inside.safe kept) key

end

/-! ### All statements -/

set_option linter.unusedSectionVars false in
mutual

/-- An accepted and placed statement initializes the names that it declares. -/
theorem execute_initializes {context : Check.Context} (bound : Nat) (labels : List String)
    (s : Statement) (accepted : Check.statement context s = []) (placed : Placed.statement s) :
    Initializes (execute call bound labels s) s.lexical := by
  match s with
  | .expression _ _ => exact execute_expression_initializes calls bound accepted placed
  | .block body =>
    simp only [Check.statement] at accepted
    simp only [Placed.statement] at placed
    unfold execute
    exact executeBlock_initializes bound body accepted placed
  | .empty _ | .debugger _ | .function _ | .breaks .. | .continues .. =>
    unfold execute
    exact .pure _
  | .declaration _ => exact execute_declaration_initializes calls bound accepted placed
  | .returns _ _ => exact execute_returns_initializes calls bound accepted placed
  | .throws _ _ => exact execute_throws_initializes calls bound accepted placed
  | .labelled _ id body =>
    simp only [Check.statement, List.append_eq_nil_iff] at accepted
    simp only [Placed.statement] at placed
    have inside := execute_initializes bound (id.name :: labels) body accepted.2 placed.1
    -- Nothing is declared directly under a label.
    rw [placed.2] at inside
    unfold execute
    exact inside.nil_bind fun _ => .pure _
  | .branch _ test consequent none =>
    unfold Check.statement at accepted
    simp only [List.append_eq_nil_iff] at accepted
    simp only [Placed.statement] at placed
    have condition := evaluatePlaced_safe calls test accepted.1.1 placed.1
    have inside := execute_initializes bound [] consequent accepted.1.2 placed.2.1.1
    rw [placed.2.1.2] at inside
    unfold execute
    exact .of_safe fun kept =>
      branch_keeps Stable.any (condition kept) (inside.safe kept) (.pure trivial)
  | .branch _ test consequent (some alternate) =>
    unfold Check.statement at accepted
    simp only [List.append_eq_nil_iff] at accepted
    simp only [Placed.statement, Placed.alternative] at placed
    have condition := evaluatePlaced_safe calls test accepted.1.1 placed.1
    have inside := execute_initializes bound [] consequent accepted.1.2 placed.2.1.1
    have otherwise := execute_initializes bound [] alternate accepted.2 placed.2.2.1
    rw [placed.2.1.2] at inside
    rw [placed.2.2.2] at otherwise
    unfold execute
    exact .of_safe fun kept =>
      branch_keeps Stable.any (condition kept) (inside.safe kept) (otherwise.safe kept)
  | .select _ discriminant clauses scope =>
    refine execute_select_initializes calls bound accepted placed fun entry => ?_
    simp only [Check.statement, List.append_eq_nil_iff] at accepted
    simp only [Placed.statement] at placed
    exact executeCases_initializes bound entry .undefined clauses accepted.2 placed.2.2
  | .attempt _ body handler finalizer =>
    unfold Check.statement at accepted
    simp only [List.append_eq_nil_iff] at accepted
    simp only [Placed.statement] at placed
    have attempted := executeBlock_initializes bound body accepted.1.1 placed.1
    have handled := executeHandler_safe bound handler accepted.1.2 placed.2.1
    have finished := executeFinalizer_safe bound finalizer accepted.2 placed.2.2
    -- Each block is safe wherever the one before was left, since it has its names in its own scope.
    unfold execute
    exact .of_safe fun kept =>
      tryStatement_keeps Stable.any (attempted.safe kept) (handled kept) (finished kept)
  | .whileLoop _ test body =>
    simp only [Check.statement, List.append_eq_nil_iff] at accepted
    simp only [Placed.statement] at placed
    have inside := execute_initializes bound [] body accepted.2 placed.2.1
    rw [placed.2.2] at inside
    exact execute_while_initializes calls bound accepted.1 placed.1 inside
  | .doLoop _ body test =>
    simp only [Check.statement, List.append_eq_nil_iff] at accepted
    simp only [Placed.statement] at placed
    have inside := execute_initializes bound [] body accepted.2 placed.2.1
    rw [placed.2.2] at inside
    exact execute_do_initializes calls bound accepted.1 placed.1 inside
  | .forLoop _ init test update body scope =>
    refine execute_for_initializes calls bound accepted placed ?_
    unfold Check.statement at accepted
    simp only [List.append_eq_nil_iff] at accepted
    simp only [Placed.statement] at placed
    obtain ⟨-, -, -, ⟨bodyPlaced, single⟩, -⟩ := placed
    have inside := execute_initializes bound [] body accepted.2 bodyPlaced
    rwa [single] at inside
  | .forInLoop _ left right body scope =>
    refine execute_forIn_initializes calls bound accepted placed ?_
    unfold Check.statement at accepted
    simp only [List.append_eq_nil_iff] at accepted
    simp only [Placed.statement] at placed
    obtain ⟨-, -, ⟨bodyPlaced, single⟩, -⟩ := placed
    have inside := execute_initializes bound [] body accepted.2 bodyPlaced
    rwa [single] at inside

/-- Each statement of a list initializes its own names, while those of the later ones wait. -/
theorem executeList_initializes {context : Check.Context} (bound : Nat) (last : Option Value)
    (statements : List Statement) (accepted : Check.statements context statements = [])
    (placed : Placed.statements statements) :
    Initializes (executeList call bound last statements) (lexicalIn statements) := by
  match statements with
  | [] =>
    unfold executeList
    exact .pure _
  | s :: rest =>
    simp only [Check.statements, List.append_eq_nil_iff] at accepted
    simp only [Placed.statements] at placed
    have first := execute_initializes bound [] s accepted.1 placed.1
    unfold executeList
    exact thenNext_initializes last first
      fun last => executeList_initializes bound last rest accepted.2 placed.2

theorem executeBlock_initializes {context : Check.Context} (bound : Nat) (block : Block)
    (accepted : Check.block context block = []) (placed : Placed.block block) :
    Initializes (executeBlock call bound block) [] := by
  match block with
  | ⟨_, body, scope⟩ =>
    simp only [Check.block, List.append_eq_nil_iff] at accepted
    simp only [Placed.block] at placed
    have functions : ∀ code ∈ scope.functions, code.Sound := by
      intro code mem
      rw [Placed.functions_of_listed placed.1] at mem
      exact sound_of_mem_declaredIn accepted.2 placed.2 mem
    have inside := executeList_initializes bound none body accepted.2 placed.2
    unfold executeBlock
    refine inBlock_initializes (distinct_of_accepted accepted.1) functions ?_
    rwa [Placed.lexical_of_listed placed.1]

/-- Clauses that are skipped leave their names waiting. -/
theorem executeCases_initializes {context : Check.Context} (bound : Nat) (skipped : Nat)
    (last : Value) (cases : List Case) (accepted : Check.cases context cases = [])
    (placed : Placed.cases cases) :
    Initializes (executeCases call bound skipped last cases) (lexicalInCases cases) := by
  match cases with
  | [] =>
    unfold executeCases
    exact .pure _
  | ⟨_, test, body⟩ :: rest =>
    have parts := accepted_cases accepted
    simp only [Placed.cases] at placed
    unfold executeCases
    split
    · have first := executeList_initializes bound none body parts.1 placed.2.1
      exact fallThrough_initializes last first
        fun last => executeCases_initializes bound 0 last rest parts.2 placed.2.2
    · exact (executeCases_initializes bound (skipped - 1) last rest parts.2 placed.2.2).sublist
        (List.sublist_append_right _ _)

theorem executeHandler_safe {context : Check.Context} (bound : Nat) (handler : Option Handler)
    (accepted : (match handler with
      | some ⟨_, parameter, body⟩ =>
        Check.catchParameter context parameter body ++ Check.block context body
      | none => []) = [])
    (placed : Placed.handler handler) (kept : Names) :
    ∀ handle, executeHandler call bound handler = some handle →
      ∀ raised, (ordered kept).raised raised → (ordered kept).Safe (handle raised) := by
  match handler with
  | none =>
    intro handle eq
    unfold executeHandler at eq
    cases eq
  | some ⟨_, parameter, body⟩ =>
    simp only [List.append_eq_nil_iff] at accepted
    simp only [Placed.handler] at placed
    have handled := executeBlock_initializes bound body accepted.2 placed
    intro handle eq raised allowed
    unfold executeHandler at eq
    cases eq
    exact catchClause_keeps ordered_lawful parameter.name (handled.safe kept) allowed

theorem executeFinalizer_safe {context : Check.Context} (bound : Nat) (finalizer : Option Block)
    (accepted : (match finalizer with
      | some body => Check.block context body
      | none => []) = [])
    (placed : Placed.optionalBlock finalizer) (kept : Names) :
    ∀ final, executeFinalizer call bound finalizer = some final → (ordered kept).Safe final := by
  match finalizer with
  | none =>
    intro final eq
    unfold executeFinalizer at eq
    cases eq
  | some body =>
    simp only [Placed.optionalBlock] at placed
    have finished := executeBlock_initializes bound body accepted placed
    intro final eq
    unfold executeFinalizer at eq
    cases eq
    exact finished.safe kept

end

end

end ScriptEngine.Evaluate

namespace ScriptEngine

/-! ## Scripts and calls -/

/-- The statements of a sound function are accepted, and so are the declarations of its scope. -/
theorem FunctionCode.Sound.parts {code : FunctionCode} (sound : code.Sound) :
    Check.declarations (.ofFunction code.strict) true code.scope = [] ∧
      Check.statements (.ofFunction code.strict) code.body = [] := by
  obtain ⟨accepted, -⟩ := sound
  cases code
  simp only [Check.function, List.append_eq_nil_iff] at accepted
  exact ⟨accepted.1.2, accepted.2⟩

theorem FunctionCode.Sound.of_mem {code inner : FunctionCode} (sound : code.Sound)
    (mem : inner ∈ code.scope.functions) : inner.Sound := by
  obtain ⟨listed, body⟩ := (Placed.function_iff code).1 sound.placed
  rw [Placed.functions_of_listed listed] at mem
  exact sound_of_mem_declaredIn sound.parts.2 body mem

theorem ScriptTree.Sound.parts {tree : ScriptTree} (sound : tree.Sound) :
    Check.declarations (.ofScript tree.scope.strict) true tree.scope = [] ∧
      Check.statements (.ofScript tree.scope.strict) tree.body = [] := by
  have accepted := sound.accepted
  simpa only [Check.script, List.append_eq_nil_iff] using accepted

theorem ScriptTree.Sound.of_mem {tree : ScriptTree} {code : FunctionCode} (sound : tree.Sound)
    (mem : code ∈ tree.scope.functions) : code.Sound := by
  rw [Placed.functions_of_listed sound.placed.listed] at mem
  exact sound_of_mem_declaredIn sound.parts.2 sound.placed.body mem

namespace Evaluate

open Evaluation Operation Contract

variable {kept : Names} {past : List Event} {m : Machine}

/-- Code whose names are due in the environment of a frame runs in the frame in order, also where
nothing else is running. -/
theorem withFrame_goes {α : Type} {x : Evaluation α} {names : List LexicalName} {frame : Frame}
    (inside : Initializes x names) (store : (ordered kept).store past m.store)
    (due : Due kept past frame.lexical names) :
    (ordered kept).Goes past m (withFrame frame x) fun _ _ _ => True :=
  .bracket store nofun id fun _ => inside.goes store (List.cons_ne_nil _ _) due

/-- The names of a function are due in the environment for its body. -/
theorem declareCall_goes (f : ObjectId) {code : FunctionCode} (sound : code.Sound)
    {env : EnvironmentId} (arguments : List Value) (store : (ordered kept).store past m.store)
    (unbound : m.store.Unbound env) :
    (ordered kept).Goes past m (declareCall f code env arguments) fun env past' _ =>
      Due kept past' env code.scope.lexical := by
  have lawful : (ordered kept).anywhere.Lawful := ordered_lawful.anywhere
  have declared := declareVariables_goes lawful f code arguments store trivial unbound
  refine (declared.refines anywhere_refines).bind fun _ past' m' _ _ store' _ => ?_
  exact declareInside_goes (distinct_of_accepted sound.parts.1) (fun _ mem => sound.of_mem mem)
    store' env false

section

variable {call : Caller} (calls : ∀ kept, (ordered kept).Calls call) (bound : Nat)

include calls

theorem executeOutermost_initializes {context : Check.Context} {s : Statement}
    (accepted : Check.statement context s = []) (placed : Placed.statement s) :
    Initializes (executeOutermost call bound s) s.lexical := by
  unfold executeOutermost
  split
  next e =>
    simp only [Check.statement] at accepted
    simp only [Placed.statement] at placed
    split
    next isPlace =>
      refine .of_safe fun kept => Safe.bind ?_ fun _ => .pure trivial
      exact reference_safe ordered_lawful (calls kept) .mk e isPlace accepted
        (Placed.function_of_mem e placed)
    · exact (evaluate_initializes calls e accepted placed).nil_bind fun _ => .pure _
  · refine (execute_initializes calls bound [] s accepted placed).bind_nil fun ending => ?_
    split <;> exact .pure _

theorem executeScript_initializes {context : Check.Context} {statements : List Statement}
    (accepted : Check.statements context statements = []) (placed : Placed.statements statements)
    (last : Option Remainder) :
    Initializes (executeScript call bound last statements) (lexicalIn statements) := by
  induction statements generalizing last with
  | nil => exact .pure _
  | cons s rest ih =>
    simp only [Check.statements, List.append_eq_nil_iff] at accepted
    simp only [Placed.statements] at placed
    have read : Initializes (readRemainder call last) [] :=
      .of_safe fun kept => readRemainder_safe ordered_lawful (calls kept) last
    refine read.nil_bind fun last => ?_
    refine (executeOutermost_initializes calls bound accepted.1 placed.1).bind fun ending => ?_
    split
    · exact ih accepted.2 placed.2 _
    · exact .pure _

theorem runScript_ordered {tree : ScriptTree} (sound : tree.Sound) (env : EnvironmentId)
    (kept : Names) : (ordered kept).anywhere.Safe (runScript call bound tree env) := by
  have lawful : (ordered kept).anywhere.Lawful := ordered_lawful.anywhere
  have statements := executeScript_initializes calls bound sound.parts.2 sound.placed.body none
  rw [show lexicalIn tree.body = _ from (Placed.lexical_of_listed sound.placed.listed).symm]
    at statements
  have body : (ordered kept).anywhere.Safe (do
      let lexical ← declareScript env tree.scope
      withFrame ⟨lexical, env, .object WellKnown.globalObject, tree.scope.strict, none⟩
        (executeScript call bound none tree.body)) := by
    intro past m store _
    have entered := declareScript_goes (distinct_of_accepted sound.parts.1)
      (fun _ mem => sound.of_mem mem) store env
    refine (entered.bind fun lexical past' m' _ _ store' due => ?_).refines refines_anywhere
    exact withFrame_goes statements store' due
  refine body.attempt.bind fun result _ => ?_
  cases result with
  | ok ending =>
    dsimp only
    split
    · exact .pure trivial
    · exact .raise trivial
  | error raised => exact (caught_safe lawful trivial).bind fun _ => .pure trivial

theorem runFunction_ordered (f : ObjectId) {code : FunctionCode} (sound : code.Sound)
    (closure : EnvironmentId) (receiver : Value) (arguments : List Value) (kept : Names) :
    (ordered kept).anywhere.Safe
      (runFunction call bound f code closure receiver arguments) := by
  have lawful : (ordered kept).anywhere.Lawful := ordered_lawful.anywhere
  obtain ⟨listed, placed⟩ := (Placed.function_iff code).1 sound.placed
  have statements := executeList_initializes calls bound none code.body sound.parts.2 placed
  rw [show lexicalIn code.body = _ from (Placed.lexical_of_listed listed).symm] at statements
  refine (receiverFor_safe lawful code.strict receiver).bind fun receiver past m store _ => ?_
  refine (lawful.opened store (some closure)).bind ?_
  rintro env past₁ m₁ _ _ store₁ ⟨-, unbound⟩
  refine Goes.bind (Q := fun _ _ _ => True) ?_ fun ending past₂ m₂ _ _ store₂ _ => ?_
  -- The frame of the function has an environment without names to begin with.
  · refine Goes.refines refines_anywhere (.bracket store₁ nofun id fun _ => ?_)
    refine (declareCall_goes (m := (Bracket.frame _).entered m₁) f sound arguments store₁
      unbound).bind fun lexical _ _ _ returns store' due => ?_
    exact withScope_goes statements store' (returns ▸ List.cons_ne_nil _ _) due
  · cases ending with
    | normal | returns => exact .pure store₂ trivial
    | throws | breaks | continues => exact .raise store₂ trivial

end

/-- Calls keep names in order under any limit, wherever they are made. -/
theorem invoke_ordered (bound remaining : Nat) (kept : Names) :
    (ordered kept).anywhere.Calls (invoke bound remaining) := by
  induction remaining generalizing kept with
  | zero => exact fun f receiver arguments => ordered_lawful.anywhere.fail _
  | succ remaining ih =>
    have lawful : (ordered kept).anywhere.Lawful := ordered_lawful.anywhere
    have calls : ∀ kept, (ordered kept).Calls (invoke bound remaining) :=
      fun kept f receiver arguments => (ih kept f receiver arguments).here
    intro f receiver arguments
    refine lawful.enteringCall ?_
    -- The induction is on the number of calls that there is room for; a function that is called was
    -- sound when it was made.
    refine Keeps.bind (Q := fun kind => ∀ code closure, kind = .script code closure → code.Sound)
      (.ask fun _ _ store _ _ kind => store.1.sound kind) fun kind sound => ?_
    cases kind with
    | script code closure =>
      exact runFunction_ordered calls bound f (sound code closure rfl) closure receiver arguments
        kept
    | native code =>
      have keep : Services.Keep (ordered kept).anywhere
          ⟨invoke bound remaining, runScript (invoke bound remaining) bound⟩ :=
        ⟨ih kept, fun constructed env =>
          runScript_ordered calls bound constructed.accepted.sound env kept⟩
      exact Library.perform_safe lawful keep (fun _ _ => trivial) receiver arguments
    | _ => exact failAsking_keeps lawful _ _

end Evaluate

end ScriptEngine
