import ScriptEngine.Evaluate.Statement
import ScriptEngine.Proofs.Evaluation.Binding
import ScriptEngine.Proofs.Evaluation.Operations
import ScriptEngine.Proofs.Store.Bindings

/-!
# Making functions and declaring names

Functions come into being in two ways: where an expression with one is evaluated, and where a
scope that lists them is entered. Both keep a lawful contract that allows the code of the function.
A scope may declare a function more than once, and then the last declaration counts: the functions
that a script declares are the last ones of their names (`mem_lastOfEach_iff`).

Entering a scope also declares its `let` and `const` names. Names that differ and are not there yet
are all declared, without a value (`declareLexicalNames_run`). That names are declared and
initialized is noted, so it can be found among the moments of a run (`declareLexical_notes`,
`runDeclarator_notes`).
-/
namespace ScriptEngine

/-! ### Functions of the same name -/

/-- The function is the last one of its name among some functions. -/
def LastNamed (functions : List FunctionCode) (code : FunctionCode) : Prop :=
  ∃ before after, functions = before ++ code :: after ∧ code.name ∉ after.map FunctionCode.name

variable {functions rest : List FunctionCode} {first code : FunctionCode}

theorem LastNamed.mem (last : LastNamed functions code) : code ∈ functions := by
  obtain ⟨before, after, rfl, -⟩ := last
  exact List.mem_append_right _ List.mem_cons_self

theorem lastNamed_cons_iff :
    LastNamed (first :: rest) code ↔
      LastNamed rest code ∨ (code = first ∧ first.name ∉ rest.map FunctionCode.name) := by
  constructor
  · rintro ⟨before, after, eq, unrepeated⟩
    cases before with
    | nil =>
      cases eq
      exact .inr ⟨rfl, unrepeated⟩
    | cons _ before =>
      cases eq
      exact .inl ⟨before, after, rfl, unrepeated⟩
  · rintro (⟨before, after, rfl, unrepeated⟩ | ⟨rfl, unrepeated⟩)
    · exact ⟨first :: before, after, rfl, unrepeated⟩
    · exact ⟨[], rest, rfl, unrepeated⟩

/-- Of the functions with a name one is the last. -/
theorem exists_lastNamed (mem : code ∈ functions) :
    ∃ last, LastNamed functions last ∧ last.name = code.name := by
  induction functions generalizing code with
  | nil => cases mem
  | cons first rest ih =>
    by_cases repeated : code.name ∈ rest.map FunctionCode.name
    -- A later one of the name is found first.
    · obtain ⟨later, mem', same⟩ := List.mem_map.1 repeated
      obtain ⟨last, named, eq⟩ := ih mem'
      exact ⟨last, lastNamed_cons_iff.2 (.inl named), eq.trans same⟩
    · rcases List.mem_cons.1 mem with rfl | mem
      · exact ⟨code, lastNamed_cons_iff.2 (.inr ⟨rfl, repeated⟩), rfl⟩
      · exact absurd (List.mem_map_of_mem mem) repeated

namespace Evaluate

/-- The functions without those that have the name of a later one. -/
def withoutRepeated : List FunctionCode → List FunctionCode
  | [] => []
  | code :: rest =>
    let kept := withoutRepeated rest
    if kept.any (·.name == code.name) then kept else code :: kept

theorem lastOfEach_eq (functions : List FunctionCode) :
    lastOfEach functions = (withoutRepeated functions).reverse := by
  -- The functions are gone through from the back, and what is kept is collected in that order.
  have folded : withoutRepeated functions = functions.foldr (fun code kept =>
      if kept.any (·.name == code.name) then kept else code :: kept) [] := by
    induction functions with
    | nil => rfl
    | cons code rest ih => rw [withoutRepeated, List.foldr_cons, ih]
  rw [lastOfEach, List.foldl_reverse, folded]

/-- No name is lost. -/
theorem mem_names_withoutRepeated_iff {name : String} :
    name ∈ (withoutRepeated functions).map FunctionCode.name ↔
      name ∈ functions.map FunctionCode.name := by
  induction functions generalizing name with
  | nil => rfl
  | cons code rest ih =>
    rw [withoutRepeated]
    split
    -- One that is left out has its name again behind it.
    next repeated =>
      have there : code.name ∈ rest.map FunctionCode.name := by
        rw [← ih]
        simpa using repeated
      rw [ih, List.map_cons, List.mem_cons]
      exact ⟨.inr, fun mem => mem.elim (fun same => same ▸ there) id⟩
    · simp only [List.map_cons, List.mem_cons, ih]

theorem any_withoutRepeated_iff :
    (withoutRepeated rest).any (·.name == first.name) = true ↔
      first.name ∈ rest.map FunctionCode.name := by
  rw [← mem_names_withoutRepeated_iff]
  simp

theorem mem_withoutRepeated_iff :
    code ∈ withoutRepeated functions ↔ LastNamed functions code := by
  induction functions with
  | nil => exact ⟨nofun, fun last => absurd last.mem List.not_mem_nil⟩
  | cons first rest ih =>
    rw [withoutRepeated, lastNamed_cons_iff, ← ih, ← any_withoutRepeated_iff]
    split
    next repeated => simp [repeated]
    next unrepeated => simp [unrepeated, or_comm]

/-- A script declares the last functions of all names. -/
theorem mem_lastOfEach_iff : code ∈ lastOfEach functions ↔ LastNamed functions code := by
  rw [lastOfEach_eq, List.mem_reverse, mem_withoutRepeated_iff]

/-- It declares no name twice. -/
theorem nodup_lastOfEach (functions : List FunctionCode) :
    ((lastOfEach functions).map FunctionCode.name).Nodup := by
  rw [lastOfEach_eq, List.map_reverse]
  refine List.pairwise_reverse.2 (List.Pairwise.imp Ne.symm ?_)
  change ((withoutRepeated functions).map FunctionCode.name).Nodup
  induction functions with
  | nil => exact List.nodup_nil
  | cons code rest ih =>
    rw [withoutRepeated]
    split
    · exact ih
    next unrepeated =>
      rw [any_withoutRepeated_iff, ← mem_names_withoutRepeated_iff] at unrepeated
      exact List.nodup_cons.2 ⟨unrepeated, ih⟩

/-- The last one of all is declared first. -/
theorem head?_lastOfEach (functions : List FunctionCode) :
    (lastOfEach functions).head? = functions.getLast? := by
  rw [lastOfEach_eq, List.head?_reverse]
  induction functions with
  | nil => rfl
  | cons code rest ih =>
    rw [withoutRepeated]
    cases rest with
    | nil => rfl
    -- Whether or not the first one is kept, the last one is among the others.
    | cons next rest =>
      split
      · rw [ih, List.getLast?_cons_cons]
      · rw [List.getLast?_cons, ih, List.getLast?_cons_cons]
        simp [List.getLast?_cons]

end Evaluate

end ScriptEngine

namespace ScriptEngine.Evaluate

open Evaluation Operation Contract

variable {C : Contract} (lawful : C.Lawful)

include lawful

/-! ### Functions -/

omit lawful in
theorem kind_newDeclared (code : FunctionCode) (env : EnvironmentId) (m : Machine) :
    (((newDeclared code env).run m).2.store.object ⟨m.store.objects.size⟩).kind =
      .script code env := by
  -- What is added and defined afterwards leaves the function one.
  refine ((Store.Step.allocate _ _ (Object.wellFormed_of_not_array rfl)).reaches.trans
    (Store.Step.define _ _ _ _).reaches).kind_script ?_
  exact congrArg Object.kind ((m.store.object_allocate _ _).trans (if_pos rfl))

omit lawful in
/-- A declared function is a new object with its code, and no environment has changed. -/
theorem newDeclared_makes (code : FunctionCode) (env : EnvironmentId) (m : Machine) :
    ∃ f after, (newDeclared code env).run m = (.value f, after) ∧
      after.store.environments = m.store.environments ∧
      (after.store.object f).kind = .script code env :=
  ⟨_, _, rfl, rfl, kind_newDeclared code env m⟩

/-- Making a function is no event for any name. -/
theorem newFunction_goes {past : List Event} {m : Machine} (store : C.store past m.store)
    {code : FunctionCode} (allowed : C.code code) (env : EnvironmentId) (name : String) :
    C.Goes past m (newFunction code env name) fun _ past' m' =>
      past' = past ∧ m'.store.environments = m.store.environments := by
  have made : C.Permits past m.store (m.store.allocate
      { kind := .script code env
        prototype := some WellKnown.functionPrototype
        properties := functionProperties name code.parameters.length }).2 :=
    lawful.script rfl allowed
  have goes : C.Goes past m (newFunction code env name) fun _ past' _ => past' = past := by
    refine (Goes.step (Q := fun _ past' _ => past' = past) store made rfl).bind ?_
    rintro f past m₁ _ _ store₁ rfl
    refine (lawful.allocated store₁ _ rfl).bind ?_
    rintro prototype past m₂ _ _ store₂ rfl
    refine (Goes.step (Q := fun _ past' _ => past' = past) store₂
      (lawful.permits_define f "prototype" _ m₂.store) rfl).bind ?_
    rintro _ past m₃ _ _ store₃ rfl
    exact .pure store₃ rfl
  -- Only objects are added, as the run shows.
  refine (goes.ran rfl).weaken ?_
  rintro _ _ _ _ _ _ ⟨same, -, rfl⟩
  exact ⟨same, rfl⟩

theorem newFunction_safe {code : FunctionCode} (allowed : C.code code) (env : EnvironmentId)
    (name : String) : C.Safe (newFunction code env name) :=
  fun _ _ store _ => (newFunction_goes lawful store allowed env name).weaken
    fun _ _ _ _ _ _ _ => trivial

theorem newDeclared_safe {code : FunctionCode} (allowed : C.code code) (env : EnvironmentId) :
    C.Safe (newDeclared code env) := newFunction_safe lawful allowed env code.name

theorem openScope_safe (outer : EnvironmentId) : C.Safe (openScope outer) :=
  lawful.openEnvironment _

theorem openScopeHere_safe : C.Safe openScopeHere :=
  .askingControl fun env => openScope_safe lawful env

/-- A scope that is opened has no names yet. -/
theorem openScopeHere_goes {past : List Event} {m : Machine} (store : C.store past m.store) :
    C.Goes past m openScopeHere fun env past' m' => past' = past ∧ m'.store.Unbound env := by
  refine (Goes.askControl (Q := fun _ past' m' => past' = past ∧ m' = m) store ⟨rfl, rfl⟩).bind ?_
  rintro outer _ _ _ _ _ ⟨rfl, rfl⟩
  exact lawful.opened store _

theorem functionExpression_safe {code : FunctionCode} (allowed : C.code code) (place : String) :
    C.Safe (functionExpression code place) := by
  unfold functionExpression
  split
  · exact .askingControl fun env => newFunction_safe lawful allowed env place
  next id _ =>
    intro past m store control
    refine (openScopeHere_goes lawful store).bind ?_
    rintro env past m₁ _ _ store₁ ⟨rfl, unbound⟩
    refine (newFunction_goes lawful store₁ allowed env id.name).bind ?_
    rintro f past m₂ _ _ store₂ ⟨rfl, same⟩
    -- The function gets its name in an environment that has nothing else.
    have absent := (unbound.of_environments same).hasBinding id.name
    have introduced := lawful.introduced_goes store₂ absent (.constant false) rfl (.object f)
    have both := introduced.bind fun _ _ _ _ _ store _ =>
      Goes.pure (Q := fun (_ : ObjectId) _ _ => True) (a := f) store trivial
    rwa [bind_assoc] at both

theorem newArguments_safe (f : ObjectId) (arguments : List Value) (strict : Bool) :
    C.Safe (newArguments f arguments strict) := by
  unfold newArguments
  exact lawful.allocate _ rfl

theorem newError_safe (cause : Cause) : C.Safe (newError cause) := lawful.allocate _ rfl

/-- A script may see all that is raised but faults, which go on. -/
theorem caught_safe {raised : Raised} (allowed : C.raised raised) : C.Safe (caught raised) := by
  cases raised with
  | thrown value => exact .pure trivial
  | error cause => exact (newError_safe lawful cause).bind fun _ => .pure trivial
  | fault fault => exact .raise allowed

/-! ### Names -/

theorem declareLexical_safe (lenient : C.Lenient) (env : EnvironmentId) (scope : Scope) :
    C.Safe (declareLexical env scope) :=
  .forM fun lexical _ => createLexical_safe lawful lenient env lexical.name lexical.isConst

/-- What is declared only if it is not there yet meets no binding. -/
private theorem ifAbsent_safe (env : EnvironmentId) (deletable : Bool) (name : String)
    (value : Value) {f : Bool → Evaluation Unit} (absent : f false = declare env name deletable value)
    (there : C.Safe (f true)) : C.Safe (hasBinding env name >>= f) := by
  intro past m store control
  refine (Goes.ask (Q := fun bound past' m' =>
    bound = m.store.hasBinding env name ∧ past' = past ∧ m' = m) store ⟨rfl, rfl, rfl⟩).bind ?_
  rintro bound _ _ _ _ _ ⟨eq, rfl, rfl⟩
  cases bound with
  | true => exact there _ _ store control
  -- The answer is about this very store, so the name is free when it is declared.
  | false =>
    rw [absent]
    exact declare_goes lawful store control eq.symm deletable value

theorem declareOnce_safe (env : EnvironmentId) (deletable : Bool) (name : String) :
    C.Safe (declareOnce env deletable name) :=
  ifAbsent_safe lawful env deletable name .undefined rfl (.pure trivial)

theorem bindFunction_safe (env : EnvironmentId) (deletable : Bool) (name : String) (f : ObjectId) :
    C.Safe (bindFunction env deletable name f) :=
  ifAbsent_safe lawful env deletable name (.object f) rfl
    (setBinding_safe lawful env name _ false)

theorem lexicalScope_safe (lenient : C.Lenient) (varScope : EnvironmentId) (scope : Scope) :
    C.Safe (lexicalScope varScope scope) := by
  unfold lexicalScope
  split
  · exact .pure trivial
  · refine (openScope_safe lawful varScope).bind fun env => ?_
    exact (declareLexical_safe lawful lenient env scope).bind fun _ => .pure trivial

theorem declareFunctions_safe (varScope env : EnvironmentId) (deletable : Bool) {scope : Scope}
    (allowed : ∀ code ∈ scope.functions, C.code code) :
    C.Safe (declareFunctions varScope env deletable scope) := by
  refine .forM fun code mem => ?_
  exact (newDeclared_safe lawful (allowed code mem) env).bind
    fun f => bindFunction_safe lawful varScope deletable code.name f

theorem declareInside_safe (lenient : C.Lenient) (varScope : EnvironmentId) (deletable : Bool)
    {scope : Scope} (allowed : ∀ code ∈ scope.functions, C.code code) :
    C.Safe (declareInside varScope deletable scope) := by
  refine (lexicalScope_safe lawful lenient varScope scope).bind fun lexical => ?_
  exact (declareFunctions_safe lawful varScope lexical deletable allowed).bind
    fun _ => .pure trivial

theorem declareBlock_safe (lenient : C.Lenient) (env : EnvironmentId) {scope : Scope}
    (allowed : ∀ code ∈ scope.functions, C.code code) : C.Safe (declareBlock env scope) := by
  refine (declareLexical_safe lawful lenient env scope).bind fun _ => .forM fun code mem => ?_
  refine (newDeclared_safe lawful (allowed code mem) env).bind fun f => ?_
  refine (hasBinding_safe env code.name).bind fun bound => ?_
  have initialized := setInitialBinding_safe lawful lenient env code.name (.object f)
  split
  · exact (createMutable_safe lawful lenient env code.name false).bind fun _ => initialized
  · exact initialized

theorem inBlock_keeps (lenient : C.Lenient) {α : Type} {x : Evaluation α} {Q : α → Prop}
    {scope : Scope} (allowed : ∀ code ∈ scope.functions, C.code code) (inside : C.Keeps x Q) :
    C.Keeps (inBlock scope x) Q := by
  unfold inBlock
  split
  · refine (openScopeHere_safe lawful).bind fun env => ?_
    exact (declareBlock_safe lawful lenient env allowed).bind fun _ => lawful.withScope env inside
  · exact inside

/-! ### Calls -/

theorem assignParameters_safe (env : EnvironmentId) (parameters : List Identifier)
    (arguments : List Value) : C.Safe (assignParameters env parameters arguments) := by
  induction parameters generalizing arguments with
  | nil => exact .pure trivial
  | cons parameter rest ih =>
    exact (setBinding_safe lawful env parameter.name _ false).bind fun _ => ih arguments.tail

/-- A function that is called finds an environment without names. Its parameters are declared
first, and the object of its arguments only if no parameter has that name. -/
theorem declareVariables_goes (f : ObjectId) (code : FunctionCode) {env : EnvironmentId}
    (arguments : List Value) {past : List Event} {m : Machine} (store : C.store past m.store)
    (control : C.control m.control) (unbound : m.store.Unbound env) :
    C.Goes past m (declareVariables f code env arguments) fun _ _ _ => True := by
  unfold declareVariables
  extract_lets varNames fromParameters
  -- `varNames` and `fromParameters` are what follows the two points where branches meet again.
  have varNamesSafe : ∀ done, C.Safe (varNames done) := fun _ =>
    .forM fun name _ => declareOnce_safe lawful env false name
  have fromParametersGoes : ∀ {past m} object, C.store past m.store → C.control m.control →
      m.store.Unbound env → (object.isSome = true → bindsArguments code = true) →
      C.Goes past m (fromParameters object) fun _ _ _ => True := by
    intro past m object store control unbound binds
    have declares : C.Safe
        (code.parameters.forM fun parameter => declareOnce env false parameter.name) :=
      .forM fun parameter _ => declareOnce_safe lawful env false _
    obtain ⟨m₁', run₁, writes₁⟩ :=
      declareParameters_run unbound.declarative code.parameters
    refine ((declares past m store control).ran run₁).bind ?_
    rintro _ past₁ m₁ _ returns₁ store₁ ⟨-, -, rfl⟩
    have declarative₁ := writes₁.declarative unbound.declarative
    obtain ⟨m₂', run₂, writes₂⟩ := assignParameters_run declarative₁ code.parameters arguments
      fun parameter _ => writes₁.writable _ (unbound.writable _)
    refine ((assignParameters_safe lawful env code.parameters arguments past₁ m₁ store₁
      (returns₁ ▸ control)).ran run₂).bind ?_
    rintro _ past₂ m₂ _ returns₂ store₂ ⟨-, -, rfl⟩
    have control₂ : C.control m₂.control := returns₂ ▸ returns₁ ▸ control
    split
    -- Parameters have been declared by then, and none of them has the name of the object.
    next object =>
      have absent : m₂.store.hasBinding env "arguments" = false := by
        have free := parameter_ne_of_bindsArguments (binds rfl)
        rw [(writes₂.declarative declarative₁).hasBinding_eq_false_iff,
          (writes₁.trans writes₂).others env "arguments" fun _ => free]
        exact unbound.absent _
      have bound : ∀ {make : Evaluation Unit}, C.Goes past₂ m₂ make (fun _ past' m' =>
            past' = past₂ ∧ Introduces env "arguments" m₂.store m'.store) →
          C.Goes past₂ m₂ (make >>= fun _ =>
            setInitialBinding env "arguments" (.object object) >>= varNames)
            fun _ _ _ => True := by
        intro make made
        rw [← bind_assoc]
        exact (introduced_goes lawful store₂ control₂ made (.object object)).bind
          fun _ past' m' _ returns store' _ =>
            varNamesSafe () past' m' store' (returns ▸ control₂)
      split
      · exact bound (createImmutable_introduces lawful store₂ absent false)
      · exact bound (createMutable_introduces lawful store₂ absent false)
    · exact varNamesSafe () past₂ m₂ store₂ control₂
  split
  next binds =>
    have made : C.Safe (some <$> newArguments f arguments code.strict) :=
      (newArguments_safe lawful f arguments code.strict).map
    obtain ⟨object, m₁', run, same⟩ := newArguments_run f arguments code.strict m
    refine ((made past m store control).ran run).bind ?_
    rintro _ past₁ m₁ _ returns₁ store₁ ⟨-, rfl, rfl⟩
    exact fromParametersGoes (some object) store₁ (returns₁ ▸ control)
      (unbound.of_environments same) fun _ => binds
  · exact fromParametersGoes none store control unbound nofun

theorem declareCall_of_unbound (lenient : C.Lenient) (f : ObjectId) {code : FunctionCode}
    {env : EnvironmentId} (arguments : List Value)
    (allowed : ∀ code' ∈ code.scope.functions, C.code code') {past : List Event} {m : Machine}
    (store : C.store past m.store) (control : C.control m.control)
    (unbound : m.store.Unbound env) :
    C.Goes past m (declareCall f code env arguments) fun _ _ _ => True :=
  (declareVariables_goes lawful f code arguments store control unbound).bind
    fun _ past' m' _ returns store' _ =>
      declareInside_safe lawful lenient env false allowed past' m' store' (returns ▸ control)

/-! ### Scripts -/

/-- The checks of a script that runs in the global environment. -/
def checkGlobals (scope : Scope) : Evaluation Unit := do
  scope.lexical.forM fun lexical => do
    if (← hasBinding WellKnown.globalEnvironment lexical.name) || (← isRestricted lexical.name) then
      fail (.alreadyDeclared lexical.name)
  failOnDeclared WellKnown.globalEnvironment
    (scope.varNames ++ scope.functions.map FunctionCode.name)
  (lastOfEach scope.functions).forM checkGlobalFunction

/-- The functions and `var` names of a script that runs in the global environment. -/
def createGlobals (scope : Scope) : Evaluation Unit := do
  (lastOfEach scope.functions).forM (declareGlobalFunction WellKnown.globalEnvironment)
  scope.varNames.forM declareGlobalVariable

omit lawful in
/-- All conflicts are found before the first name is declared, and `let` and `const` names come
last. -/
theorem declareGlobal_eq (scope : Scope) :
    declareGlobal WellKnown.globalEnvironment scope = (do
      checkGlobals scope
      createGlobals scope
      declareLexical WellKnown.globalEnvironment scope) := by
  simp only [declareGlobal, checkGlobals, createGlobals, bind_assoc]

theorem declareGlobalFunction_safe (env : EnvironmentId) {code : FunctionCode}
    (allowed : C.code code) : C.Safe (declareGlobalFunction env code) := by
  refine (newDeclared_safe lawful allowed env).bind fun f => .asking fun reconfigurable => ?_
  exact defineOrFail_safe lawful _ _ _

theorem declareGlobalVariable_safe (lenient : C.Lenient) (name : String) :
    C.Safe (declareGlobalVariable name) := by
  refine .asking fun present => ?_
  split
  · exact createMutable_safe lawful lenient _ name false
  · exact .pure trivial

theorem failOnDeclared_safe (env : EnvironmentId) (names : List String) :
    C.Safe (failOnDeclared env names) := by
  refine .forM fun name _ => (hasBinding_safe env name).bind fun bound => ?_
  split
  · exact lawful.fail _
  · exact .pure trivial

theorem checkGlobalFunction_safe (code : FunctionCode) : C.Safe (checkGlobalFunction code) := by
  refine .asking fun declarable => ?_
  split
  · exact lawful.fail _
  · exact .pure trivial

theorem checkGlobals_safe (scope : Scope) : C.Safe (checkGlobals scope) := by
  refine Safe.bind (.forM fun lexical _ => ?_) fun _ => ?_
  · refine (hasBinding_safe _ lexical.name).bind fun bound => .asking fun restricted => ?_
    split
    · exact lawful.fail _
    · exact .pure trivial
  · refine (failOnDeclared_safe lawful _ _).bind fun _ => ?_
    exact .forM fun code _ => checkGlobalFunction_safe lawful code

theorem createGlobals_safe {scope : Scope} (allowed : ∀ code ∈ scope.functions, C.code code)
    (varName : ∀ name, C.Safe (declareGlobalVariable name)) : C.Safe (createGlobals scope) :=
  Safe.bind
    (.forM fun code mem =>
      declareGlobalFunction_safe lawful _ (allowed code (mem_lastOfEach_iff.1 mem).mem))
    fun _ => .forM fun name _ => varName name

theorem declareGlobal_safe (lenient : C.Lenient) {scope : Scope}
    (allowed : ∀ code ∈ scope.functions, C.code code) :
    C.Safe (declareGlobal WellKnown.globalEnvironment scope) := by
  rw [declareGlobal_eq]
  refine (checkGlobals_safe lawful scope).bind fun _ => ?_
  refine (createGlobals_safe lawful allowed (declareGlobalVariable_safe lawful lenient)).bind
    fun _ => ?_
  exact declareLexical_safe lawful lenient _ scope

theorem declareScoped_safe (lenient : C.Lenient) (env : EnvironmentId) {scope : Scope}
    (allowed : ∀ code ∈ scope.functions, C.code code) : C.Safe (declareScoped env scope) :=
  Safe.bind (.forM fun name _ => declareOnce_safe lawful env true name)
    fun _ => declareInside_safe lawful lenient env true allowed

theorem declareScript_safe (lenient : C.Lenient) (env : EnvironmentId) {scope : Scope}
    (allowed : ∀ code ∈ scope.functions, C.code code) : C.Safe (declareScript env scope) := by
  unfold declareScript
  split
  next global =>
    subst global
    exact (declareGlobal_safe lawful lenient allowed).bind fun _ => .pure trivial
  · exact declareScoped_safe lawful lenient env allowed

end ScriptEngine.Evaluate

namespace ScriptEngine.Evaluate

open Evaluation Operation

/-! ### Lexical names -/

/-- Declares one `let` or `const` name. -/
def declareLexicalName (env : EnvironmentId) (l : LexicalName) : Evaluation Unit :=
  createLexical env l.name l.isConst

/-- Names that differ and are not there yet are all declared, and every object and every other
binding stays as it is. -/
theorem declareLexicalNames_run {env : EnvironmentId} {names : List LexicalName} {m : Machine}
    (declarative : m.store.Declarative env) (distinct : (names.map LexicalName.name).Nodup)
    (absent : ∀ l ∈ names, m.store.binding? env l.name = none) :
    ∃ after, (names.forM (declareLexicalName env)).run m = (.value (), after) ∧
      after.store.objects = m.store.objects ∧
      (∀ l ∈ names, after.store.binding? env l.name = some (lexicalBinding l.isConst)) ∧
      ∀ id key, (id = env → key ∉ names.map LexicalName.name) →
        after.store.binding? id key = m.store.binding? id key := by
  induction names generalizing m with
  | nil => exact ⟨m, rfl, rfl, nofun, fun _ _ _ => rfl⟩
  | cons l rest ih =>
    obtain ⟨different, distinct⟩ := List.nodup_cons.1 distinct
    obtain ⟨first, others⟩ := List.forall_mem_cons.1 absent
    have run : (declareLexicalName env l).run m = _ := createLexical_run declarative first l.isConst
    have bindings := declarative.binding?_withBinding l.name (lexicalBinding l.isConst)
    have absent' : ∀ l' ∈ rest,
        (m.store.withBinding env l.name (lexicalBinding l.isConst)).binding? env l'.name = none := by
      intro l' mem
      have other : l'.name ≠ l.name := fun eq => different (eq ▸ List.mem_map_of_mem mem)
      simpa [bindings, other] using others l' mem
    obtain ⟨after, run', objects, declared, kept⟩ :=
      ih (m := { m with store := m.store.withBinding env l.name (lexicalBinding l.isConst) })
        (declarative.withBinding l.name _ declarative) distinct absent'
    have both : ((l :: rest).forM (declareLexicalName env)).run m = (.value (), after) := by
      change (declareLexicalName env l >>= fun _ => rest.forM (declareLexicalName env)).run m = _
      rw [run_bind, run, andThen_value, run']
    refine ⟨after, both, objects.trans (m.store.objects_withBinding env l.name _),
      List.forall_mem_cons.2 ⟨?_, declared⟩, fun id key other => ?_⟩
    -- The rest of the names leaves the first one alone.
    · rw [kept env l.name fun _ => different, bindings, if_pos ⟨rfl, rfl⟩]
    · rw [kept id key fun same mem => other same (List.mem_cons_of_mem _ mem), bindings, if_neg]
      rintro ⟨same, rfl⟩
      exact other same List.mem_cons_self

/-! ### What is noted -/

theorem createLexical_notes {env : EnvironmentId} {name : String} {isConst : Bool}
    {m after : Machine} (made : (createLexical env name isConst).run m = (.value (), after)) :
    (createLexical env name isConst).Notes m (.declared env name isConst) := by
  unfold createLexical at made ⊢
  -- The event is noted last, after the binding has come into being one way or the other.
  cases isConst with
  | true =>
    obtain ⟨_, between, created, -⟩ := bind_eq_value made
    exact .bind created (notes_note _ _)
  | false =>
    obtain ⟨_, between, created, -⟩ := bind_eq_value made
    exact .bind created (notes_note _ _)

/-- Where a scope has been entered, all its names have been declared. -/
theorem declareLexical_notes {env : EnvironmentId} {scope : Scope} {m after : Machine}
    (entered : (declareLexical env scope).run m = (.value (), after)) {l : LexicalName}
    (mem : l ∈ scope.lexical) :
    (declareLexical env scope).Notes m (.declared env l.name l.isConst) := by
  obtain ⟨before, between, made, subset⟩ := forM_eq_value entered mem
  obtain ⟨moment, there, same⟩ := createLexical_notes made
  exact ⟨moment, subset there, same⟩

/-- Where a `let` or `const` declarator has run, its name has been initialized in the environment of
the code that was running. -/
theorem runDeclarator_notes {call : Caller} {kind : DeclarationKind} {d : Declarator}
    {m after : Machine} (lexical : kind ≠ .var)
    (ran : (runDeclarator call kind d).run m = (.value (), after)) :
    (runDeclarator call kind d).Notes m (.initialized m.control.lexical d.id.name) := by
  have initialized : ∀ {value : Evaluation Value},
      (value >>= fun value => askControl (·.lexical) >>= fun env =>
        initializeLexical env d.id.name value).run m = (.value (), after) →
      (value >>= fun value => askControl (·.lexical) >>= fun env =>
        initializeLexical env d.id.name value).Notes m
          (.initialized m.control.lexical d.id.name) := by
    intro value ran
    obtain ⟨v, between, evaluated, -⟩ := bind_eq_value ran
    have returns : between.control = m.control := by
      have returns := value.returns m
      rwa [evaluated] at returns
    refine .bind evaluated (.bind (a := between.control.lexical) rfl ?_)
    rw [returns]
    exact ⟨_, List.mem_cons_self, rfl⟩
  unfold runDeclarator at ran ⊢
  cases kind with
  | var => exact absurd rfl lexical
  | «let» | const => exact initialized ran

end ScriptEngine.Evaluate
