import ScriptEngine.Proofs.Evaluation.Entering

/-!
# Functions that are there from the start

On entering a script, a function or a block all functions of its scope are made and bound, before
any of the statements runs. Where a name is declared more than once the last declaration counts
(`LastNamed`).

Main results: the declarations of a block and of a call succeed and leave all functions in place
(`declareBlock_run`, `declareCall_run`), and so do those of a script that succeed
(`declareScoped_run`, `hoists_of_declareGlobal`).
-/
namespace ScriptEngine

namespace Store

variable {s : Store} {env : EnvironmentId} {name : String}

/-! ### Names that are found -/

/-- A name is found where it has a binding. -/
theorem resolve_of_hasBinding (bound : s.hasBinding env name = true) :
    s.resolve env name = some env := by
  rw [resolve, resolveUpTo, if_pos bound]

/-- A name that has no binding in an environment is found in the one outside. -/
theorem resolve_of_outer {outer : EnvironmentId} (absent : s.hasBinding env name = false)
    (inside : 0 < env.index) (enclosed : (s.environment env).outer = some outer) (bound : s.hasBinding outer name = true) :
    s.resolve env name = some outer := by
  obtain ⟨i, eq⟩ := Nat.exists_eq_add_one_of_ne_zero (Nat.ne_of_gt inside)
  rw [resolve, resolveUpTo, absent, enclosed, eq]
  simp only [Bool.false_eq_true, if_false]
  rw [resolveUpTo, if_pos bound]

/-! ### Functions in place -/

/-- The name of a function has, in an environment, a function object with its code for a value. -/
def HoldsFunction (s : Store) (env closure : EnvironmentId) (code : FunctionCode) : Prop :=
  ∃ f binding, s.binding? env code.name = some binding ∧ binding.value = some (.object f) ∧
    (s.object f).kind = .script code closure

/-- In an environment the name of a function is found, and it stands for a function object with its
code that closes over the environment. -/
def HasFunction (s : Store) (env : EnvironmentId) (code : FunctionCode) : Prop :=
  ∃ place f, s.resolve env code.name = some place ∧ (s.object f).kind = .script code env ∧
    ∀ control strict, (Operation.getBinding place code.name strict).run ⟨s, control⟩ =
      (.value (.object f), ⟨s, control⟩)

/-- In an environment each name of a function of a scope stands for a function object that is made
of the last declaration of that name. -/
def Hoists (s : Store) (env : EnvironmentId) (scope : Scope) : Prop :=
  ∀ code ∈ scope.functions, ∃ last, LastNamed scope.functions last ∧ last.name = code.name ∧
    s.HasFunction env last

end Store

namespace Evaluate

open Evaluation Operation WellKnown

variable {m : Machine} {env : EnvironmentId}

/-! ### Binding functions -/

/-- The functions of a scope are made one after the other and bound in an environment in some way
that replaces what a name stood for. In the end each name stands for the last function, and other
names are as they were. -/
theorem bindEach_run (closure : EnvironmentId) (bind : String → ObjectId → Evaluation Unit)
    (binds : ∀ {m : Machine} {name : String} (f : ObjectId), m.store.Declarative env →
      m.store.Writable env name → ∃ after, (bind name f).run m = (.value (), after) ∧
        Store.Binds env name (.object f) m.store after.store)
    (declarative : m.store.Declarative env) (functions : List FunctionCode)
    (writable : ∀ code ∈ functions, m.store.Writable env code.name) :
    ∃ after, (functions.forM fun code => do
        let f ← newDeclared code closure
        bind code.name f).run m = (.value (), after) ∧
      (∀ code, LastNamed functions code → after.store.HoldsFunction env closure code) ∧
      ∀ id key, (id = env → key ∉ functions.map FunctionCode.name) →
        after.store.binding? id key = m.store.binding? id key := by
  -- By induction on the functions: what is there keeps being writable, and what is bound last stays.
  induction functions generalizing m with
  | nil =>
    refine ⟨m, rfl, fun code last => ?_, fun _ _ _ => rfl⟩
    cases last.mem
  | cons code rest ih =>
    obtain ⟨first, others⟩ := List.forall_mem_cons.1 writable
    obtain ⟨f, made, run, same, kind⟩ := newDeclared_makes code closure m
    -- Making the function object changes no binding.
    have bindings : ∀ id key, made.store.binding? id key = m.store.binding? id key :=
      fun id key => by simp only [Store.binding?, Store.environment, same]
    have reached := (newDeclared code closure).steps m
    rw [run] at reached
    have still : ∀ {name}, m.store.Writable env name → made.store.Writable env name :=
      fun writable binding found => writable binding (bindings .. ▸ found)
    obtain ⟨between, run', bound⟩ := binds f (reached.declarative declarative) (still first)
    obtain ⟨after, run'', last, kept⟩ := ih (bound.declarative (reached.declarative declarative))
      fun other mem => bound.writable _ (still (others other mem))
    refine ⟨after, ?_, fun other named => ?_, fun id key other => ?_⟩
    · -- The function is made, then bound, and then come the others.
      change ((newDeclared code closure >>= bind code.name) >>= fun _ => rest.forM _).run m = _
      rw [run_bind, run_bind, run, andThen_value, run', andThen_value]
      exact run''
    · rcases lastNamed_cons_iff.1 named with named | ⟨rfl, unrepeated⟩
      · exact last other named
      -- No later function has the name, so the one that was bound first stays.
      · obtain ⟨binding, there, value, -⟩ := bound.bound
        have further := (rest.forM fun code => do
          let f ← newDeclared code closure
          bind code.name f).steps between
        rw [run''] at further
        exact ⟨f, binding, (kept _ _ fun _ => unrepeated).trans there, value,
          (bound.reaches.trans further).kind_script kind⟩
    -- A name of none of the functions is left alone by the first one and by the others.
    · rw [kept id key fun same mem => other same (List.mem_cons_of_mem _ mem),
        bound.others id key fun same mem => ?_, bindings]
      rw [List.mem_singleton.1 mem] at other
      exact other same List.mem_cons_self

theorem bindFunction_run (declarative : m.store.Declarative env) {name : String}
    (writable : m.store.Writable env name) (deletable : Bool) (f : ObjectId) :
    ∃ after, (bindFunction env deletable name f).run m = (.value (), after) ∧
      Store.Binds env name (.object f) m.store after.store := by
  have run : (bindFunction env deletable name f).run m =
      (if m.store.hasBinding env name then setBinding env name (.object f) false
        else declare env name deletable (.object f) : Evaluation Unit).run m := rfl
  cases there : m.store.hasBinding env name with
  -- A parameter or a variable of that name takes the function as its value.
  | true =>
    rw [there] at run
    obtain ⟨after, set, binds⟩ := setBinding_run declarative writable (.object f)
    exact ⟨after, run.trans set, binds⟩
  | false =>
    rw [there] at run
    obtain ⟨after, declared, binds⟩ :=
      declare_run declarative (declarative.hasBinding_eq_false_iff.1 there) deletable (.object f)
    exact ⟨after, run.trans declared, binds⟩

/-- A function of a block is bound to its name, whether or not the name is there. -/
def bindInBlock (env : EnvironmentId) (name : String) (f : ObjectId) : Evaluation Unit := do
  if !(← hasBinding env name) then createMutable env name false
  setInitialBinding env name (.object f)

theorem bindInBlock_run (declarative : m.store.Declarative env) {name : String}
    (writable : m.store.Writable env name) (f : ObjectId) :
    ∃ after, (bindInBlock env name f).run m = (.value (), after) ∧
      Store.Binds env name (.object f) m.store after.store := by
  have run : (bindInBlock env name f).run m =
      (if !m.store.hasBinding env name then declare env name false (.object f)
        else setInitialBinding env name (.object f) : Evaluation Unit).run m := by
    change (hasBinding env name >>= fun bound => _).run m = _
    rw [hasBinding, run_bind, run_ask, andThen_value]
    cases m.store.hasBinding env name <;> rfl
  cases there : m.store.hasBinding env name with
  | false =>
    rw [there] at run
    obtain ⟨after, declared, binds⟩ :=
      declare_run declarative (declarative.hasBinding_eq_false_iff.1 there) false (.object f)
    exact ⟨after, run.trans declared, binds⟩
  | true =>
    rw [there] at run
    -- The name is there because an earlier function of the block has it.
    have bound : ∃ binding, m.store.binding? env name = some binding := by
      rw [← Option.ne_none_iff_exists', ne_eq, ← declarative.hasBinding_eq_false_iff, there]
      nofun
    obtain ⟨binding, found⟩ := bound
    have set := setInitialBinding_run found (.object f)
    have reaches := (setInitialBinding env name (.object f)).steps m
    rw [set] at reaches
    exact ⟨_, run.trans set, .of_binding? reaches (by simp)
      (declarative.binding?_withBinding name _) rfl (writable binding found).2⟩

/-! ### Functions that are found -/

/-- A name with a function in the environment itself is found there. -/
theorem hasFunction_of_holds {s : Store} {code : FunctionCode}
    (holds : s.HoldsFunction env env code) : s.HasFunction env code := by
  obtain ⟨f, binding, found, value, kind⟩ := holds
  exact ⟨env, f, Store.resolve_of_hasBinding (Store.hasBinding_of_binding? found), kind,
    fun control strict => getBinding_run (m := ⟨s, control⟩) found value strict⟩

/-- The environment for the `let` and `const` names of some code: it is the one for the variables,
or directly inside of it and has no other names. -/
def Encloses (s : Store) (varScope env : EnvironmentId) (names : List LexicalName) : Prop :=
  env = varScope ∨ env ≠ varScope ∧ 0 < env.index ∧ s.Declarative env ∧
    (s.environment env).outer = some varScope ∧
    ∀ name ∉ names.map LexicalName.name, s.binding? env name = none

/-- Only names of the variables have changed since. -/
theorem Encloses.reaches {s t : Store} {varScope : EnvironmentId} {names : List LexicalName}
    (encloses : Encloses s varScope env names) (reached : s.Reaches t)
    (same : env ≠ varScope → ∀ name, t.binding? env name = s.binding? env name) :
    Encloses t varScope env names := by
  rcases encloses with here | ⟨apart, inside, declarative, outer, absent⟩
  · exact .inl here
  · exact .inr ⟨apart, inside, reached.declarative declarative,
      (reached.outer_eq declarative.present).trans outer,
      fun name other => (same apart name).trans (absent name other)⟩

/-- A name with a function among the variables is found from inside, unless it is declared there. -/
theorem hasFunction_of_encloses {s : Store} {varScope : EnvironmentId} {names : List LexicalName}
    (encloses : Encloses s varScope env names) {code : FunctionCode}
    (holds : s.HoldsFunction varScope env code)
    (other : code.name ∉ names.map LexicalName.name) : s.HasFunction env code := by
  rcases encloses with rfl | ⟨-, inside, declarative, outer, absent⟩
  · exact hasFunction_of_holds holds
  -- The search comes by the environment of the `let` and `const` names, which does not have it.
  · obtain ⟨f, binding, found, value, kind⟩ := holds
    have missing := declarative.hasBinding_eq_false_iff.2 (absent _ other)
    exact ⟨varScope, f, Store.resolve_of_outer missing inside outer
      (Store.hasBinding_of_binding? found), kind,
      fun control strict => getBinding_run (m := ⟨s, control⟩) found value strict⟩

/-- Where the last function of each name is found, the functions of a scope are in place. -/
theorem hoists_of_lastNamed {s : Store} {scope : Scope}
    (each : ∀ code, LastNamed scope.functions code → s.HasFunction env code) :
    s.Hoists env scope := by
  intro code mem
  obtain ⟨last, named, same⟩ := exists_lastNamed mem
  exact ⟨last, named, same, each last named⟩

/-- The declarations of a block leave its functions in place. -/
theorem declareBlock_run {scope : Scope} (distinct : Distinct scope)
    (unbound : m.store.Unbound env) :
    ∃ after, (declareBlock env scope).run m = (.value (), after) ∧
      after.store.Hoists env scope := by
  obtain ⟨between, run, -, -, kept⟩ := declareLexicalNames_run (m := m) unbound.declarative
    distinct.lexical fun l _ => unbound.absent l.name
  have run : (declareLexical env scope).run m = (.value (), between) := run
  have reached := (declareLexical env scope).steps m
  rw [run] at reached
  -- The `let` and `const` names are none of those of the functions.
  have free : ∀ code ∈ scope.functions, between.store.Writable env code.name := by
    intro code mem binding found
    rw [kept env code.name fun _ => distinct.functions code mem, unbound.absent] at found
    cases found
  obtain ⟨after, run', last, -⟩ := bindEach_run env (bindInBlock env)
    (fun f declarative writable => bindInBlock_run declarative writable f)
    (reached.declarative unbound.declarative) scope.functions free
  refine ⟨after, ?_, hoists_of_lastNamed fun code named => hasFunction_of_holds (last code named)⟩
  rw [declareBlock, run_bind, run, andThen_value]
  exact run'

/-! ### Functions among the variables -/

/-- A new environment is directly inside of another one, and no name there has changed. -/
theorem openScope_run {varScope : EnvironmentId} (declarative : m.store.Declarative varScope) :
    ∃ env after, (openScope varScope).run m = (.value env, after) ∧ after.store.Unbound env ∧
      env ≠ varScope ∧ 0 < env.index ∧ (after.store.environment env).outer = some varScope ∧
      ∀ key, after.store.binding? varScope key = m.store.binding? varScope key := by
  have environments := m.store.environment_openEnvironment (.declarative .empty) (some varScope)
  have apart : varScope.index ≠ m.store.environments.size := Nat.ne_of_lt declarative.present
  refine ⟨⟨m.store.environments.size⟩,
    { m with store := (m.store.openEnvironment (.declarative .empty) (some varScope)).2 }, rfl,
    m.store.unbound_openEnvironment (some varScope), ?_, Nat.zero_lt_of_lt declarative.present, ?_,
    fun key => ?_⟩
  · rintro rfl
    exact apart rfl
  · rw [environments, if_pos rfl]
  · simp only [Store.binding?, environments, if_neg apart]

/-- The environment for the `let` and `const` names of some code is there, and no name of the
variables has changed. -/
theorem lexicalScope_run {scope : Scope} {varScope : EnvironmentId}
    (distinct : (scope.lexical.map LexicalName.name).Nodup)
    (declarative : m.store.Declarative varScope) :
    ∃ env after, (lexicalScope varScope scope).run m = (.value env, after) ∧
      Encloses after.store varScope env scope.lexical ∧
      ∀ key, after.store.binding? varScope key = m.store.binding? varScope key := by
  cases none : scope.lexical.isEmpty with
  -- Without such names there is no environment of their own.
  | true =>
    refine ⟨varScope, m, ?_, .inl rfl, fun _ => rfl⟩
    rw [lexicalScope, if_pos none]
    rfl
  | false =>
    obtain ⟨env, opened, run, unbound, apart, inside, outer, same⟩ := openScope_run declarative
    obtain ⟨after, run', -, -, kept⟩ := declareLexicalNames_run (m := opened) unbound.declarative
      distinct fun l _ => unbound.absent l.name
    have run' : (declareLexical env scope).run opened = (.value (), after) := run'
    have reached := (declareLexical env scope).steps opened
    rw [run'] at reached
    refine ⟨env, after, ?_, .inr ⟨apart, inside, reached.declarative unbound.declarative,
      (reached.outer_eq unbound.declarative.present).trans outer, fun name other => ?_⟩,
      fun key => ?_⟩
    · rw [lexicalScope, if_neg (by simp [none]), run_bind, run, andThen_value, run_bind, run']
      rfl
    · rw [kept env name fun _ => other, unbound.absent]
    · rw [kept varScope key fun here => absurd here.symm apart, same]

/-- The declarations of a function or script succeed where the names of its functions can be written
to, and leave the functions in place. -/
theorem declareInside_run {scope : Scope} (distinct : Distinct scope) {varScope : EnvironmentId}
    (declarative : m.store.Declarative varScope)
    (writable : ∀ code ∈ scope.functions, m.store.Writable varScope code.name)
    (deletable : Bool) :
    ∃ env after, (declareInside varScope deletable scope).run m = (.value env, after) ∧
      after.store.Hoists env scope := by
  obtain ⟨env, between, run, encloses, same⟩ := lexicalScope_run distinct.lexical declarative
  have reached := (lexicalScope varScope scope).steps m
  rw [run] at reached
  have free : ∀ code ∈ scope.functions, between.store.Writable varScope code.name :=
    fun code mem binding found => writable code mem binding (same _ ▸ found)
  obtain ⟨after, run', last, kept⟩ := bindEach_run env (bindFunction varScope deletable)
    (fun f declarative writable => bindFunction_run declarative writable deletable f)
    (reached.declarative declarative) scope.functions free
  have run' : (declareFunctions varScope env deletable scope).run between = (.value (), after) :=
    run'
  have further := (declareFunctions varScope env deletable scope).steps between
  rw [run'] at further
  -- Binding the functions among the variables leaves the environment inside as it was.
  have still := encloses.reaches further fun apart name =>
    kept env name fun here => absurd here apart
  refine ⟨env, after, ?_, hoists_of_lastNamed fun code named =>
    hasFunction_of_encloses still (last code named) (distinct.functions code named.mem)⟩
  rw [declareInside, run_bind, run, andThen_value, run_bind, run']
  rfl

/-! ### Calls -/

/-- A name that has just come into being gets its first value and then others are declared: what
else could be written to still can. -/
theorem introduced_run {make : Evaluation Unit} {name : String} {binding : Binding}
    (declarative : m.store.Declarative env)
    (made : make.run m = (.value (), { m with store := m.store.withBinding env name binding }))
    (value : Value) (names : List String) :
    ∃ after, (make >>= fun _ => setInitialBinding env name value >>= fun _ =>
        names.forM (declareOnce env false)).run m = (.value (), after) ∧
      after.store.Declarative env ∧
      ∀ key ≠ name, m.store.Writable env key → after.store.Writable env key := by
  have set := declarative.binding?_withBinding name binding
  have there : (m.store.withBinding env name binding).binding? env name = some binding := by
    rw [set, if_pos ⟨rfl, rfl⟩]
  have here := Store.Declarative.of_binding? there
  let introduced : Machine := { m with store := m.store.withBinding env name binding }
  let initialized : Machine := { m with
    store := introduced.store.withBinding env name { binding with value := some value } }
  have run' : (setInitialBinding env name value).run introduced = (.value (), initialized) :=
    setInitialBinding_run there value
  have declarative' : initialized.store.Declarative env := here.withBinding name _ here
  obtain ⟨after, run, writes⟩ := declareAllOnce_run declarative' false names
  refine ⟨after, ?_, writes.declarative declarative', fun key other writable =>
    writes.writable key fun old found => writable old ?_⟩
  · rw [run_bind, made, andThen_value, run_bind, run', andThen_value, run]
  · rwa [here.binding?_withBinding, if_neg fun both => other both.2, set,
      if_neg fun both => other both.2] at found

/-- The variables of a function that is called are declared in an environment without names. They
can all be written to, but for the name of the object of its arguments. -/
theorem declareVariables_run (f : ObjectId) (code : FunctionCode) (arguments : List Value)
    (unbound : m.store.Unbound env) :
    ∃ after, (declareVariables f code env arguments).run m = (.value (), after) ∧
      after.store.Declarative env ∧
      ∀ name, (bindsArguments code = true → name ≠ "arguments") →
        after.store.Writable env name := by
  unfold declareVariables
  extract_lets varNames fromParameters
  -- `fromParameters` is what follows the point where the first two branches meet again.
  have fromParameters_run : ∀ {m : Machine} (object : Option ObjectId), m.store.Unbound env →
      (object.isSome = true → bindsArguments code = true) →
      ∃ after, (fromParameters object).run m = (.value (), after) ∧ after.store.Declarative env ∧
        ∀ name, (object.isSome = true → name ≠ "arguments") → after.store.Writable env name := by
    intro m object unbound binds
    obtain ⟨m₁, run₁, writes₁⟩ := declareParameters_run unbound.declarative code.parameters
    have declarative₁ := writes₁.declarative unbound.declarative
    obtain ⟨m₂, run₂, writes₂⟩ := assignParameters_run declarative₁ code.parameters arguments
      fun parameter _ => writes₁.writable _ (unbound.writable _)
    have declarative₂ := writes₂.declarative declarative₁
    have writable₂ : ∀ name, m₂.store.Writable env name :=
      fun name => writes₂.writable name (writes₁.writable name (unbound.writable name))
    simp only [fromParameters, run_bind, run₁, run₂, andThen_value]
    cases object with
    -- Without an object of the arguments only the `var` names are left to declare.
    | none =>
      obtain ⟨after, run, writes⟩ := declareAllOnce_run declarative₂ false code.scope.varNames
      exact ⟨after, run, writes.declarative declarative₂, fun name _ =>
        writes.writable name (writable₂ name)⟩
    -- The object is made only if no parameter has its name, so the name is still free.
    | some object =>
      have absent : m₂.store.binding? env "arguments" = none := by
        have free := parameter_ne_of_bindsArguments (binds rfl)
        rw [(writes₁.trans writes₂).others env "arguments" fun _ => free]
        exact unbound.absent _
      have introduced : ∀ {make : Evaluation Unit} {binding : Binding}, make.run m₂ =
          (.value (), { m₂ with store := m₂.store.withBinding env "arguments" binding }) → _ :=
        fun made => introduced_run declarative₂ made (.object object) code.scope.varNames
      -- Strict code cannot assign to the name, which is why it is not among the writable ones.
      cases strict : code.strict with
      | true =>
        obtain ⟨after, run, declarative, writable⟩ :=
          introduced (createImmutable_run declarative₂ absent false)
        exact ⟨after, run, declarative, fun name other =>
          writable name (other rfl) (writable₂ name)⟩
      | false =>
        obtain ⟨after, run, declarative, writable⟩ :=
          introduced (createMutable_run declarative₂ absent false)
        exact ⟨after, run, declarative, fun name other =>
          writable name (other rfl) (writable₂ name)⟩
  split
  next binds =>
    obtain ⟨object, made, run, same⟩ := newArguments_run f arguments code.strict m
    obtain ⟨after, run', declarative, writable⟩ :=
      fromParameters_run (some object) (unbound.of_environments same) fun _ => binds
    refine ⟨after, ?_, declarative, fun name other => writable name fun _ => other binds⟩
    rw [run_bind, run, andThen_value, run']
  next binds =>
    obtain ⟨after, run, declarative, writable⟩ := fromParameters_run none unbound nofun
    exact ⟨after, run, declarative, fun name _ => writable name nofun⟩

/-- A function that is called declares all its names in an environment without names, and has its
functions in place before its body runs. -/
theorem declareCall_run (f : ObjectId) {code : FunctionCode} (distinct : Distinct code.scope)
    (arguments : List Value) (unbound : m.store.Unbound env) :
    ∃ lexical after, (declareCall f code env arguments).run m = (.value lexical, after) ∧
      after.store.Hoists lexical code.scope := by
  obtain ⟨between, run, declarative, writable⟩ := declareVariables_run f code arguments unbound
  -- Where a function is called `arguments` there is no object of the arguments.
  have free : ∀ inner ∈ code.scope.functions, between.store.Writable env inner.name :=
    fun inner mem => writable inner.name fun binds named =>
      function_ne_of_bindsArguments binds mem named
  obtain ⟨lexical, after, run', hoists⟩ := declareInside_run distinct declarative free false
  refine ⟨lexical, after, ?_, hoists⟩
  rw [declareCall, run_bind, run, andThen_value, run']

/-! ### Scripts -/

/-- A property of the global object is found in the global environment, unless there is a binding of
its name. -/
theorem hasFunction_of_global {s : Store} (globals : s.HasGlobals) {code : FunctionCode}
    {f : ObjectId} (found : s.global.property? code.name = some (.globalFunction f))
    (kind : (s.object f).kind = .script code globalEnvironment)
    (absent : s.binding? globalEnvironment code.name = none) :
    s.HasFunction globalEnvironment code := by
  have own : (s.object globalObject).property? code.name = some (.globalFunction f) := found
  have contains : (s.object globalObject).properties.contains code.name = true := by
    rw [Dictionary.contains_iff, Dictionary.mem_keys_iff]
    exact ⟨_, own⟩
  have bound : s.hasBinding globalObjectEnvironment code.name = true := by
    simp [Store.hasBinding, globals.properties, Store.hasProperty, Store.ancestry,
      Store.ancestryUpTo, contains]
  have looked : s.lookup globalObject code.name = some (.globalFunction f) := by
    simp [Store.lookup, Store.ancestry, Store.ancestryUpTo, Store.lookupAmong, own]
  refine ⟨globalObjectEnvironment, f, Store.resolve_of_outer
    (globals.declarative.hasBinding_eq_false_iff.2 absent) (by decide) globals.inside bound, kind,
    fun control strict => ?_⟩
  simp [getBinding, globals.properties, looked, Property.globalFunction]

/-- A script in the global environment that could declare its names has its functions in place
before it runs. -/
theorem hoists_of_declareGlobal {scope : Scope} (distinct : Distinct scope) (ready : Ready m.store)
    {after : Machine}
    (declared : (declareGlobal globalEnvironment scope).run m = (.value (), after)) :
    after.store.Hoists globalEnvironment scope := by
  have reached := (declareGlobal globalEnvironment scope).steps m
  rw [declared] at reached
  obtain ⟨admits, between, created, lexical⟩ := declareGlobal_accepted declared
  -- Nothing is asked of the global object here, so the invariant of its properties is trivial.
  obtain ⟨outcome, between', run, aside, ready', -, -⟩ := createGlobals_run (I := fun _ => True)
    ready admits (fun _ _ _ _ _ _ => trivial) (fun _ _ _ _ _ => trivial) trivial
  rw [created] at run
  cases run
  obtain ⟨after', run, objects, -, kept⟩ :=
    declareLexical_of_admits admits distinct.lexical aside ready'
  rw [lexical] at run
  cases run
  refine hoists_of_lastNamed fun code named => ?_
  obtain ⟨f, found, kind⟩ :=
    property_of_function ready admits created (mem_lastOfEach_iff.2 named)
  have same : ∀ id, after.store.object id = between.store.object id :=
    fun id => by simp only [Store.object, objects]
  refine hasFunction_of_global (ready.globals.reaches reached) ?_ (same f ▸ kind) ?_
  · rw [Store.global, same]
    exact found
  -- The checks have seen that the name is none of the global `let` and `const` names.
  · rw [kept code.name (distinct.functions code named.mem),
      ← ready.globals.declarative.hasBinding_eq_false_iff]
    exact admits.vars code.name
      (List.mem_append_right _ (List.mem_map_of_mem named.mem))

/-- A script in an environment with bindings of its own has its functions in place before it runs,
if their names can be written to there. -/
theorem declareScoped_run {scope : Scope} (distinct : Distinct scope)
    (declarative : m.store.Declarative env)
    (writable : ∀ code ∈ scope.functions, m.store.Writable env code.name) :
    ∃ lexical after, (declareScoped env scope).run m = (.value lexical, after) ∧
      after.store.Hoists lexical scope := by
  obtain ⟨between, run, writes⟩ := declareAllOnce_run declarative true scope.varNames
  obtain ⟨lexical, after, run', hoists⟩ := declareInside_run distinct
    (writes.declarative declarative)
    (fun code mem => writes.writable code.name (writable code mem)) true
  refine ⟨lexical, after, ?_, hoists⟩
  rw [declareScoped, run_bind, run, andThen_value, run']

end Evaluate

end ScriptEngine
