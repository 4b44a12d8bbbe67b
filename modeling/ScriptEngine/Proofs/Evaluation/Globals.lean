import ScriptEngine.Proofs.Evaluation.Declarations
import ScriptEngine.Proofs.Store.Globals

/-!
# Declaring global names

A script that runs in the global environment declares its names in two phases: checks, which change
nothing, and then declarations. Main results: the checks find every conflict
with what is there (`checkGlobals_checks`), and once they have passed only a global object without
room for a name is in the way (`createGlobals_run`).
-/
namespace ScriptEngine.Evaluate

open Evaluation Operation Contract WellKnown

/-! ### Checks -/

/-- An evaluation that only finds out whether a condition holds: it has a value if so and otherwise
fails for such a cause, and it never changes anything. -/
def Checks (x : Evaluation Unit) (P : Store → Prop) (cause : Store → Cause → Prop) : Prop :=
  ∀ m, (P m.store ∧ x.run m = (.value (), m)) ∨
    (¬ P m.store ∧ ∃ c, cause m.store c ∧ x.run m = (.raised (.error c), m))

namespace Checks

variable {x y : Evaluation Unit} {P R : Store → Prop} {cause cause' : Store → Cause → Prop}

theorem bind (first : Checks x P cause) (second : Checks y R cause) :
    Checks (x >>= fun _ => y) (fun s => P s ∧ R s) cause := by
  intro m
  rcases first m with ⟨holds, run⟩ | ⟨fails, c, allowed, run⟩
  -- A check that has passed has changed nothing, so the next one sees the same machine.
  · rcases second m with ⟨holds', run'⟩ | ⟨fails', c, allowed, run'⟩
    · left
      refine ⟨⟨holds, holds'⟩, ?_⟩
      rw [run_bind, run, andThen_value, run']
    · right
      refine ⟨fun both => fails' both.2, c, allowed, ?_⟩
      rw [run_bind, run, andThen_value, run']
  · right
    refine ⟨fun both => fails both.1, c, allowed, ?_⟩
    rw [run_bind, run]
    rfl

theorem weaken (h : Checks x P cause) (weaker : ∀ s c, cause s c → cause' s c) :
    Checks x P cause' := by
  intro m
  rcases h m with passed | ⟨fails, c, allowed, run⟩
  · exact .inl passed
  · exact .inr ⟨fails, c, weaker m.store c allowed, run⟩

theorem forM {f : α → Evaluation Unit} {P : α → Store → Prop} {items : List α}
    (each : ∀ a ∈ items, Checks (f a) (P a) cause) :
    Checks (items.forM f) (fun s => ∀ a ∈ items, P a s) cause := by
  induction items with
  | nil => exact fun m => .inl ⟨nofun, rfl⟩
  | cons a rest ih =>
    obtain ⟨first, others⟩ := List.forall_mem_cons.1 each
    have both := first.bind (ih others)
    intro m
    rcases both m with ⟨holds, run⟩ | ⟨fails, c, allowed, run⟩
    · exact .inl ⟨List.forall_mem_cons.2 holds, run⟩
    · exact .inr ⟨fun all => fails (List.forall_mem_cons.1 all), c, allowed, run⟩

/-- A question whose answer makes the difference. -/
theorem of_answer {question : Store → Bool} {c : Cause}
    (allowed : ∀ s, question s = true → cause s c)
    (run : ∀ m, x.run m =
      if question m.store = true then (.raised (.error c), m) else (.value (), m)) :
    Checks x (fun s => question s = false) cause := by
  intro m
  have eq := run m
  cases answer : question m.store with
  | false =>
    rw [answer] at eq
    exact .inl ⟨answer, eq⟩
  | true =>
    rw [answer] at eq
    exact .inr ⟨Bool.not_eq_false _ ▸ answer, c, allowed m.store answer, eq⟩

end Checks

/-- What the checks find: a name that is declared already. -/
def AlreadyDeclared (c : Cause) : Prop := ∃ name, c = .alreadyDeclared name

/-- What the checks find: a name that is declared already, or that no function may have. -/
def Conflict (c : Cause) : Prop := AlreadyDeclared c ∨ ∃ name, c = .globalFunction name

/-- A property of the global object that cannot be reconfigured has the name. -/
def restricted (s : Store) (name : String) : Bool :=
  (s.global.property? name).any fun p => !p.configurable

/-- The names that a script declares as global `let` and `const` names are free. -/
def LexicalFree (scope : Scope) (s : Store) : Prop :=
  ∀ l ∈ scope.lexical,
    (s.hasBinding globalEnvironment l.name || restricted s l.name) = false

/-- No name that a script declares with `var` or as a function is a global `let` or `const` name. -/
def VarFree (scope : Scope) (s : Store) : Prop :=
  ∀ name ∈ scope.varNames ++ scope.functions.map FunctionCode.name,
    s.hasBinding globalEnvironment name = false

/-- Nothing that is there conflicts with the declarations of a script. -/
structure Admits (scope : Scope) (s : Store) : Prop where
  lexical : LexicalFree scope s
  vars : VarFree scope s
  functions : ∀ code ∈ lastOfEach scope.functions, s.global.admitsFunction code.name = true

/-- A script declares a name that is declared already: with `let` or `const` where there is a global
`let` or `const` name or a permanent property, with `var` or as a function where there is a global
`let` or `const` name. -/
def Redeclares (scope : Scope) (s : Store) (name : String) : Prop :=
  ((∃ l ∈ scope.lexical, l.name = name) ∧
      (s.hasBinding globalEnvironment name || restricted s name) = true) ∨
    (name ∈ scope.varNames ++ scope.functions.map FunctionCode.name ∧
      s.hasBinding globalEnvironment name = true)

/-- The cause names what a script declares that is declared already. -/
def NamesRedeclared (scope : Scope) (s : Store) (c : Cause) : Prop :=
  ∃ name, c = .alreadyDeclared name ∧ Redeclares scope s name

/-- The cause is one that the checks of a script have found. -/
def Finds (scope : Scope) (s : Store) (c : Cause) : Prop :=
  NamesRedeclared scope s c ∨ ∃ name, c = .globalFunction name

theorem Finds.conflict {scope : Scope} {s : Store} {c : Cause} (finds : Finds scope s c) :
    Conflict c :=
  finds.imp (fun ⟨name, eq, _⟩ => ⟨name, eq⟩) id

private theorem checkLexical_checks (scope : Scope) :
    Checks (scope.lexical.forM fun lexical => do
      if (← hasBinding globalEnvironment lexical.name) || (← isRestricted lexical.name) then
        fail (.alreadyDeclared lexical.name)) (LexicalFree scope) (NamesRedeclared scope) := by
  refine Checks.forM fun l mem => .of_answer
    (fun _ taken => ⟨l.name, rfl, .inl ⟨⟨l, mem, rfl⟩, taken⟩⟩) fun m => ?_
  change (if (m.store.hasBinding globalEnvironment l.name || restricted m.store l.name) = true
    then fail (.alreadyDeclared l.name) else pure () : Evaluation Unit).run m = _
  split <;> rfl

private theorem failOnDeclared_checks (scope : Scope) :
    Checks (failOnDeclared globalEnvironment
        (scope.varNames ++ scope.functions.map FunctionCode.name))
      (VarFree scope) (NamesRedeclared scope) := by
  refine Checks.forM fun name mem => .of_answer
    (fun _ taken => ⟨name, rfl, .inr ⟨mem, taken⟩⟩) fun m => ?_
  change (if m.store.hasBinding globalEnvironment name = true
    then fail (.alreadyDeclared name) else pure () : Evaluation Unit).run m = _
  split <;> rfl

private theorem checkGlobalFunction_checks (scope : Scope) (code : FunctionCode) :
    Checks (checkGlobalFunction code) (fun s => (!s.global.admitsFunction code.name) = false)
      (Finds scope) := by
  refine .of_answer (fun _ _ => .inr ⟨code.name, rfl⟩) fun m => ?_
  change (if (!m.store.global.admitsFunction code.name) = true
    then fail (.globalFunction code.name) else pure () : Evaluation Unit).run m = _
  split <;> rfl

/-- The checks of names find one that is declared already, and change nothing. -/
private theorem checkNames_checks (scope : Scope) :
    Checks (do
      scope.lexical.forM fun lexical => do
        if (← hasBinding globalEnvironment lexical.name) || (← isRestricted lexical.name) then
          fail (.alreadyDeclared lexical.name)
      failOnDeclared globalEnvironment (scope.varNames ++ scope.functions.map FunctionCode.name))
      (fun s => LexicalFree scope s ∧ VarFree scope s) (NamesRedeclared scope) :=
  (checkLexical_checks scope).bind (failOnDeclared_checks scope)

/-- The checks find every conflict with what is there, and change nothing. -/
theorem checkGlobals_checks (scope : Scope) :
    Checks (checkGlobals scope) (Admits scope) (Finds scope) := by
  have names : Checks _ _ (Finds scope) := (checkNames_checks scope).weaken fun _ _ => Or.inl
  have functions : Checks ((lastOfEach scope.functions).forM checkGlobalFunction) _ (Finds scope) :=
    .forM fun code _ => checkGlobalFunction_checks scope code
  have all := names.bind functions
  intro m
  -- The checks stand in one sequence, and those of names are its first two.
  rw [show checkGlobals scope = _ from (bind_assoc _ _ _).symm]
  rcases all m with ⟨⟨⟨first, second⟩, third⟩, run⟩ | ⟨fails, found⟩
  · exact .inl ⟨⟨first, second, by simpa using third⟩, run⟩
  · refine .inr ⟨fun admits => fails ⟨⟨admits.lexical, admits.vars⟩, ?_⟩, found⟩
    simpa using admits.functions

/-- Checks that have passed have changed nothing. -/
theorem checkGlobals_admits {scope : Scope} {m after : Machine}
    (passed : (checkGlobals scope).run m = (.value (), after)) :
    Admits scope m.store ∧ after = m := by
  rcases checkGlobals_checks scope m with ⟨admits, run⟩ | ⟨-, c, -, run⟩
  · rw [passed] at run
    exact ⟨admits, congrArg Prod.snd run⟩
  · rw [passed] at run
    cases run

/-- A script with a name that is declared already is rejected, and nothing has changed. -/
theorem declareGlobal_of_taken {scope : Scope} {m : Machine}
    (taken : ¬ (LexicalFree scope m.store ∧ VarFree scope m.store)) :
    ∃ name, (declareGlobal globalEnvironment scope).run m =
      (.raised (.error (.alreadyDeclared name)), m) := by
  rcases checkNames_checks scope m with ⟨free, -⟩ | ⟨-, c, ⟨name, rfl, -⟩, run⟩
  · exact absurd free taken
  · refine ⟨name, ?_⟩
    rw [declareGlobal_eq, show checkGlobals scope = _ from (bind_assoc _ _ _).symm, run_bind,
      run_bind, run]
    rfl

/-! ### Functions and variables -/

/-- An evaluation that adds no environment and no binding, where the global object has its
properties for bindings. -/
private def LeavesEnvironments {α : Type} (x : Evaluation α) : Prop :=
  ∀ m, m.store.HasGlobals → (x.run m).2.store.environments = m.store.environments

namespace LeavesEnvironments

variable {α β : Type}

private theorem bind {x : Evaluation α} {f : α → Evaluation β} (first : LeavesEnvironments x)
    (second : ∀ a, LeavesEnvironments (f a)) : LeavesEnvironments (x >>= f) := by
  intro m globals
  have same := first m globals
  rw [run_bind]
  cases eq : x.run m with
  | mk outcome between =>
    rw [eq] at same
    cases outcome with
    | value a => exact (second a between (globals.of_eq same)).trans same
    | raised | exhausted => exact same

private theorem forM {f : α → Evaluation Unit} {items : List α}
    (each : ∀ a, LeavesEnvironments (f a)) : LeavesEnvironments (items.forM f) := by
  induction items with
  | nil => exact fun _ _ => rfl
  | cons a rest ih => exact (each a).bind fun _ => ih

private theorem define (id : ObjectId) (key : String) (d : Descriptor) (c : Cause) :
    LeavesEnvironments (do if !(← define id key d) then fail c) := by
  refine .bind (fun _ _ => rfl) fun allowed m _ => ?_
  split <;> rfl

end LeavesEnvironments

/-- Functions and `var` names of a script become properties of the global object, and nothing
else. -/
theorem createGlobals_environments (scope : Scope) {m : Machine} (globals : m.store.HasGlobals) :
    ((createGlobals scope).run m).2.store.environments = m.store.environments := by
  have functions : ∀ code, LeavesEnvironments (declareGlobalFunction globalEnvironment code) :=
    fun code => .bind (fun _ _ => rfl) fun f => .bind (fun _ _ => rfl) fun _ => .define _ _ _ _
  have varName : ∀ name, LeavesEnvironments (declareGlobalVariable name) := by
    refine fun name => .bind (fun _ _ => rfl) fun taken => ?_
    split
    -- A new name goes to the environment whose bindings are the properties of the global object.
    · intro m globals
      rw [createMutable, run_bind, run_ask, andThen_value, globals.properties]
      exact LeavesEnvironments.define globalObject name _ _ m globals
    · exact fun _ _ => rfl
  exact LeavesEnvironments.bind (.forM functions) (fun _ => .forM varName) m globals

/-- The global object is there, it is no array, and one of the global environments has its
properties for bindings. -/
structure Ready (s : Store) : Prop where
  globals : s.HasGlobals
  present : globalObject.index < s.objects.size
  plain : s.global.kind.isArray = false

/-- Between two stores objects were added, but the environments are the same. -/
structure Aside (s t : Store) : Prop where
  environments : t.environments = s.environments
  size : s.objects.size ≤ t.objects.size

namespace Aside

theorem refl (s : Store) : Aside s s := ⟨rfl, Nat.le_refl _⟩

theorem trans {s t u : Store} (first : Aside s t) (second : Aside t u) : Aside s u :=
  ⟨second.environments.trans first.environments, Nat.le_trans first.size second.size⟩

theorem ready {s t : Store} (aside : Aside s t) (ready : Ready s)
    (plain : t.global.kind.isArray = false) : Ready t :=
  ⟨ready.globals.of_eq aside.environments, Nat.lt_of_lt_of_le ready.present aside.size, plain⟩

end Aside

/-- Adding two objects and defining a property of the first one changes nothing that was there. -/
private theorem aside_allocations {s : Store} (present : globalObject.index < s.objects.size)
    (first : Object) (second : ObjectId → Object) (key : String) (d : ObjectId → Descriptor) :
    let added := s.allocate first
    let addedTwice := added.2.allocate (second added.1)
    let after := (addedTwice.2.define added.1 key (d addedTwice.1)).2
    Aside s after ∧ after.global = s.global := by
  intro added addedTwice after
  have still : globalObject.index < added.2.objects.size := by
    simp only [added, Store.allocate, Array.size_push]
    omega
  have fresh : added.1 ≠ globalObject := fun eq => Nat.ne_of_lt present (congrArg _ eq.symm)
  refine ⟨⟨rfl, ?_⟩, ?_⟩
  · simp only [after, Store.define, Store.size_setObject, addedTwice, added, Store.allocate,
      Array.size_push]
    omega
  · rw [Store.global_define_of_ne fresh, Store.global_allocate still, Store.global_allocate present]

/-- A new function is a new object, and nothing that was there has changed. -/
theorem newDeclared_run (code : FunctionCode) (env : EnvironmentId) {m : Machine}
    (present : globalObject.index < m.store.objects.size) :
    ∃ f after, (newDeclared code env).run m = (.value f, after) ∧
      m.store.objects.size ≤ f.index ∧ (after.store.object f).kind = .script code env ∧
      Aside m.store after.store ∧ after.store.global = m.store.global :=
  ⟨_, _, rfl, Nat.le_refl _, kind_newDeclared code env m,
    aside_allocations present _ (fun _ => _) _ (fun _ => _)⟩

/-- A definition on the global object that must be allowed. -/
theorem defineGlobal_run {m : Machine} (present : globalObject.index < m.store.objects.size)
    (name : String) (d : Descriptor) (c : Cause) :
    ∃ after, Aside m.store after.store ∧
      after.store.global = (m.store.global.define name d).1 ∧
      (do if !(← define globalObject name d) then fail c : Evaluation Unit).run m =
        (if (m.store.global.define name d).2 = true then .value () else .raised (.error c),
          after) := by
  refine ⟨{ m with store := (m.store.define globalObject name d).2 }, ⟨rfl, ?_⟩,
    Store.global_define present name d, ?_⟩
  · exact Nat.le_of_eq (Store.size_setObject _ _ _).symm
  · change (if (!(m.store.global.define name d).2) = true then fail c
      else pure () : Evaluation Unit).run _ = _
    cases (m.store.global.define name d).2 <;> rfl

/-- The declaration of a global function that may be declared: it succeeds if there is room for the
name, and otherwise leaves the global object alone. -/
theorem declareGlobalFunction_run (env : EnvironmentId) {code : FunctionCode} {m : Machine}
    (ready : Ready m.store) (admits : m.store.global.admitsFunction code.name = true) :
    ∃ f after, m.store.objects.size ≤ f.index ∧
      (after.store.object f).kind = .script code env ∧ Aside m.store after.store ∧
      (m.store.global.HasRoom code.name →
        (declareGlobalFunction env code).run m = (.value (), after) ∧
          after.store.global = m.store.global.put code.name (.globalFunction f)) ∧
      (¬ m.store.global.HasRoom code.name →
        (declareGlobalFunction env code).run m =
            (.raised (.error (.redefinition code.name)), after) ∧
          after.store.global = m.store.global) := by
  obtain ⟨f, between, made, fresh, kind, aside, same⟩ := newDeclared_run code env ready.present
  have present := Nat.lt_of_lt_of_le ready.present aside.size
  obtain ⟨after, aside', eq, defined⟩ := defineGlobal_run present code.name
    (m.store.global.functionDescriptor code.name f) (.redefinition code.name)
  -- The descriptor is chosen by what the global object has, which the new function leaves alone.
  have run : (declareGlobalFunction env code).run m = (do
      if !(← define globalObject code.name (m.store.global.functionDescriptor code.name f)) then
        fail (.redefinition code.name) : Evaluation Unit).run between := by
    unfold declareGlobalFunction
    rw [run_bind, made, andThen_value, ← same]
    rfl
  have reached := (do
    if !(← define globalObject code.name (m.store.global.functionDescriptor code.name f)) then
      fail (.redefinition code.name) : Evaluation Unit).steps between
  rw [defined] at reached
  rw [defined, same] at run
  rw [same] at eq
  refine ⟨f, after, fresh, reached.kind_script kind, aside.trans aside', fun room => ?_,
    fun full => ?_⟩
  · rw [Object.define_function ready.plain admits room] at eq run
    exact ⟨run, eq⟩
  · rw [Object.define_of_no_room ready.plain full] at eq run
    exact ⟨run, eq⟩

/-- Where the name of a global `var` is taken, its declaration does nothing. -/
theorem declareGlobalVariable_of_present {name : String} {m : Machine}
    (present : m.store.global.property? name ≠ none) :
    (declareGlobalVariable name).run m = (.value (), m) := by
  have contains : m.store.global.properties.contains name = true := by
    rw [Dictionary.contains_iff, Dictionary.mem_keys_iff, ← Option.isSome_iff_exists]
    exact Option.isSome_iff_ne_none.2 present
  change (if (!m.store.global.properties.contains name) = true then
    createMutable globalObjectEnvironment name false else pure () : Evaluation Unit).run m = _
  rw [contains]
  rfl

/-- Where the name of a global `var` is free, its declaration makes it a property of the global
object, unless that gets no further properties. -/
theorem declareGlobalVariable_of_absent {name : String} {m : Machine} (ready : Ready m.store)
    (absent : m.store.global.property? name = none) :
    ∃ after, Aside m.store after.store ∧
      (m.store.global.extensible = true →
        (declareGlobalVariable name).run m = (.value (), after) ∧
          after.store.global = m.store.global.put name .globalVariable) ∧
      (m.store.global.extensible = false →
        (declareGlobalVariable name).run m = (.raised (.error (.globalVariable name)), after) ∧
          after.store.global = m.store.global) := by
  have missing : m.store.global.properties.contains name = false := by
    rw [Bool.eq_false_iff, ne_eq, Dictionary.contains_iff, Dictionary.mem_keys_iff]
    rintro ⟨p, found⟩
    rw [show m.store.global.property? name = some p from found] at absent
    cases absent
  have run : (declareGlobalVariable name).run m = (do
      if !(← define globalObject name (.ofProperty .globalVariable)) then
        fail (.globalVariable name) : Evaluation Unit).run m := by
    change (if (!m.store.global.properties.contains name) = true then
      createMutable globalObjectEnvironment name false else pure () : Evaluation Unit).run m = _
    rw [missing]
    simp only [Bool.not_false, if_true, createMutable, run_bind, run_ask, andThen_value,
      ready.globals.properties]
    rfl
  obtain ⟨after, aside, eq, defined⟩ := defineGlobal_run ready.present name
    (.ofProperty .globalVariable) (.globalVariable name)
  rw [defined] at run
  refine ⟨after, aside, fun extensible => ?_, fun closed => ?_⟩
  · rw [Object.define_variable ready.plain absent extensible] at eq run
    exact ⟨run, eq⟩
  · have full : ¬ m.store.global.HasRoom name := by simp [Object.HasRoom, closed, absent]
    rw [Object.define_of_no_room ready.plain full] at eq run
    exact ⟨run, eq⟩

/-- A global `var` that could be declared: either its name was taken, and nothing has changed, or it
is a new property of the global object. -/
theorem declareGlobalVariable_eq_value {name : String} {m after : Machine} (ready : Ready m.store)
    (declared : (declareGlobalVariable name).run m = (.value (), after)) :
    (m.store.global.property? name ≠ none ∧ after = m) ∨
      (m.store.global.property? name = none ∧ Aside m.store after.store ∧
        after.store.global = m.store.global.put name .globalVariable) := by
  by_cases absent : m.store.global.property? name = none
  · right
    obtain ⟨after', aside, succeeded, refused⟩ := declareGlobalVariable_of_absent ready absent
    cases extensible : m.store.global.extensible with
    | true =>
      obtain ⟨run, put⟩ := succeeded extensible
      rw [declared] at run
      cases run
      exact ⟨absent, aside, put⟩
    | false =>
      obtain ⟨failed, -⟩ := refused extensible
      rw [declared] at failed
      cases failed
  · left
    rw [declareGlobalVariable_of_present absent] at declared
    cases declared
    exact ⟨absent, rfl⟩

/-! ### Sequences of declarations -/

/-- An evaluation that declares functions and variables: it keeps a condition on the global object,
and can only be stopped by a global object that gets no further properties. -/
def Declares (n : Nat) (I : Object → Prop) (x : Evaluation Unit) : Prop :=
  ∀ m, Ready m.store → n ≤ m.store.objects.size → I m.store.global →
    ∃ outcome after, x.run m = (outcome, after) ∧ Aside m.store after.store ∧
      Ready after.store ∧ I after.store.global ∧
      (outcome = .value () ∨ ∃ c, outcome = .raised (.error c) ∧ ¬ Conflict c ∧
        after.store.global.extensible = false)

/-- What a condition on the global object must allow for the declarations of a scope to keep it. -/
structure Kept (scope : Scope) (n : Nat) (I : Object → Prop) : Prop where
  admits : ∀ {o}, I o → ∀ code ∈ lastOfEach scope.functions, o.admitsFunction code.name = true
  function : ∀ {o}, I o → ∀ code ∈ lastOfEach scope.functions, o.HasRoom code.name →
    ∀ f : ObjectId, n ≤ f.index → I (o.put code.name (.globalFunction f))
  vars : ∀ {o}, I o → ∀ name ∈ scope.varNames, o.property? name = none →
    o.extensible = true → I (o.put name .globalVariable)

namespace Declares

variable {n : Nat} {I : Object → Prop} {x y : Evaluation Unit}

theorem bind (first : Declares n I x) (second : Declares n I y) :
    Declares n I (x >>= fun _ => y) := by
  intro m ready size holds
  obtain ⟨outcome, between, run, aside, ready', holds', ended⟩ := first m ready size holds
  rw [run_bind, run]
  rcases ended with rfl | ⟨c, rfl, stopped⟩
  -- Objects are only added, so those that are new stay new for the second part.
  · have size' := Nat.le_trans size aside.size
    obtain ⟨outcome, after, run', aside', rest⟩ := second between ready' size' holds'
    exact ⟨outcome, after, run', aside.trans aside', rest⟩
  · exact ⟨_, between, rfl, aside, ready', holds', .inr ⟨c, rfl, stopped⟩⟩

theorem forM {α : Type} {f : α → Evaluation Unit} {items : List α}
    (each : ∀ a ∈ items, Declares n I (f a)) : Declares n I (items.forM f) := by
  induction items with
  | nil => exact fun m ready _ holds => ⟨_, m, rfl, .refl _, ready, holds, .inl rfl⟩
  | cons a rest ih =>
    exact (each a List.mem_cons_self).bind (ih fun b mem => each b (List.mem_cons_of_mem a mem))

/-- On the way of a sequence of declarations that succeeds, each of them does. -/
theorem forM_eq_value {α : Type} {f : α → Evaluation Unit} {items : List α} {m after : Machine}
    (each : ∀ a ∈ items, Declares n I (f a)) (ready : Ready m.store)
    (size : n ≤ m.store.objects.size) (holds : I m.store.global)
    (ended : (items.forM f).run m = (.value (), after)) {a : α} (mem : a ∈ items) :
    ∃ before between, Ready before.store ∧ I before.store.global ∧
      (f a).run before = (.value (), between) ∧ between.store.Reaches after.store := by
  induction items generalizing m with
  | nil => cases mem
  | cons first rest ih =>
    obtain ⟨now, others⟩ := List.forall_mem_cons.1 each
    obtain ⟨_, next, run, later⟩ := bind_eq_value ended
    obtain ⟨outcome, next', run', aside, ready', holds', -⟩ := now m ready size holds
    rw [run] at run'
    cases run'
    rcases List.mem_cons.1 mem with rfl | mem
    · have reached := (rest.forM f).steps next
      rw [show (rest.forM f).run next = _ from later] at reached
      exact ⟨m, next, ready, holds, run, reached⟩
    · exact ih others ready' (Nat.le_trans size aside.size) holds' later mem

end Declares

variable {scope : Scope} {n : Nat} {I : Object → Prop}

theorem declareGlobalFunction_declares (kept : Kept scope n I) {code : FunctionCode}
    (mem : code ∈ lastOfEach scope.functions) :
    Declares n I (declareGlobalFunction globalEnvironment code) := by
  intro m ready size holds
  obtain ⟨f, after, fresh, -, aside, declared, refused⟩ :=
    declareGlobalFunction_run globalEnvironment ready (kept.admits holds code mem)
  by_cases room : m.store.global.HasRoom code.name
  · obtain ⟨run, eq⟩ := declared room
    have holds' := kept.function holds code mem room f (Nat.le_trans size fresh)
    rw [← eq] at holds'
    have ready' := aside.ready ready (by rw [eq]; exact ready.plain)
    exact ⟨_, after, run, aside, ready', holds', .inl rfl⟩
  · obtain ⟨run, eq⟩ := refused room
    have closed : after.store.global.extensible = false := by
      rw [eq]
      exact Bool.eq_false_iff.2 fun extensible => room (.inl extensible)
    -- What is reported is a property that cannot be defined, and not a name that is declared.
    refine ⟨_, after, run, aside, aside.ready ready (eq ▸ ready.plain), eq ▸ holds,
      .inr ⟨_, rfl, ?_, closed⟩⟩
    rintro (⟨_, eq⟩ | ⟨_, eq⟩) <;> cases eq

theorem declareGlobalVariable_declares (kept : Kept scope n I) {name : String}
    (mem : name ∈ scope.varNames) : Declares n I (declareGlobalVariable name) := by
  intro m ready size holds
  by_cases absent : m.store.global.property? name = none
  · obtain ⟨after, aside, declared, refused⟩ := declareGlobalVariable_of_absent ready absent
    cases extensible : m.store.global.extensible with
    | true =>
      obtain ⟨run, eq⟩ := declared extensible
      have holds' := kept.vars holds name mem absent extensible
      rw [← eq] at holds'
      exact ⟨_, after, run, aside, aside.ready ready (by rw [eq]; exact ready.plain), holds',
        .inl rfl⟩
    | false =>
      obtain ⟨run, eq⟩ := refused extensible
      refine ⟨_, after, run, aside, aside.ready ready (eq ▸ ready.plain), eq ▸ holds,
        .inr ⟨_, rfl, ?_, eq ▸ extensible⟩⟩
      rintro (⟨_, eq⟩ | ⟨_, eq⟩) <;> cases eq
  · exact ⟨_, m, declareGlobalVariable_of_present absent, .refl _, ready, holds, .inl rfl⟩

theorem createGlobals_declares (kept : Kept scope n I) : Declares n I (createGlobals scope) :=
  .bind (.forM fun _ mem => declareGlobalFunction_declares kept mem)
    (.forM fun _ mem => declareGlobalVariable_declares kept mem)

/-- Declarations keep what functions may be declared, and with it any condition that they keep. -/
theorem Kept.of_admits (function : ∀ {o}, I o → ∀ code ∈ lastOfEach scope.functions,
      o.HasRoom code.name → ∀ f : ObjectId, n ≤ f.index → I (o.put code.name (.globalFunction f)))
    (vars : ∀ {o}, I o → ∀ name ∈ scope.varNames, o.property? name = none →
      o.extensible = true → I (o.put name .globalVariable)) :
    Kept scope n fun o =>
      (∀ code ∈ lastOfEach scope.functions, o.admitsFunction code.name = true) ∧ I o where
  admits holds := holds.1
  function holds code mem room f fresh :=
    ⟨fun code' mem' => Object.admitsFunction_put rfl (holds.1 code' mem'),
      function holds.2 code mem room f fresh⟩
  vars holds name mem absent extensible :=
    ⟨fun code mem' => Object.admitsFunction_put rfl (holds.1 code mem'),
      vars holds.2 name mem absent extensible⟩

/-- Where nothing is in conflict, the functions and variables are declared or the global object gets
no further properties; either way a condition that declarations keep is kept. -/
theorem createGlobals_run {m : Machine} (ready : Ready m.store) (admits : Admits scope m.store)
    (function : ∀ {o}, I o → ∀ code ∈ lastOfEach scope.functions, o.HasRoom code.name →
      ∀ f : ObjectId, m.store.objects.size ≤ f.index → I (o.put code.name (.globalFunction f)))
    (vars : ∀ {o}, I o → ∀ name ∈ scope.varNames, o.property? name = none →
      o.extensible = true → I (o.put name .globalVariable))
    (holds : I m.store.global) :
    ∃ outcome after, (createGlobals scope).run m = (outcome, after) ∧
      Aside m.store after.store ∧ Ready after.store ∧ I after.store.global ∧
      (outcome = .value () ∨ ∃ c, outcome = .raised (.error c) ∧ ¬ Conflict c ∧
        after.store.global.extensible = false) := by
  obtain ⟨outcome, after, run, aside, ready', holds', ended⟩ :=
    createGlobals_declares (.of_admits function vars) m ready (Nat.le_refl _)
      ⟨admits.functions, holds⟩
  exact ⟨outcome, after, run, aside, ready', holds'.2, ended⟩

/-- The first function is declared before everything else. -/
theorem createGlobals_cons {code : FunctionCode} {rest : List FunctionCode}
    (declared : lastOfEach scope.functions = code :: rest) :
    createGlobals scope = (do
      declareGlobalFunction globalEnvironment code
      rest.forM (declareGlobalFunction globalEnvironment)
      scope.varNames.forM declareGlobalVariable) := by
  unfold createGlobals
  rw [declared]
  exact bind_assoc _ _ _

/-! ### Scripts that are rejected -/

/-- The lexical names of a script whose declarations conflict with nothing can be declared, and no
object and no other global name has changed. -/
theorem declareLexical_of_admits {s : Store} {m : Machine} (admits : Admits scope s)
    (distinct : (scope.lexical.map LexicalName.name).Nodup) (aside : Aside s m.store)
    (ready : Ready m.store) :
    ∃ after, (declareLexical globalEnvironment scope).run m = (.value (), after) ∧
      after.store.objects = m.store.objects ∧
      (∀ l ∈ scope.lexical,
        after.store.binding? globalEnvironment l.name = some (lexicalBinding l.isConst)) ∧
      ∀ name ∉ scope.lexical.map LexicalName.name,
        after.store.binding? globalEnvironment name = s.binding? globalEnvironment name := by
  have same : ∀ name, m.store.binding? globalEnvironment name = s.binding? globalEnvironment name :=
    fun name => by simp only [Store.binding?, Store.environment, aside.environments]
  have absent : ∀ l ∈ scope.lexical, m.store.binding? globalEnvironment l.name = none := by
    intro l mem
    have free := admits.lexical l mem
    rw [Bool.or_eq_false_iff] at free
    rw [same]
    cases found : s.binding? globalEnvironment l.name with
    | none => rfl
    | some binding =>
      rw [Store.hasBinding_of_binding? found] at free
      cases free.1
  obtain ⟨after, run, objects, declared, kept⟩ :=
    declareLexicalNames_run ready.globals.declarative distinct absent
  exact ⟨after, run, objects, declared, fun name other =>
    (kept _ name fun _ => other).trans (same name)⟩

/-- A script whose names cannot be declared: either something that is there is in conflict, and
nothing has changed, or the global object has no room for a name. -/
theorem declareGlobal_rejected {m after : Machine} {r : Raised} (ready : Ready m.store)
    (distinct : (scope.lexical.map LexicalName.name).Nodup)
    (rejected : (declareGlobal globalEnvironment scope).run m = (.raised r, after)) :
    (after = m ∧ ∃ c, r = .error c ∧ Finds scope m.store c) ∨
      (Admits scope m.store ∧ (createGlobals scope).run m = (.raised r, after)) := by
  rw [declareGlobal_eq] at rejected
  rcases checkGlobals_checks scope m with ⟨admits, run⟩ | ⟨-, c, found, run⟩
  · right
    refine ⟨admits, ?_⟩
    rw [run_bind, run, andThen_value] at rejected
    rcases bind_eq_raised rejected with created | ⟨_, between, created, declared⟩
    · exact created
    -- Once functions and variables are there, the lexical names cannot fail any more.
    · obtain ⟨outcome, between', run', aside, ready', -, -⟩ :=
        createGlobals_run (I := fun _ => True) ready admits (fun _ _ _ _ _ _ => trivial)
          (fun _ _ _ _ _ => trivial) trivial
      rw [created] at run'
      cases run'
      obtain ⟨_, succeeded, -⟩ := declareLexical_of_admits admits distinct aside ready'
      rw [succeeded] at declared
      cases declared
  · left
    rw [run_bind, run] at rejected
    cases rejected
    exact ⟨rfl, c, rfl, found⟩

/-- Where a script cannot be run since a name is declared already, it is one of the names that it
declares, and the checks have found it before anything was declared. -/
theorem redeclares_of_rejected {m after : Machine} {name : String} (ready : Ready m.store)
    (distinct : (scope.lexical.map LexicalName.name).Nodup)
    (rejected : (declareGlobal globalEnvironment scope).run m =
      (.raised (.error (.alreadyDeclared name)), after)) :
    after = m ∧ Redeclares scope m.store name := by
  rcases declareGlobal_rejected ready distinct rejected with
    ⟨rfl, c, eq, found⟩ | ⟨admits, created⟩
  · cases eq
    rcases found with ⟨_, ⟨⟩, redeclares⟩ | ⟨_, eq⟩
    · exact ⟨rfl, redeclares⟩
    · cases eq
  -- What stops the declarations themselves is a lack of room.
  · obtain ⟨outcome, after', run, -, -, -, ended⟩ := createGlobals_run (I := fun _ => True) ready
      admits (fun _ _ _ _ _ _ => trivial) (fun _ _ _ _ _ => trivial) trivial
    rw [created] at run
    cases run
    obtain ended | ⟨c, eq, noConflict, -⟩ := ended
    · cases ended
    · cases eq
      exact absurd (.inl ⟨name, rfl⟩) noConflict

/-! ### Scripts that are accepted -/

/-- What a script has done that could declare its names. -/
theorem declareGlobal_accepted {m after : Machine}
    (accepted : (declareGlobal globalEnvironment scope).run m = (.value (), after)) :
    Admits scope m.store ∧ ∃ between, (createGlobals scope).run m = (.value (), between) ∧
      (declareLexical globalEnvironment scope).run between = (.value (), after) := by
  rw [declareGlobal_eq] at accepted
  obtain ⟨_, checked, run, created⟩ := bind_eq_value accepted
  rcases checkGlobals_checks scope m with ⟨admits, run'⟩ | ⟨-, c, -, run'⟩
  · rw [run'] at run
    cases run
    obtain ⟨_, between, run, declared⟩ := bind_eq_value created
    exact ⟨admits, between, run, declared⟩
  · rw [run'] at run
    cases run

/-- The functions of a script that could be declared are properties of the global object, and
properties of other names have not changed. -/
private theorem declareGlobalFunctions_run {functions : List FunctionCode} {m after : Machine}
    (distinct : (functions.map FunctionCode.name).Nodup) (ready : Ready m.store)
    (admits : ∀ code ∈ functions, m.store.global.admitsFunction code.name = true)
    (declared : (functions.forM (declareGlobalFunction globalEnvironment)).run m =
      (.value (), after)) :
    Ready after.store ∧
      (∀ code ∈ functions, ∃ f,
        after.store.global.property? code.name = some (.globalFunction f) ∧
          (after.store.object f).kind = .script code globalEnvironment) ∧
      ∀ name ∉ functions.map FunctionCode.name,
        after.store.global.property? name = m.store.global.property? name := by
  induction functions generalizing m with
  | nil =>
    cases declared
    exact ⟨ready, nofun, fun _ _ => rfl⟩
  | cons code rest ih =>
    obtain ⟨unrepeated, distinct⟩ := List.nodup_cons.1 distinct
    obtain ⟨first, others⟩ := List.forall_mem_cons.1 admits
    obtain ⟨_, between, run, later⟩ := bind_eq_value declared
    obtain ⟨f, between', -, kind, aside, succeeded, refused⟩ :=
      declareGlobalFunction_run globalEnvironment ready first
    by_cases room : m.store.global.HasRoom code.name
    · obtain ⟨run', put⟩ := succeeded room
      rw [run] at run'
      cases run'
      have ready' := aside.ready ready (by rw [put]; exact ready.plain)
      obtain ⟨ready'', there, kept⟩ := ih distinct ready'
        (fun other mem => put ▸ Object.admitsFunction_put rfl (others other mem)) later
      have further := (rest.forM (declareGlobalFunction globalEnvironment)).steps between
      rw [show (rest.forM (declareGlobalFunction globalEnvironment)).run between = _ from later]
        at further
      refine ⟨ready'', List.forall_mem_cons.2 ⟨⟨f, ?_, further.kind_script kind⟩, there⟩,
        fun name other => ?_⟩
      -- The others have different names, so they leave the first one alone.
      · rw [kept code.name unrepeated, put]
        simp
      · rw [List.map_cons, List.mem_cons, not_or] at other
        rw [kept name other.2, put, Object.property?_put, if_neg other.1]
    · obtain ⟨failed, -⟩ := refused room
      rw [run] at failed
      cases failed

/-- Variables leave the properties alone that are there. -/
private theorem declareGlobalVariables_keep {names : List String} {m after : Machine}
    (ready : Ready m.store)
    (declared : (names.forM declareGlobalVariable).run m = (.value (), after)) {name : String}
    {p : Property} (found : m.store.global.property? name = some p) :
    after.store.global.property? name = some p := by
  induction names generalizing m with
  | nil =>
    cases declared
    exact found
  | cons first rest ih =>
    obtain ⟨_, between, run, later⟩ := bind_eq_value declared
    rcases declareGlobalVariable_eq_value ready run with ⟨-, rfl⟩ | ⟨absent, aside, put⟩
    · exact ih ready later found
    -- A property that is new is none of those that are there.
    · refine ih (aside.ready ready (by rw [put]; exact ready.plain)) later ?_
      rw [put, Object.property?_put, if_neg, found]
      rintro rfl
      rw [found] at absent
      cases absent

/-- Each function that was declared is the value of a property that cannot be reconfigured. -/
theorem property_of_function {m after : Machine} (ready : Ready m.store)
    (admits : Admits scope m.store)
    (created : (createGlobals scope).run m = (.value (), after)) {code : FunctionCode}
    (mem : code ∈ lastOfEach scope.functions) :
    ∃ f, after.store.global.property? code.name = some (.globalFunction f) ∧
      (after.store.object f).kind = .script code globalEnvironment := by
  obtain ⟨_, between, functions, vars⟩ := bind_eq_value created
  obtain ⟨ready', declared, -⟩ := declareGlobalFunctions_run (nodup_lastOfEach scope.functions)
    ready admits.functions functions
  obtain ⟨f, found, kind⟩ := declared code mem
  have further := (scope.varNames.forM declareGlobalVariable).steps between
  rw [show (scope.varNames.forM declareGlobalVariable).run between = _ from vars] at further
  exact ⟨f, declareGlobalVariables_keep ready' vars found, further.kind_script kind⟩

/-- A property of the name, if there is one, cannot be reconfigured. -/
private def Fixes (name : String) (o : Object) : Prop :=
  ∀ p, o.property? name = some p → p.configurable = false

private theorem Fixes.put {name : String} {o : Object} (fixed : Fixes name o) (key : String)
    {added : Property} (permanent : added.configurable = false) :
    Fixes name (o.put key added) := by
  intro p found
  rw [Object.property?_put] at found
  split at found
  · cases found
    exact permanent
  · exact fixed p found

/-- The property of a `var` name that was declared cannot be reconfigured, unless the name was one
that could before. -/
theorem property_of_variable {m after : Machine} (ready : Ready m.store)
    (admits : Admits scope m.store)
    (created : (createGlobals scope).run m = (.value (), after)) {name : String}
    (mem : name ∈ scope.varNames)
    (permanent : ∀ p, m.store.global.property? name = some p → p.configurable = false) :
    ∃ p, after.store.global.property? name = some p ∧ p.configurable = false := by
  -- Whatever property of the name comes up cannot be reconfigured.
  have kept : Kept scope m.store.objects.size _ :=
    .of_admits (I := Fixes name) (fun fixed code _ _ f _ => fixed.put code.name rfl)
      (fun fixed other _ _ _ => fixed.put other rfl)
  obtain ⟨_, between, functions, vars⟩ := bind_eq_value created
  have declares : Declares m.store.objects.size _
      ((lastOfEach scope.functions).forM (declareGlobalFunction globalEnvironment)) :=
    .forM fun _ mem => declareGlobalFunction_declares kept mem
  obtain ⟨outcome, between', run, aside, ready', holds, -⟩ :=
    declares m ready (Nat.le_refl _) ⟨admits.functions, permanent⟩
  rw [functions] at run
  cases run
  obtain ⟨before, next, ready', holds, run, reached⟩ := Declares.forM_eq_value
    (fun _ mem => declareGlobalVariable_declares kept mem) ready' aside.size holds vars mem
  rcases declareGlobalVariable_eq_value ready' run with ⟨taken, rfl⟩ | ⟨-, aside', put⟩
  · obtain ⟨p, found⟩ := Option.ne_none_iff_exists'.1 taken
    exact reached.property_lasts ready'.present ready'.plain found (holds.2 p found)
  · have plain : next.store.global.kind.isArray = false := put ▸ ready'.plain
    have found : next.store.global.property? name = some .globalVariable := by
      rw [put]
      simp
    have present := Nat.lt_of_lt_of_le ready'.present aside'.size
    exact reached.property_lasts present plain found rfl

end ScriptEngine.Evaluate
