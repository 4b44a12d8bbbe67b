import ScriptEngine.Proofs.Engine.Redeclaration
import ScriptEngine.Proofs.Heap.Engines

/-!
# Declared names last

Once a name is declared it stays, whatever scripts delete. In the records of environments there are
no bindings that can be removed, as long as scripts only run in the global environment; and what
`var` and function declarations make of the global object are properties that cannot be
reconfigured, so they cannot be deleted either.

Main result: what is declared is there at every later moment (`declared_names_last`).
-/
namespace ScriptEngine

open Evaluation Operation Evaluate

namespace Store

variable {s t : Store}

/-- A binding that cannot be removed is there for good. -/
theorem Precedes.binding_lasts (precedes : s.Precedes t) {env : EnvironmentId} {name : String}
    {binding : Binding} (found : s.binding? env name = some binding)
    (permanent : binding.deletable = false) :
    ∃ binding', t.binding? env name = some binding' ∧ binding'.deletable = false := by
  induction precedes with
  | refl => exact ⟨binding, found, permanent⟩
  | ran _ reached ih =>
    obtain ⟨binding', there, permanent'⟩ := ih
    exact reached.binding_lasts there permanent'
  | set _ grown ih =>
    simpa only [binding?, environment, grown.environments] using ih

/-- The global scope of an engine is in place all of the time. -/
theorem Precedes.ready (precedes : WellKnown.store.Precedes s) : Ready s := by
  induction precedes with
  | refl => exact ⟨.store, by decide, rfl⟩
  | ran _ reached ih =>
    have plain := reached.object_invariant (P := fun o => o.kind.isArray = false)
      (fun change plain => change.kind ▸ plain) ih.present ih.plain
    exact ⟨ih.globals.reaches reached, HasObject.mono ih.present reached, plain⟩
  | set _ grown ih =>
    have kind := grown.kind _ ih.present
    exact ⟨ih.globals.of_eq grown.environments, Nat.lt_of_lt_of_le ih.present grown.size,
      (congrArg ObjectKind.isArray kind).trans ih.plain⟩

/-- The global object has a property of the name that cannot be reconfigured, and so it is whatever
scripts run from there on. -/
def HasForGood (s : Store) (name : String) : Prop :=
  ∀ t, s.Reaches t → ∃ p, t.global.property? name = some p ∧ p.configurable = false

theorem HasForGood.mono {name : String} (lasts : s.HasForGood name) (reached : s.Reaches t) :
    t.HasForGood name :=
  fun u reached' => lasts u (reached.trans reached')

/-- A property of the global object that cannot be reconfigured is there for good. -/
theorem hasForGood {name : String} {p : Property} (ready : Ready s)
    (found : s.global.property? name = some p) (permanent : p.configurable = false) :
    s.HasForGood name :=
  fun _ reached => reached.property_lasts ready.present ready.plain found permanent

end Store

/-! ### What creates a property of the global object -/

section

variable {m after : Machine}

/-- A function that has been declared is there for good under its name. -/
theorem hasForGood_of_function {env : EnvironmentId} {code : FunctionCode} (ready : Ready m.store)
    (declared : (declareGlobalFunction env code).run m = (.value (), after)) :
    after.store.HasForGood code.name := by
  by_cases admits : m.store.global.admitsFunction code.name = true
  · obtain ⟨f, after', -, -, aside, succeeded, refused⟩ :=
      declareGlobalFunction_run env ready admits
    by_cases room : m.store.global.HasRoom code.name
    · obtain ⟨run, put⟩ := succeeded room
      rw [declared] at run
      cases run
      have found : after.store.global.property? code.name = some (.globalFunction f) := by
        rw [put]
        simp
      exact Store.hasForGood (aside.ready ready (by rw [put]; exact ready.plain)) found rfl
    · obtain ⟨run, -⟩ := refused room
      rw [declared] at run
      cases run
  -- Otherwise there is a property already that cannot be reconfigured.
  · cases found : m.store.global.property? code.name with
    | none =>
      simp [Object.admitsFunction, found] at admits
    | some p =>
      have permanent : p.configurable = false := by
        simp only [Object.admitsFunction, found, Option.all_some, Bool.or_eq_true, not_or] at admits
        exact Bool.not_eq_true _ ▸ admits.1
      have taken := (declareGlobalFunction env code).steps m
      rw [declared] at taken
      exact (Store.hasForGood ready found permanent).mono taken

/-- A `var` name that has been declared is there for good, unless there was a property of that name
which could be reconfigured. -/
theorem hasForGood_of_variable {name : String} (ready : Ready m.store)
    (absent : m.store.global.property? name = none)
    (declared : (declareGlobalVariable name).run m = (.value (), after)) :
    after.store.HasForGood name := by
  rcases declareGlobalVariable_eq_value ready declared with ⟨taken, -⟩ | ⟨-, aside, put⟩
  · exact absurd absent taken
  · have found : after.store.global.property? name = some .globalVariable := by
      rw [put]
      simp
    exact Store.hasForGood (aside.ready ready (by rw [put]; exact ready.plain)) found rfl

/-- The declarations of a script make a property of the global object for the name. -/
def Scope.Creates (scope : Scope) (s : Store) (name : String) : Prop :=
  (∃ code ∈ scope.functions, code.name = name) ∨
    (name ∈ scope.varNames ∧ s.global.property? name = none)

theorem hasForGood_of_creates {scope : Scope} {name : String} (ready : Ready m.store)
    (declared : (declareGlobal WellKnown.globalEnvironment scope).run m = (.value (), after))
    (creates : scope.Creates m.store name) : after.store.HasForGood name := by
  obtain ⟨admits, between, created, lexical⟩ := declareGlobal_accepted declared
  obtain ⟨outcome, between', run, -, ready', -, -⟩ := createGlobals_run (I := fun _ => True)
    ready admits (fun _ _ _ _ _ _ => trivial) (fun _ _ _ _ _ => trivial) trivial
  rw [created] at run
  cases run
  have permanent : ∃ p, between.store.global.property? name = some p ∧ p.configurable = false := by
    rcases creates with ⟨code, mem, rfl⟩ | ⟨mem, absent⟩
    · obtain ⟨last, named, eq⟩ := exists_lastNamed mem
      obtain ⟨f, found, -⟩ :=
        property_of_function ready admits created (mem_lastOfEach_iff.2 named)
      exact ⟨_, eq ▸ found, rfl⟩
    · refine property_of_variable ready admits created mem fun p found => ?_
      rw [absent] at found
      cases found
  obtain ⟨p, found, fixed⟩ := permanent
  have taken := (declareLexical WellKnown.globalEnvironment scope).steps between
  rw [lexical] at taken
  exact (Store.hasForGood ready' found fixed).mono taken

end

/-- Two runs of stores from the same one, of which the first is the beginning of the second. -/
theorem Leads.after {s t u : Store} {first rest : List Moment} (whole : Leads s (first ++ rest) u)
    (before : Leads s first t) : Leads t rest u := by
  induction first generalizing s with
  | nil => exact before ▸ whole
  | cons moment others ih => exact ih whole.2 before.2

namespace Engine

/-! ### Programs one after another -/

/-- A whole program as it runs on an engine. -/
def program (e : Engine) (bound : Nat) (p : Program) : Evaluation (Except (String × Value) Value) :=
  scriptValue (e.callerWithin bound) bound p.tree

/-- Programs that run one after another on an engine, with all the moments of their runs. -/
inductive ProgramRuns (e : Engine) : List Moment → Engine → Prop where
  | none : ProgramRuns e [] e
  | next {moments : List Moment} {e' : Engine} (before : ProgramRuns e moments e') (bound : Nat)
    (p : Program) :
    ProgramRuns e (moments ++ (e'.program bound p).moments e'.machine)
      (e'.perform (e'.program bound p)).2

/-- Everything that programs run through is reached from where the first one starts. -/
theorem ProgramRuns.reaches {e e' : Engine} {moments : List Moment}
    (runs : ProgramRuns e moments e') :
    (∀ now ∈ moments, e.machine.store.Reaches now.machine.store) ∧
      e.machine.store.Reaches e'.machine.store := by
  induction runs with
  | none => exact ⟨nofun, .refl _⟩
  | @next moments e' _ bound p ih =>
    have between := ((e'.program bound p).passage e'.machine).leads.pairwise.2
    exact ⟨List.forall_mem_append.2 ⟨ih.1, fun now mem => ih.2.trans (between now mem).1⟩,
      ih.2.trans ((e'.program bound p).steps e'.machine)⟩

private theorem moments_bind {α β : Type} (x : Evaluation α) (f : α → Evaluation β) (m : Machine) :
    x.moments m <+: (x >>= f).moments m :=
  List.prefix_append _ _

/-- An attempt goes through the same moments as what it attempts. -/
private theorem moments_attempt {α : Type} (why : Attempt) (x : Evaluation α) (m : Machine) :
    x.moments m <+: (attempt why x).moments m :=
  List.prefix_refl _

/-- A program begins with the declarations of its global names. -/
theorem declareGlobal_first (e : Engine) (bound : Nat) (p : Program) (m : Machine) :
    (declareGlobal WellKnown.globalEnvironment p.tree.scope).moments m <+:
      (e.program bound p).moments m := by
  have names : (declareGlobal WellKnown.globalEnvironment p.tree.scope).moments m <+:
      (declareScript WellKnown.globalEnvironment p.tree.scope).moments m := by
    unfold declareScript
    rw [if_pos rfl]
    exact moments_bind _ _ m
  let statements (lexical : EnvironmentId) : Evaluation (Completion Remainder) :=
    withFrame ⟨lexical, WellKnown.globalEnvironment, .object WellKnown.globalObject,
      p.tree.scope.strict, none⟩ (executeScript (e.callerWithin bound) bound none p.tree.body)
  have attempted := (names.trans (moments_bind _ statements m)).trans (moments_attempt .script _ m)
  have script : _ <+: (runScript (e.callerWithin bound) bound p.tree
      WellKnown.globalEnvironment).moments m := attempted.trans (moments_bind _ _ m)
  have executed : _ <+: (execution (e.callerWithin bound) bound p.tree).moments m :=
    script.trans (moments_bind _ _ m)
  exact executed.trans (moments_bind _ _ m)

/-- What comes after the declarations of a program is reached from there. -/
theorem reaches_of_declared {e : Engine} {bound : Nat} {p : Program} {after : Machine}
    (declared : (declareGlobal WellKnown.globalEnvironment p.tree.scope).run e.machine =
      (.value (), after)) :
    ∃ rest, (e.program bound p).moments e.machine =
        (declareGlobal WellKnown.globalEnvironment p.tree.scope).moments e.machine ++ rest ∧
      (∀ later ∈ rest, after.store.Reaches later.machine.store) ∧
      after.store.Reaches (e.perform (e.program bound p)).2.machine.store := by
  obtain ⟨rest, eq⟩ := declareGlobal_first e bound p e.machine
  have whole := ((e.program bound p).passage e.machine).leads
  have first := ((declareGlobal WellKnown.globalEnvironment p.tree.scope).passage e.machine).leads
  rw [← eq] at whole
  rw [declared] at first
  have onward : Leads after.store rest ((e.program bound p).run e.machine).2.store :=
    whole.after first
  exact ⟨rest, eq.symm, fun later mem => (onward.pairwise.2 later mem).1, onward.reaches⟩

/-! ### The main result -/

/-- Scripts run in the global environment, and a host otherwise does what it likes with what is
there. No binding of any environment can then be removed, so each one that there is at some moment
is there at every later moment: names declared with `let` and `const`, parameters and `arguments`,
names of `catch` clauses, of loops over keys and of function expressions, `var` names and functions
of function bodies and blocks. When a function or `var` name becomes a property of the global
object, at any moment, the property is there for good as far as scripts go. So for every program
whose global declarations succeed: what they create on the global object is there at all other
moments of the program, and at all moments of the programs that run after it. -/
theorem declared_names_last {past : List Moment} {e : Engine}
    (history : GroundedHistory True past e) :
    (∀ before now after, past = before ++ now :: after → ∀ env name binding,
      now.machine.store.binding? env name = some binding → ∀ later ∈ after,
        ∃ binding', later.machine.store.binding? env name = some binding') ∧
    (∀ now ∈ past,
      (∀ env code after, (declareGlobalFunction env code).run now.machine = (.value (), after) →
        after.store.HasForGood code.name) ∧
      ∀ name after, now.machine.store.global.property? name = none →
        (declareGlobalVariable name).run now.machine = (.value (), after) →
        after.store.HasForGood name) ∧
    ∀ bound p declared,
      (declareGlobal WellKnown.globalEnvironment p.tree.scope).run e.machine =
        (.value (), declared) →
      ∃ rest, (e.program bound p).moments e.machine =
          (declareGlobal WellKnown.globalEnvironment p.tree.scope).moments e.machine ++ rest ∧
        ∀ moments e', ProgramRuns (e.perform (e.program bound p)).2 moments e' →
          ∀ name, p.tree.scope.Creates e.machine.store name →
            (∃ q, declared.store.global.property? name = some q) ∧
            (∀ later ∈ rest ++ moments, ∃ q, later.machine.store.global.property? name = some q) ∧
            ∃ q, e'.machine.store.global.property? name = some q := by
  have ordered := history.inOrder
  refine ⟨?_, fun now mem => ?_, fun bound p declared succeeded => ?_⟩
  · rintro before now after rfl env name binding found later mem
    have lasting := (history.allows.1 now (by simp)).lasting trivial
    have rest := (List.pairwise_append.1 ordered.pairwise).2.1
    have precedes := (List.pairwise_cons.1 rest).1 later mem
    obtain ⟨binding', there, -⟩ := precedes.binding_lasts found (lasting _ _ _ found)
    exact ⟨binding', there⟩
  · have ready := (ordered.started now mem).ready
    exact ⟨fun env code after declared => hasForGood_of_function ready declared,
      fun name after absent declared => hasForGood_of_variable ready absent declared⟩
  · obtain ⟨rest, split, onward, stop⟩ := reaches_of_declared succeeded
    refine ⟨rest, split, fun moments e' runs name creates => ?_⟩
    have lasts := hasForGood_of_creates ordered.whole.ready succeeded creates
    have there : ∀ {t : Store}, declared.store.Reaches t →
        ∃ q, t.global.property? name = some q := by
      intro t reached
      obtain ⟨q, found, -⟩ := lasts t reached
      exact ⟨q, found⟩
    refine ⟨there (.refl _), List.forall_mem_append.2 ⟨fun later mem => there (onward later mem),
      fun later mem => ?_⟩, ?_⟩
    · exact there (stop.trans (runs.reaches.1 later mem))
    · exact there (stop.trans runs.reaches.2)

/-- A program declares a name, and the next one tries to delete it in both ways. -/
theorem declared_names_last_deleted :
    let e := create { builtins := false }
    ∃ p q, Program.compile "var x = 1" "" false = .ok p ∧
      Program.compile "delete x; delete this.x" "" false = .ok q ∧
      ∃ own, ((e.runProgram p).2.runProgram q).2.machine.store.global.property? "x" = some own := by
  extract_lets e
  have declares : ((Program.compile "var x = 1" "" false).toOption.map fun p =>
      (p.tree.scope.varNames.contains "x", succeeds e.machine p)) = some (true, true) := by
    decide +kernel
  have deletes : (Program.compile "delete x; delete this.x" "" false).isOk = true := by
    decide +kernel
  cases first : Program.compile "var x = 1" "" false with
  | error error =>
    rw [first] at declares
    cases declares
  | ok p =>
    cases second : Program.compile "delete x; delete this.x" "" false with
    | error error =>
      rw [second] at deletes
      cases deletes
    | ok q =>
      rw [first] at declares
      obtain ⟨named, passed⟩ := Prod.mk.inj (Option.some.inj declares)
      obtain ⟨_, declared⟩ := exists_of_succeeds passed
      have created : GroundedHistory True [e.moment] e := .create _
      obtain ⟨rest, -, later⟩ := (declared_names_last created).2.2 loopBound p _ declared
      have runs : ProgramRuns (e.runProgram p).2 _ ((e.runProgram p).2.runProgram q).2 :=
        .next .none loopBound q
      have creates : p.tree.scope.Creates e.machine.store "x" :=
        .inr ⟨List.contains_iff_mem.1 named, by decide⟩
      exact ⟨p, q, rfl, rfl, (later _ _ runs "x" creates).2.2⟩

end Engine

end ScriptEngine
