import ScriptEngine.Proofs.Engine.Heap
import ScriptEngine.Proofs.Evaluation.Globals
import ScriptEngine.Proofs.Tree.Accepted
import ScriptEngine.Proofs.Tree.Names

/-!
# Declarations across scripts

Scripts that run one after the other share the global scope. Main results: what a script that is
rejected leaves behind (`rejected_script_leaves_globals`), and which names no later script can
declare again (`redeclaration_rejected`).

The checks of a script look at the properties of the global object, and both results have a gap
where these do not tell enough. A frozen global object has no room for a new function, which the
checks do not see, and a `var` declaration of a name with a property that can be reconfigured leaves
no trace.
-/
namespace ScriptEngine

theorem Store.HasGlobals.kept (natives : Native → Prop) :
    Install.Kept natives Store.HasGlobals where
  ordinary := fun _ _ globals => globals.of_eq rfl
  native := fun _ _ globals _ => globals.of_eq rfl
  insert := fun _ _ _ _ globals _ => globals.of_eq rfl

/-- The `let` and `const` names of an accepted program differ. -/
theorem Program.Accepted.nodup_lexical {p : Program} (accepted : p.Accepted) :
    (p.tree.scope.lexical.map LexicalName.name).Nodup := by
  have clean := accepted.judged.accepted
  simp only [Check.script, List.append_eq_nil_iff] at clean
  exact Check.nodup_lexical clean.1

namespace Engine

open Evaluation Evaluate WellKnown

/-- The global scope of a reachable engine is in place, also in the middle of a run. -/
theorem ReachableAnyhow.ready {e : Engine} (reachable : e.ReachableAnyhow) {s : Store}
    (running : e.machine.store.Reaches s) : Ready s where
  globals := by
    have between : e.machine.store.HasGlobals :=
      reachable.store_invariant (Store.HasGlobals.kept _) (fun _ _ => trivial)
        Store.HasGlobals.store fun reached globals => globals.reaches reached
    exact between.reaches running
  present := (reachable.sound running).present
  plain := (reachable.sound running).global

/-- A restriction on the programs and native functions only makes fewer engines reachable. -/
theorem Reachable.anyhow {programs : Program → Prop} {natives : Native → Prop} {e : Engine}
    (reachable : Reachable programs natives e) : e.ReachableAnyhow := by
  induction reachable with
  | create config => exact .create config
  | runWithin _ bound p _ ih => exact .runWithin ih bound p trivial
  | execute _ bound p _ ih => exact .execute ih bound p trivial
  | executeIn _ bound p _ env ih => exact .executeIn ih bound p trivial env
  | call _ bound f receiver arguments ih => exact .call ih bound f receiver arguments
  | construct _ bound f arguments ih => exact .construct ih bound f arguments
  | readWithin _ bound name ih => exact .readWithin ih bound name
  | defineValue _ name value ih => exact .defineValue ih name value
  | defineFunction _ m isConstructor _ ih => exact .defineFunction ih m isConstructor trivial

/-- Running a source text is running the program that it compiles to, if it compiles. -/
theorem Reachable.run {natives : Native → Prop} {e : Engine}
    (reachable : Reachable Program.Accepted natives e) (source : String) :
    Reachable Program.Accepted natives (e.run source).2 := by
  unfold Engine.run
  split
  next p compiled => exact reachable.runProgram ⟨source, _, _, compiled⟩
  · exact reachable

/-! ### Scripts that are rejected -/

/-- Where the global object is closed and has a property of the name of the last function, that
function replaces it before a later declaration fails. -/
private theorem overwritten {scope : Scope} {m after : Machine} {r : Raised} (ready : Ready m.store)
    (admits : Admits scope m.store) (created : (createGlobals scope).run m = (.raised r, after))
    {last : FunctionCode} (declared : scope.functions.getLast? = some last)
    (present : m.store.global.property? last.name ≠ none) :
    ∃ f : ObjectId, m.store.objects.size ≤ f.index ∧
      after.store.global.property? last.name = some (.globalFunction f) := by
  rw [← head?_lastOfEach, List.head?_eq_some_iff] at declared
  obtain ⟨rest, eq⟩ := declared
  have mem : last ∈ lastOfEach scope.functions := eq ▸ List.mem_cons_self
  obtain ⟨f, between, fresh, -, aside, defined, -⟩ := declareGlobalFunction_run globalEnvironment
    ready (admits.functions last mem)
  obtain ⟨run, put⟩ := defined (.inr present)
  rw [createGlobals_cons eq, run_bind, run, andThen_value] at created
  -- Later functions may replace it again, and variables leave it alone.
  have kept : Kept scope m.store.objects.size _ :=
    .of_admits (I := fun o => ∃ f : ObjectId, m.store.objects.size ≤ f.index ∧
        o.property? last.name = some (.globalFunction f))
      (by
        rintro o ⟨g, old, there⟩ code - - f fresh
        rw [Object.property?_put]
        split
        · exact ⟨f, fresh, rfl⟩
        · exact ⟨g, old, there⟩)
      (by
        rintro o ⟨g, old, there⟩ name - absent -
        rw [Object.property?_put]
        split
        next same =>
          rw [same, absent] at there
          cases there
        · exact ⟨g, old, there⟩)
  have declares : Declares m.store.objects.size _ (do
      rest.forM (declareGlobalFunction globalEnvironment)
      scope.varNames.forM declareGlobalVariable) :=
    .bind (.forM fun code mem => declareGlobalFunction_declares kept
        (eq ▸ List.mem_cons_of_mem last mem))
      (.forM fun _ mem => declareGlobalVariable_declares kept mem)
  have holds : (∀ code ∈ lastOfEach scope.functions,
      between.store.global.admitsFunction code.name = true) ∧
      ∃ f : ObjectId, m.store.objects.size ≤ f.index ∧
        between.store.global.property? last.name = some (.globalFunction f) := by
    rw [put]
    exact ⟨fun code mem => Object.admitsFunction_put rfl (admits.functions code mem),
      f, fresh, by simp⟩
  have plain : between.store.global.kind.isArray = false := put ▸ ready.plain
  obtain ⟨outcome, after', run', -, -, holds', -⟩ :=
    declares between (aside.ready ready plain) aside.size holds
  rw [created] at run'
  cases run'
  exact holds'.2

/-- Where the global object is closed and the name of the last function is not one of its
properties, the declarations fail before anything is declared. -/
private theorem untouched {scope : Scope} {m after : Machine} {r : Raised} (ready : Ready m.store)
    (admits : Admits scope m.store) (created : (createGlobals scope).run m = (.raised r, after))
    (closed : m.store.global.extensible = false)
    (absent : ∀ last, scope.functions.getLast? = some last →
      m.store.global.property? last.name = none) :
    after.store.global = m.store.global := by
  cases eq : lastOfEach scope.functions with
  | nil =>
    -- Without functions there are only variables, and a closed object gets none.
    obtain ⟨outcome, after', run, -, -, same, -⟩ := createGlobals_run
      (I := fun o => o = m.store.global) ready admits
      (by
        intro o _ code mem
        rw [eq] at mem
        cases mem)
      (by
        rintro o rfl name - - extensible
        rw [closed] at extensible
        cases extensible)
      rfl
    rw [created] at run
    cases run
    exact same
  | cons last rest =>
    have mem : last ∈ lastOfEach scope.functions := eq ▸ List.mem_cons_self
    have declared : scope.functions.getLast? = some last := by
      rw [← head?_lastOfEach, eq]
      rfl
    obtain ⟨f, between, -, -, -, -, refused⟩ := declareGlobalFunction_run globalEnvironment ready
      (admits.functions last mem)
    have full : ¬ m.store.global.HasRoom last.name := by
      simp [Object.HasRoom, closed, absent last declared]
    obtain ⟨run, same⟩ := refused full
    rw [createGlobals_cons eq, run_bind, run] at created
    cases created
    exact same

/-- What a script leaves behind whose declarations fail in a reachable engine. The global `let` and
`const` names are as before. So is everything else if the global object can get properties, and the
global object if it has no property of the name of the last function. In the remaining case either
a conflict was found and nothing has changed, or the last function has replaced the property of its
name. -/
theorem rejected_script_leaves_globals {e : Engine} (reachable : e.ReachableAnyhow) {m : Machine}
    (running : e.machine.store.Reaches m.store) {p : Program} (accepted : p.Accepted)
    {r : Raised} {after : Machine}
    (rejected : (declareGlobal globalEnvironment p.tree.scope).run m = (.raised r, after)) :
    after.store.environment globalEnvironment = m.store.environment globalEnvironment ∧
      (m.store.global.extensible = true → after = m) ∧
      ((∀ last, p.tree.scope.functions.getLast? = some last →
        m.store.global.property? last.name = none) → after.store.global = m.store.global) ∧
      ∀ last, p.tree.scope.functions.getLast? = some last →
        m.store.global.property? last.name ≠ none →
        (after = m ∧ ∃ c, r = .error c ∧ Conflict c) ∨
          (m.store.global.extensible = false ∧ ∃ f : ObjectId, m.store.objects.size ≤ f.index ∧
            after.store.global.property? last.name = some (.globalFunction f)) := by
  have ready := reachable.ready running
  rcases declareGlobal_rejected ready accepted.nodup_lexical rejected with
    ⟨same, c, eq, found⟩ | ⟨admits, created⟩
  · subst same
    exact ⟨rfl, fun _ => rfl, fun _ => rfl, fun _ _ _ => .inl ⟨rfl, c, eq, found.conflict⟩⟩
  · -- No conflict was found, so the global object was closed to begin with.
    obtain ⟨outcome, after', run, aside, -, same, ended⟩ := createGlobals_run
      (I := fun o => o.extensible = m.store.global.extensible) ready admits
      (fun holds _ _ _ _ _ => holds) (fun holds _ _ _ _ => holds) rfl
    rw [created] at run
    cases run
    have closed : m.store.global.extensible = false := by
      obtain ended | ⟨c, -, -, closed⟩ := ended
      · cases ended
      · exact same ▸ closed
    refine ⟨?_, fun extensible => ?_, untouched ready admits created closed,
      fun last declared present => .inr ⟨closed, overwritten ready admits created declared present⟩⟩
    · simp only [Store.environment, aside.environments]
    · rw [closed] at extensible
      cases extensible

/-- The declarations of a program fail. -/
private def fails (m : Machine) (p : Program) : Bool :=
  match (declareGlobal globalEnvironment p.tree.scope).run m with
  | (.raised _, _) => true
  | _ => false

private theorem exists_of_fails {m : Machine} {p : Program} (failed : fails m p = true) :
    ∃ r after, (declareGlobal globalEnvironment p.tree.scope).run m = (.raised r, after) := by
  unfold fails at failed
  split at failed
  next r after run => exact ⟨r, after, run⟩
  · cases failed

private def declaringNaN : Sample "let NaN" (fails (create {}).machine) :=
  .ofSource (by decide +kernel)

/-- The name of a permanent property of the global object cannot be declared with `let`. -/
theorem rejected_script_leaves_globals_constant :
    ∃ p r after, Program.compile "let NaN" "" false = .ok p ∧
      (declareGlobal globalEnvironment p.tree.scope).run (create {}).machine =
        (.raised r, after) ∧
      after = (create {}).machine := by
  obtain ⟨p, compiled, failed⟩ := declaringNaN
  obtain ⟨r, after, rejected⟩ := exists_of_fails failed
  have extensible : (create {}).machine.store.global.extensible = true := by decide +kernel
  have unchanged := (rejected_script_leaves_globals (.create {}) (.refl _)
    ⟨"let NaN", "", false, compiled⟩ rejected).2.1 extensible
  exact ⟨p, r, after, compiled, rejected, unchanged⟩

/-- What a host binds is a property of the global object. -/
theorem ReachableAnyhow.property_defineValue {e : Engine} (reachable : e.ReachableAnyhow)
    (name : String) (value : Value) :
    (e.defineValue name value).machine.store.global.property? name = some (.hidden value) := by
  have sound := reachable.sound (.refl _)
  change ((e.machine.store.insert globalObject name (.hidden value)).object globalObject).property?
    name = _
  unfold Store.insert
  rw [Store.object_setObject, if_pos ⟨rfl, sound.present⟩]
  simp only [Object.insert, sound.global, Bool.false_and, Bool.false_eq_true, if_false]
  split <;> simp

/-- The declarations of a program fail, and leave a function under a global name. -/
private def failsOver (m : Machine) (name : String) (p : Program) : Bool :=
  match (declareGlobal globalEnvironment p.tree.scope).run m with
  | (.raised _, after) =>
    match after.store.global.property? name with
    | some (.data (.object _) _ _ _) => true
    | _ => false
  | _ => false

private theorem exists_of_failsOver {m : Machine} {name : String} {p : Program}
    (failed : failsOver m name p = true) :
    ∃ r after f writable enumerable configurable,
      (declareGlobal globalEnvironment p.tree.scope).run m = (.raised r, after) ∧
      after.store.global.property? name =
        some (.data (.object f) writable enumerable configurable) := by
  unfold failsOver at failed
  split at failed
  next r after run =>
    split at failed
    next f w e c found => exact ⟨r, after, f, w, e, c, run, found⟩
    · cases failed
  · cases failed

/-- Two functions, for a frozen global object to which the host has added a property since. -/
private def overwriting : Sample "function h() {} function g() {}"
    (failsOver (((create {}).run "Object.freeze(this)").2.defineValue "g" (.ofNat 1)).machine
      "g") :=
  .ofSource (by decide +kernel)

/-- On a frozen global object with a property that the host has added since, the last of two
functions replaces that property before the other one fails. -/
theorem rejected_script_overwrites_function :
    ∃ (e : Engine) (p : Program) (r : Raised) (after : Machine),
      Reachable Program.Accepted (fun _ => True) e ∧ p.Accepted ∧
      (declareGlobal globalEnvironment p.tree.scope).run e.machine = (.raised r, after) ∧
      after.store.global.property? "g" ≠ e.machine.store.global.property? "g" := by
  have frozen : Reachable Program.Accepted (fun _ => True)
      ((create {}).run "Object.freeze(this)").2 := Reachable.run (.create {}) _
  have before := frozen.anyhow.property_defineValue "g" (.ofNat 1)
  obtain ⟨p, compiled, failed⟩ := overwriting
  obtain ⟨r, after, f, writable, enumerable, configurable, run, found⟩ := exists_of_failsOver failed
  refine ⟨_, p, r, after, .defineValue frozen "g" (.ofNat 1), ⟨_, _, _, compiled⟩, run, ?_⟩
  rw [before, found]
  intro eq
  cases eq

/-! ### Names that are taken -/

/-- A script declares a name with `var` or as a function. -/
def DeclaresVar (scope : Scope) (name : String) : Prop :=
  name ∈ scope.varNames ∨ ∃ code ∈ scope.functions, code.name = name

/-- A script declares a name with `let` or `const`. -/
def DeclaresLexically (scope : Scope) (name : String) : Prop :=
  ∃ l ∈ scope.lexical, l.name = name

/-- A name that a permanent property of the global object has cannot be declared with `let` or
`const`. -/
private theorem rejected_of_property {scope : Scope} {name : String} {m : Machine}
    (declares : DeclaresLexically scope name) {p : Property}
    (found : m.store.global.property? name = some p) (permanent : p.configurable = false) :
    ∃ other, (declareGlobal globalEnvironment scope).run m =
      (.raised (.error (.alreadyDeclared other)), m) := by
  obtain ⟨l, mem, rfl⟩ := declares
  refine declareGlobal_of_taken fun free => ?_
  have unrestricted := free.1 l mem
  simp only [Bool.or_eq_false_iff, restricted, found, Option.any_some, permanent] at unrestricted
  exact absurd unrestricted.2 nofun

/-- A name that the global environment has a binding of cannot be declared with `var` or as a
function. -/
private theorem rejected_of_binding {scope : Scope} {name : String} {m : Machine}
    (declares : DeclaresVar scope name) {binding : Binding}
    (found : m.store.binding? globalEnvironment name = some binding) :
    ∃ other, (declareGlobal globalEnvironment scope).run m =
      (.raised (.error (.alreadyDeclared other)), m) := by
  refine declareGlobal_of_taken fun free => ?_
  have mem : name ∈ scope.varNames ++ scope.functions.map FunctionCode.name := by
    rcases declares with mem | ⟨code, mem, rfl⟩
    · exact List.mem_append_left _ mem
    · exact List.mem_append_right _ (List.mem_map_of_mem mem)
  have absent := free.2 name mem
  rw [Store.hasBinding_of_binding? found] at absent
  cases absent

/-- Once a script has declared its names in a reachable engine, whatever runs afterwards, later
scripts cannot declare them the other way: not with `let` or `const` if the script has declared a
function of that name, or a `var` name that was not a property which can be reconfigured, and not
with `var` or as a function if the script has declared a `let` or `const` name. A later script that
tries is rejected and changes nothing. -/
theorem redeclaration_rejected {e : Engine} (reachable : e.ReachableAnyhow) {m : Machine}
    (running : e.machine.store.Reaches m.store) {p : Program} (accepted : p.Accepted)
    {declared : Machine}
    (succeeded : (declareGlobal globalEnvironment p.tree.scope).run m = (.value (), declared))
    (name : String) {later : Machine} (reached : declared.store.Reaches later.store)
    (next : Program) :
    ((∃ code ∈ p.tree.scope.functions, code.name = name) ∨
        (name ∈ p.tree.scope.varNames ∧
          ∀ q, m.store.global.property? name = some q → q.configurable = false) →
      DeclaresLexically next.tree.scope name →
      ∃ other, (declareGlobal globalEnvironment next.tree.scope).run later =
        (.raised (.error (.alreadyDeclared other)), later)) ∧
      (DeclaresLexically p.tree.scope name → DeclaresVar next.tree.scope name →
        ∃ other, (declareGlobal globalEnvironment next.tree.scope).run later =
          (.raised (.error (.alreadyDeclared other)), later)) := by
  have ready := reachable.ready running
  obtain ⟨admits, between, created, lexical⟩ := declareGlobal_accepted succeeded
  obtain ⟨outcome, between', run, aside, ready', -, -⟩ := createGlobals_run (I := fun _ => True)
    ready admits (fun _ _ _ _ _ _ => trivial) (fun _ _ _ _ _ => trivial) trivial
  rw [created] at run
  cases run
  have onward : between.store.Reaches later.store := by
    have taken := (declareLexical globalEnvironment p.tree.scope).steps between
    rw [lexical] at taken
    exact taken.trans reached
  constructor
  · intro declares redeclares
    -- Either way the property of the name is permanent once it is there.
    have permanent : ∃ q, between.store.global.property? name = some q ∧
        q.configurable = false := by
      rcases declares with ⟨code, mem, rfl⟩ | ⟨mem, fixed⟩
      · obtain ⟨last, named, eq⟩ := exists_lastNamed mem
        obtain ⟨f, found, -⟩ :=
          property_of_function ready admits created (mem_lastOfEach_iff.2 named)
        exact ⟨_, eq ▸ found, rfl⟩
      · exact property_of_variable ready admits created mem fixed
    obtain ⟨q, found, fixed⟩ := permanent
    obtain ⟨q', there, still⟩ := onward.property_lasts ready'.present ready'.plain found fixed
    exact rejected_of_property redeclares there still
  · rintro ⟨l, mem, rfl⟩ redeclares
    have distinct := accepted.nodup_lexical
    obtain ⟨after, run, -, bound, -⟩ := declareLexical_of_admits admits distinct aside ready'
    rw [lexical] at run
    cases run
    obtain ⟨binding, there, -⟩ :=
      reached.binding_lasts (bound l mem) (Operation.deletable_lexicalBinding l.isConst)
    exact rejected_of_binding redeclares there

/-- The declarations of a program succeed. -/
def succeeds (m : Machine) (p : Program) : Bool :=
  match (declareGlobal globalEnvironment p.tree.scope).run m with
  | (.value _, _) => true
  | _ => false

theorem exists_of_succeeds {m : Machine} {p : Program} (passed : succeeds m p = true) :
    ∃ after, (declareGlobal globalEnvironment p.tree.scope).run m = (.value (), after) := by
  unfold succeeds at passed
  split at passed
  next after run => exact ⟨after, run⟩
  · cases passed

private theorem declaresLexically_of_any {scope : Scope} {name : String}
    (declares : scope.declaresLexically name = true) : DeclaresLexically scope name := by
  obtain ⟨l, mem, eq⟩ := List.any_eq_true.1 declares
  exact ⟨l, mem, by simpa using eq⟩

private def declaringVar : Sample "var x"
    (fun p => succeeds (create {}).machine p && p.tree.scope.varNames.contains "x") :=
  .ofSource (by decide +kernel)

private def declaringLet : Sample "let x" (fun p => p.tree.scope.declaresLexically "x") :=
  .ofSource (by decide +kernel)

/-- After a `var` declaration of a new name, a `let` declaration of it is rejected. -/
theorem redeclaration_rejected_variable :
    ∃ (p next : Program) (declared : Machine),
      Program.compile "var x" "" false = .ok p ∧ Program.compile "let x" "" false = .ok next ∧
      (declareGlobal globalEnvironment p.tree.scope).run (create {}).machine =
        (.value (), declared) ∧
      ∃ other, (declareGlobal globalEnvironment next.tree.scope).run declared =
        (.raised (.error (.alreadyDeclared other)), declared) := by
  obtain ⟨p, compiled, passed⟩ := declaringVar
  obtain ⟨next, compiled', redeclares⟩ := declaringLet
  rw [Bool.and_eq_true, List.contains_iff_mem] at passed
  obtain ⟨declared, succeeded⟩ := exists_of_succeeds passed.1
  have free : (create {}).machine.store.global.property? "x" = none := by
    rw [← Option.isNone_iff_eq_none]
    decide +kernel
  have rejected := (redeclaration_rejected (.create {}) (.refl _) ⟨"var x", "", false, compiled⟩
    succeeded "x" (.refl _) next).1 (.inr ⟨passed.2, by simp [free]⟩)
      (declaresLexically_of_any redeclares)
  exact ⟨p, next, declared, compiled, compiled', succeeded, rejected⟩

/-- The declarations of two programs succeed one after the other. -/
private def succeedsTwice (m : Machine) (p next : Program) : Bool :=
  match (declareGlobal globalEnvironment p.tree.scope).run m with
  | (.value _, declared) => succeeds declared next
  | _ => false

theorem exists_of_succeedsTwice {m : Machine} {p next : Program}
    (passed : succeedsTwice m p next = true) :
    ∃ declared after, (declareGlobal globalEnvironment p.tree.scope).run m =
        (.value (), declared) ∧
      (declareGlobal globalEnvironment next.tree.scope).run declared = (.value (), after) := by
  unfold succeedsTwice at passed
  split at passed
  next declared run =>
    obtain ⟨after, run'⟩ := exists_of_succeeds passed
    exact ⟨declared, after, run, run'⟩
  · cases passed

/-- A program that declares a built-in with `var`, and after which another one declares it with
`let`. -/
private def declaringBuiltin : Sample "var Object" (fun p =>
    p.tree.scope.varNames.contains "Object" &&
      (Program.compile "let Object" "" false).toOption.any fun next =>
        next.tree.scope.declaresLexically "Object" &&
          succeedsTwice (create {}).machine p next) :=
  .ofSource (by decide +kernel)

/-- A built-in that was declared with `var` can still be declared with `let`. -/
theorem variable_redeclared :
    ∃ (p next : Program) (declared after : Machine), p.Accepted ∧ next.Accepted ∧
      DeclaresVar p.tree.scope "Object" ∧ DeclaresLexically next.tree.scope "Object" ∧
      (declareGlobal globalEnvironment p.tree.scope).run (create {}).machine =
        (.value (), declared) ∧
      (declareGlobal globalEnvironment next.tree.scope).run declared = (.value (), after) := by
  obtain ⟨p, compiled, passed⟩ := declaringBuiltin
  rw [Bool.and_eq_true, List.contains_iff_mem] at passed
  obtain ⟨next, compiled', passed'⟩ := Sample.ofSource passed.2
  rw [Bool.and_eq_true] at passed'
  obtain ⟨declared, after, run, run'⟩ := exists_of_succeedsTwice passed'.2
  exact ⟨p, next, declared, after, ⟨_, _, _, compiled⟩, ⟨_, _, _, compiled'⟩, .inl passed.1,
    declaresLexically_of_any passed'.1, run, run'⟩

end Engine

end ScriptEngine
