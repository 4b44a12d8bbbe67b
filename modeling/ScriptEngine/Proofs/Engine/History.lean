import ScriptEngine.Proofs.Engine.Outermost
import ScriptEngine.Proofs.Engine.Redeclaration
import ScriptEngine.Proofs.Evaluation.Ordered

/-!
# Histories

All the moments of an engine since it was created: those of everything that the host has evaluated
on it, and the ones in between. What holds at one moment of a history can be said of the moments
before and after it, whatever programs they belong to.

Main result: a `let` or `const` name cannot be used at any moment before its declaration has run,
and from the moment on at which a constant has a value it keeps it (`lexical_names_in_order`).
-/
namespace ScriptEngine

open Evaluation Operation Evaluate Contract

/-! ### Names that cannot be used -/

/-- Whoever reads or writes the name in the environment gets a `ReferenceError`, and nothing
changes: with the operations on the environment itself, by way of a reference, and with an
expression that is the name, wherever the name is looked up and found there. -/
structure Unusable (m : Machine) (env : EnvironmentId) (name : String) : Prop where
  kind : (Cause.uninitialized name).kind = .referenceError
  read : ∀ strict, (getBinding env name strict).run m = (.raised (.error (.uninitialized name)), m)
  write : ∀ value strict,
    (setBinding env name value strict).run m = (.raised (.error (.uninitialized name)), m)
  getValue : ∀ call strict, (getValue call ⟨.environment env, name, strict⟩).run m =
    (.raised (.error (.uninitialized name)), m)
  typeOf : ∀ call strict, (typeOfReference call ⟨.environment env, name, strict⟩).run m =
    (.raised (.error (.uninitialized name)), m)
  putValue : ∀ call strict value, (putValue call ⟨.environment env, name, strict⟩ value).run m =
    (.raised (.error (.uninitialized name)), m)
  evaluate : ∀ call (id : Identifier), id.name = name →
    m.store.resolve m.control.lexical name = some env →
    (evaluate call (.identifier id)).run m = (.raised (.error (.uninitialized name)), m)

/-- A name without a value cannot be used. -/
theorem Unusable.of_binding? {m : Machine} {env : EnvironmentId} {name : String}
    {binding : Binding} (found : m.store.binding? env name = some binding)
    (missing : binding.value = none) : Unusable m env name := by
  obtain ⟨bindings, outer, environment⟩ := (Store.Declarative.of_binding? found).environment
  have own : bindings.find? name = some binding := by
    simpa only [Store.binding?, environment] using found
  have record : (m.store.environment env).record = .declarative bindings := by rw [environment]
  have read : bindings.read name = .error (.uninitialized name) := by
    obtain ⟨_, _, _, _⟩ := binding
    cases missing
    simp only [Bindings.read, own]
  have refused := Store.Declarative.editBindings_assign_of_missing found missing
  have getBinding : ∀ strict, (getBinding env name strict).run m =
      (.raised (.error (.uninitialized name)), m) := by
    intro strict
    simp [Operation.getBinding, record, read, fail]
  have setBinding : ∀ value strict, (setBinding env name value strict).run m =
      (.raised (.error (.uninitialized name)), m) := by
    intro value strict
    simp [Operation.setBinding, record, assign, editBindings, stepOrFail, refused, ofRefusal]
  have getValue : ∀ call strict, (Operation.getValue call ⟨.environment env, name, strict⟩).run m =
      (.raised (.error (.uninitialized name)), m) := by
    intro call strict
    simp [Operation.getValue, record, getBinding]
  refine ⟨rfl, getBinding, setBinding, getValue, fun call strict => ?_,
    fun call strict value => ?_, fun call id same resolved => ?_⟩
  · simp [typeOfReference, Reference.isUnresolvable, getValue, andThen]
  · simp [Operation.putValue, record, setBinding]
  · subst same
    simp [Evaluate.evaluate, resolveHere, resolve, askControl, resolved, getValue]

/-! ### Between evaluations -/

namespace Store.Ordered

variable {past : List Event} {s : Store}

theorem insert (ordered : s.Ordered past) (id : ObjectId) (key : String) (p : Property) :
    (s.insert id key p).Ordered past ∧ KeepsConstants past s (s.insert id key p) := by
  refine ordered.of_environments rfl fun {other code closure} kind => ?_
  unfold Store.insert at kind
  rw [object_setObject] at kind
  split at kind
  · rw [(Object.SameShell.insert _ key p).kind] at kind
    exact ordered.sound kind
  · exact ordered.sound kind

/-- No name has been declared in the store that every engine starts with. -/
theorem start : WellKnown.store.Ordered [] where
  once := .nil
  calm := ⟨nofun, nofun⟩
  bound := nofun
  declared := nofun
  sound {id code closure} kind := by
    obtain ⟨i⟩ := id
    match i with
    | 0 | 1 | 2 | 3 | 4 | 5 | 6 | 7 | 8 => cases kind
    | _ + 9 => cases kind
  globals := HasGlobals.store

/-- Installation makes no script functions and declares no names. -/
theorem kept (natives : Native → Prop) (past : List Event) (s : Store) :
    Install.Kept natives fun t => t.Ordered past ∧ KeepsConstants past s t where
  ordinary := by
    intro t prototype ⟨ordered, constants⟩
    obtain ⟨ordered', further⟩ := ordered.allocate (o := { kind := .ordinary, prototype }) nofun
    exact ⟨ordered', constants.trans further⟩
  native := by
    intro t code ⟨ordered, constants⟩ _
    obtain ⟨ordered', further⟩ := ordered.allocate (o := Evaluate.nativeObject code) nofun
    exact ⟨ordered', constants.trans further⟩
  insert := by
    intro t id key p ⟨ordered, constants⟩ _
    obtain ⟨ordered', further⟩ := ordered.insert id key p
    exact ⟨ordered', constants.trans further⟩

end Store.Ordered

namespace Engine

/-- What a host evaluates on an engine. -/
inductive HostEvaluation (programs : Program → Prop) (e : Engine) :
    {α : Type} → Evaluation α → Prop where
  | runWithin (bound : Nat) (p : Program) (admitted : programs p) :
    HostEvaluation programs e (scriptValue (e.callerWithin bound) bound p.tree)
  | execute (bound : Nat) (p : Program) (admitted : programs p) :
    HostEvaluation programs e (execution (e.callerWithin bound) bound p.tree)
  | executeIn (bound : Nat) (p : Program) (admitted : programs p) (env : EnvironmentId) :
    HostEvaluation programs e (runScript (e.callerWithin bound) bound p.tree env)
  | call (bound : Nat) (f receiver : Value) (arguments : List Value) :
    HostEvaluation programs e (callValue (e.callerWithin bound) f receiver arguments)
  | construct (bound : Nat) (f : Value) (arguments : List Value) :
    HostEvaluation programs e (construct (e.callerWithin bound) f arguments)
  | readWithin (bound : Nat) (name : String) :
    HostEvaluation programs e (binding (e.callerWithin bound) name)

/-- The moment of an engine on which nothing is evaluated. -/
def moment (e : Engine) : Moment := ⟨e.machine, 0, none⟩

/-- An engine that a host can get to, with all the moments since it was created. -/
inductive History (programs : Program → Prop) (natives : Native → Prop) :
    List Moment → Engine → Prop where
  | create (config : Config) :
    History programs natives [(create config).moment] (create config)
  | evaluate {moments : List Moment} {e : Engine} (before : History programs natives moments e)
    {α : Type} {x : Evaluation α} (hosted : HostEvaluation programs e x) :
    History programs natives (moments ++ x.moments e.machine ++ [(e.perform x).2.moment])
      (e.perform x).2
  | defineValue {moments : List Moment} {e : Engine} (before : History programs natives moments e)
    (name : String) (value : Value) :
    History programs natives (moments ++ [(e.defineValue name value).moment])
      (e.defineValue name value)
  | defineFunction {moments : List Moment} {e : Engine}
    (before : History programs natives moments e) (m : Method) (isConstructor : Bool)
    (admitted : natives m.behaviour) :
    History programs natives (moments ++ [(e.defineFunction m isConstructor).moment])
      (e.defineFunction m isConstructor)

variable {programs : Program → Prop} {natives : Native → Prop}

/-- The reachable engines are those with a history. -/
theorem reachable_iff_history {e : Engine} :
    Reachable programs natives e ↔ ∃ moments, History programs natives moments e := by
  constructor
  · intro reachable
    induction reachable with
    | create config => exact ⟨_, .create config⟩
    | runWithin _ bound p admitted ih =>
      exact ih.elim fun _ before => ⟨_, before.evaluate (.runWithin bound p admitted)⟩
    | execute _ bound p admitted ih =>
      exact ih.elim fun _ before => ⟨_, before.evaluate (.execute bound p admitted)⟩
    | executeIn _ bound p admitted env ih =>
      exact ih.elim fun _ before => ⟨_, before.evaluate (.executeIn bound p admitted env)⟩
    | call _ bound f receiver arguments ih =>
      exact ih.elim fun _ before => ⟨_, before.evaluate (.call bound f receiver arguments)⟩
    | construct _ bound f arguments ih =>
      exact ih.elim fun _ before => ⟨_, before.evaluate (.construct bound f arguments)⟩
    | readWithin _ bound name ih =>
      exact ih.elim fun _ before => ⟨_, before.evaluate (.readWithin bound name)⟩
    | defineValue _ name value ih =>
      exact ih.elim fun _ before => ⟨_, before.defineValue name value⟩
    | defineFunction _ m isConstructor admitted ih =>
      exact ih.elim fun _ before => ⟨_, before.defineFunction m isConstructor admitted⟩
  · rintro ⟨moments, history⟩
    induction history with
    | create config => exact .create config
    | evaluate _ hosted ih =>
      cases hosted with
      | runWithin bound p admitted => exact ih.runWithin bound p admitted
      | execute bound p admitted => exact ih.execute bound p admitted
      | executeIn bound p admitted env => exact ih.executeIn bound p admitted env
      | call bound f receiver arguments => exact ih.call bound f receiver arguments
      | construct bound f arguments => exact ih.construct bound f arguments
      | readWithin bound name => exact ih.readWithin bound name
    | defineValue _ name value ih => exact ih.defineValue name value
    | defineFunction _ m isConstructor admitted ih =>
      exact ih.defineFunction m isConstructor admitted

/-! ### Names in order -/

/-- What a host evaluates keeps names in order. -/
theorem HostEvaluation.ordered {e : Engine} {α : Type} {x : Evaluation α}
    (hosted : HostEvaluation Program.Accepted e x) (kept : Names) :
    (ordered kept).anywhere.Safe x := by
  have lawful : (Contract.ordered kept).anywhere.Lawful := ordered_lawful.anywhere
  have calls : ∀ bound kept, (Contract.ordered kept).anywhere.Calls (e.callerWithin bound) :=
    fun bound kept => invoke_ordered bound e.config.maxCallDepth kept
  have inside : ∀ bound kept, (Contract.ordered kept).Calls (e.callerWithin bound) :=
    fun bound kept f receiver arguments => (calls bound kept f receiver arguments).here
  have executed : ∀ bound (p : Program), p.Accepted →
      (Contract.ordered kept).anywhere.Safe (execution (e.callerWithin bound) bound p.tree) := by
    intro bound p accepted
    refine (runScript_ordered (inside bound) bound accepted.sound _ kept).bind fun completion => ?_
    exact settled_safe lawful (calls bound kept) (fun _ => trivial) completion
  cases hosted with
  | runWithin bound p accepted =>
    exact scriptValue_of_execution lawful (calls bound kept) (executed bound p accepted)
      fun _ _ => .inr fun _ => trivial
  | execute bound p accepted => exact executed bound p accepted
  | executeIn bound p accepted env =>
    exact runScript_ordered (inside bound) bound accepted.sound env kept
  | call bound f receiver arguments =>
    exact callValue_safe lawful (calls bound kept) f receiver arguments
  | construct bound f arguments => exact construct_safe lawful (calls bound kept) f arguments
  | readWithin bound name => exact binding_safe lawful (calls bound kept) name

/-- A moment that follows in order on those of a history. Between two evaluations no name is kept
waiting for code that is running. -/
private theorem through_next {moments : List Moment} {e : Engine}
    (before : (ordered Names.none).Through [] WellKnown.store moments)
    (next : e.machine.store.Ordered (eventsAfter [] moments) ∧
      Store.KeepsConstants (eventsAfter [] moments) (storeAfter WellKnown.store moments)
        e.machine.store) :
    (ordered Names.none).Through [] WellKnown.store (moments ++ [e.moment]) :=
  before.append ⟨⟨next.1, False.elim⟩, next.2, trivial⟩

/-- The last moment of a history is that of its engine. -/
theorem History.last {moments : List Moment} {e : Engine}
    (history : History programs natives moments e) :
    storeAfter WellKnown.store moments = e.machine.store := by
  cases history with
  | create config => rfl
  | evaluate | defineValue | defineFunction => exact storeAfter_append _ _ _

/-- At every moment of a history names are in order, and constants are kept from one moment to the
next. -/
theorem History.through {moments : List Moment} {e : Engine}
    (history : History Program.Accepted natives moments e) :
    (ordered Names.none).Through [] WellKnown.store moments := by
  have kept := Store.Ordered.kept fun _ => True
  induction history with
  | create config =>
    have created := store_create (kept [] WellKnown.store) (fun _ _ => trivial) ⟨.start, .refl _ _⟩
      config
    exact ⟨⟨created.1, False.elim⟩, created.2, trivial⟩
  | @evaluate moments e before α x hosted ih =>
    -- No code is running, so the evaluation starts under the contract for any control state.
    have store := ih.stop ⟨.start, False.elim⟩
    rw [before.last] at store
    obtain ⟨through, stop, -⟩ :=
      hosted.ordered Names.none (eventsAfter [] moments) e.machine store trivial
    have ran : (ordered Names.none).Through [] WellKnown.store (moments ++ x.moments e.machine) :=
      ih.append (before.last ▸ through.refines anywhere_refines)
    refine through_next ran ?_
    rw [eventsAfter_append, storeAfter_append, before.last, (x.passage e.machine).leads.storeAfter]
    exact ⟨stop.1, .refl _ _⟩
  | @defineValue moments e before name value ih =>
    have store := ih.stop ⟨.start, False.elim⟩
    exact through_next ih
      ((kept _ _).global name value _ (before.last ▸ ⟨store.1, .refl _ _⟩))
  | @defineFunction moments e before m isConstructor admitted ih =>
    have store := ih.stop ⟨.start, False.elim⟩
    exact through_next ih (store_defineFunction (kept _ _) trivial isConstructor
      (before.last ▸ ⟨store.1, .refl _ _⟩))

/-- From one moment to all that come after it constants are kept. -/
theorem keepsConstants_of_through {past : List Event} {s : Store} {moments : List Moment}
    (through : (ordered Names.none).Through past s moments) {later : Moment} (mem : later ∈ moments) :
    Store.KeepsConstants past s later.machine.store := by
  induction moments generalizing past s with
  | nil => cases mem
  | cons moment rest ih =>
    obtain ⟨-, change, further⟩ := through
    have kept : Store.KeepsConstants _ s moment.machine.store := change
    have subset : past ⊆ moment.event.toList ++ past := List.subset_append_right _ _
    rcases List.mem_cons.1 mem with rfl | mem
    · exact kept.of_subset subset
    · exact (kept.trans (ih further mem)).of_subset subset

/-- Whatever compiled programs run on an engine and whatever its host does, the `let` and `const`
names of every environment are in order at every moment: nothing happens to a name twice, a name is
declared before it is initialized, and it has a binding of its kind in the environment. Until its
declaration has run there the name cannot be used, and a constant that has a value keeps it at
every later moment. No name is left out: entering a scope declares all its names, and a declarator
that has run has initialized its name. -/
theorem lexical_names_in_order {moments : List Moment} {e : Engine}
    (history : History Program.Accepted natives moments e) {before after : List Moment}
    {now : Moment} (split : moments = before ++ now :: after) :
    let past := eventsAfter [] (before ++ [now])
    past.Nodup ∧
      (∀ env name, .initialized env name ∈ past → HasDeclared past env name) ∧
      (∀ env name isConst, .declared env name isConst ∈ past →
        ∃ binding, now.machine.store.binding? env name = some binding ∧
          binding.isMutable = !isConst) ∧
      (∀ env name, Waits past env name → Unusable now.machine env name) ∧
      (∀ env name binding, .declared env name true ∈ past →
        now.machine.store.binding? env name = some binding → binding.value ≠ none →
        ∀ later ∈ after, later.machine.store.binding? env name = some binding) ∧
      (∀ env scope m m', (declareLexical env scope).run m = (.value (), m') →
        ∀ l ∈ scope.lexical,
          (declareLexical env scope).Notes m (.declared env l.name l.isConst)) ∧
      ∀ call kind d m m', kind ≠ .var → (runDeclarator call kind d).run m = (.value (), m') →
        (runDeclarator call kind d).Notes m (.initialized m.control.lexical d.id.name) := by
  have through := history.through
  rw [split] at through
  obtain ⟨⟨ordered, -⟩, further⟩ := through.split
  refine ⟨ordered.once, fun env name => ordered.declared, fun env name isConst mem => ?_,
    fun env name waits => ?_, fun env name binding declared found initialized later mem => ?_,
    fun env scope m m' entered l mem => declareLexical_notes entered mem,
    fun call kind d m m' lexical ran => runDeclarator_notes lexical ran⟩
  · obtain ⟨binding, found, -, isMutable, -⟩ := ordered.bound mem
    exact ⟨binding, found, isMutable⟩
  · obtain ⟨binding, found, -, missing⟩ := ordered.bound_of_waits waits
    exact .of_binding? found missing
  · exact keepsConstants_of_through further mem env name binding declared found initialized

/-- A script that ends with an error, since it reads a name before its declaration has run. -/
theorem lexical_names_in_order_early :
    let e := create { builtins := false }
    ∃ p, Program.compile "const k = 1; t; let t" "" false = .ok p ∧
      Unusable (e.runProgram p).2.machine WellKnown.globalEnvironment "t" := by
  extract_lets e
  -- What is known of the names when the script has ended is computed.
  have known : ((Program.compile "const k = 1; t; let t" "" false).toOption.map fun p =>
      eventsAfter [] ((scriptValue e.caller loopBound p.tree).moments e.machine)) =
        some [.initialized WellKnown.globalEnvironment "k",
          .declared WellKnown.globalEnvironment "t" false,
          .declared WellKnown.globalEnvironment "k" true] := by decide +kernel
  cases compiled : Program.compile "const k = 1; t; let t" "" false with
  | error error =>
    rw [compiled] at known
    cases known
  | ok p =>
    rw [compiled] at known
    have known : eventsAfter [] ((scriptValue e.caller loopBound p.tree).moments e.machine) = _ :=
      Option.some.inj known
    have created : History Program.Accepted (fun _ => True) [e.moment] e := .create _
    have history := created.evaluate (.runWithin loopBound p ⟨_, _, _, compiled⟩)
    refine ⟨p, rfl, (lexical_names_in_order history rfl).2.2.2.1 _ _ ?_⟩
    rw [eventsAfter_append, eventsAfter_append]
    change Waits (eventsAfter [] ((scriptValue e.caller loopBound p.tree).moments e.machine)) _ _
    rw [known]
    exact ⟨⟨false, by simp⟩, by simp⟩

end Engine

end ScriptEngine
