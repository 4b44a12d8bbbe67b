import ScriptEngine.Proofs.Evaluation.Declarations
import ScriptEngine.Proofs.Store.Globals
import ScriptEngine.Proofs.Tree.Placed

/-!
# Names that wait

A name that is declared with `let` or `const` waits, from the moment at which its scope is entered,
for its declaration to run. The contract of this module says that a name has no value while it
waits, that it is declared once in an environment and gets its first value from its declaration
once, and that a constant keeps its value for good.

Which names are waiting outside of a piece of code is nothing that the code itself can say. So the
contract has a parameter, the names that are kept waiting: what keeps the contract for all such
names initializes none but those that it declares itself.
-/
namespace ScriptEngine

open Evaluation Operation

/-- The name has been declared in the environment. -/
def HasDeclared (past : List Event) (env : EnvironmentId) (name : String) : Prop :=
  ∃ isConst, .declared env name isConst ∈ past

theorem HasDeclared.cons {past : List Event} {env : EnvironmentId} {name : String}
    (declared : HasDeclared past env name) (event : Event) : HasDeclared (event :: past) env name :=
  declared.imp fun _ mem => List.mem_cons_of_mem event mem

/-- The name has been declared in the environment, and its declaration has not run there yet. -/
structure Waits (past : List Event) (env : EnvironmentId) (name : String) : Prop where
  declared : HasDeclared past env name
  uninitialized : .initialized env name ∉ past

/-- The events of declaring some names, of which the last comes first. -/
def declarations (env : EnvironmentId) (names : List LexicalName) : List Event :=
  (names.map fun l => .declared env l.name l.isConst).reverse

/-- Names of environments. -/
abbrev Names := EnvironmentId → String → Prop

def Names.none : Names := fun _ _ => False

namespace Waits

variable {past : List Event} {env id : EnvironmentId} {name key : String}

theorem declare (waits : Waits past id key) (isConst : Bool) :
    Waits (.declared env name isConst :: past) id key :=
  ⟨waits.1.cons _, fun mem => by simp [waits.2] at mem⟩

theorem declareAll (waits : Waits past id key) (env : EnvironmentId) (names : List LexicalName) :
    Waits (declarations env names ++ past) id key := by
  refine ⟨waits.1.imp fun _ mem => List.mem_append_right _ mem, fun mem => ?_⟩
  rcases List.mem_append.1 mem with mem | mem
  · simp [declarations] at mem
  · exact waits.2 mem

/-- A name goes on waiting when another one gets its first value. -/
theorem initialized (waits : Waits past id key) (other : id = env → key ≠ name) :
    Waits (.initialized env name :: past) id key := by
  refine ⟨waits.1.cons _, fun mem => ?_⟩
  rcases List.mem_cons.1 mem with same | mem
  · cases same
    exact other rfl rfl
  · exact waits.2 mem

end Waits

namespace Store

variable {past : List Event} {s t : Store}

/-- The names in a store have been declared and initialized in order. -/
structure Ordered (past : List Event) (s : Store) : Prop where
  once : past.Nodup
  /-- No name has been found taken, and none has been copied while it had no value. -/
  calm : ∀ {env : EnvironmentId} {name : String}, .taken env name ∉ past ∧ .unready env name ∉ past
  /-- A declared name is there for good, and has no value while it waits. -/
  bound : ∀ {env : EnvironmentId} {name : String} {isConst : Bool},
    .declared env name isConst ∈ past →
      ∃ binding, s.binding? env name = some binding ∧ binding.deletable = false ∧
        binding.isMutable = !isConst ∧ (.initialized env name ∉ past → binding.value = none)
  declared : ∀ {env : EnvironmentId} {name : String}, .initialized env name ∈ past →
    HasDeclared past env name
  sound : ∀ {id : ObjectId} {code : FunctionCode} {closure : EnvironmentId},
    (s.object id).kind = .script code closure → code.Sound
  globals : s.HasGlobals

/-- Constants that have been declared keep the values that they have. -/
def KeepsConstants (past : List Event) (s t : Store) : Prop :=
  ∀ env name binding, .declared env name true ∈ past → s.binding? env name = some binding →
    binding.value ≠ none → t.binding? env name = some binding

theorem KeepsConstants.refl (past : List Event) (s : Store) : KeepsConstants past s s :=
  fun _ _ _ _ found _ => found

theorem KeepsConstants.trans {u : Store} (first : KeepsConstants past s t)
    (second : KeepsConstants past t u) : KeepsConstants past s u :=
  fun env name binding declared found initialized =>
    second env name binding declared (first env name binding declared found initialized) initialized

/-- What is said of fewer names follows from what is said of more. -/
theorem KeepsConstants.of_subset {fewer : List Event} (keeps : KeepsConstants past s t)
    (subset : fewer ⊆ past) : KeepsConstants fewer s t :=
  fun env name binding declared => keeps env name binding (subset declared)

namespace Ordered

theorem bound_of_waits (ordered : s.Ordered past) {env : EnvironmentId} {name : String}
    (waits : Waits past env name) :
    ∃ binding, s.binding? env name = some binding ∧ binding.deletable = false ∧
      binding.value = none := by
  obtain ⟨isConst, mem⟩ := waits.1
  obtain ⟨binding, found, permanent, -, waiting⟩ := ordered.bound mem
  exact ⟨binding, found, permanent, waiting waits.2⟩

/-- Where a name has no binding it has not been declared. -/
theorem not_declared_of_absent (ordered : s.Ordered past) {env : EnvironmentId} {name : String}
    (absent : s.binding? env name = none) : ¬ HasDeclared past env name := by
  rintro ⟨isConst, mem⟩
  obtain ⟨binding, found, -⟩ := ordered.bound mem
  rw [absent] at found
  cases found

/-- A step leaves the names in order if none that waits gets a value, and the functions that it
makes are sound. -/
theorem step (ordered : s.Ordered past) (taken : s.Step t)
    (functions : ∀ {id code closure}, s.objects.size ≤ id.index →
      (t.object id).kind = .script code closure → code.Sound)
    (waiting : ∀ {env name binding}, Waits past env name → t.binding? env name = some binding →
      binding.value = none) : t.Ordered past where
  once := ordered.once
  calm := ordered.calm
  bound {env name isConst} mem := by
    obtain ⟨binding, found, permanent, isMutable, -⟩ := ordered.bound mem
    have change := taken.binding_change env name
    rw [found] at change
    obtain ⟨after, there, permanent', same, -⟩ := change.lasts permanent
    exact ⟨after, there, permanent', same.trans isMutable,
      fun still => waiting ⟨⟨isConst, mem⟩, still⟩ there⟩
  declared := ordered.declared
  sound {id code closure} kind := by
    rcases taken.object_change id with change | ⟨fresh, -⟩
    · exact ordered.sound (change.kind ▸ kind)
    · exact functions (Nat.le_of_eq fresh.symm) kind
  globals := ordered.globals.step taken

/-- No name that waits gets a value without an initialization, and no constant another one. -/
theorem quiet (ordered : s.Ordered past) (taken : s.Step t) (quiet : s.Quiet t)
    (functions : ∀ {id code closure}, s.objects.size ≤ id.index →
      (t.object id).kind = .script code closure → code.Sound) :
    t.Ordered past ∧ KeepsConstants past s t := by
  refine ⟨ordered.step taken functions fun {env name after} waits there => ?_,
    fun env name binding mem found initialized => ?_⟩
  · obtain ⟨binding, found, -, missing⟩ := ordered.bound_of_waits waits
    have change := quiet env name
    rw [found, there] at change
    cases change with
    | same => exact missing
    | assign initialized changeable value => exact absurd missing initialized
  · obtain ⟨binding', found', permanent, constant, -⟩ := ordered.bound mem
    rw [found] at found'
    cases found'
    have change := quiet env name
    rw [found] at change
    generalize t.binding? env name = after at change
    cases change with
    | same => rfl
    | assign initialized changeable value =>
      rw [constant] at changeable
      cases changeable
    | delete deletable =>
      rw [permanent] at deletable
      cases deletable

/-- A name that does not wait may get a first value, if it has none of its declaration. -/
theorem setInitial (ordered : s.Ordered past) {env : EnvironmentId} {name : String} {value : Value}
    (edited : s.editBindings env (·.setInitial name value) = (.ok (), t))
    (free : ¬ Waits past env name)
    (first : ∀ {binding}, HasDeclared past env name → s.binding? env name = some binding →
      binding.value = none) : t.Ordered past ∧ KeepsConstants past s t := by
  have others := binding?_of_setInitial edited
  refine ⟨ordered.step (.setInitial env name value edited) (fun beyond kind => ?_)
    fun {id key binding} waits there => ?_, fun id key binding mem found initialized => ?_⟩
  · rw [object, objects_editBindings edited] at kind
    exact ordered.sound kind
  · rcases others id key with same | ⟨rfl, rfl, -⟩
    · obtain ⟨binding', found, -, missing⟩ := ordered.bound_of_waits waits
      rw [same, found] at there
      cases there
      exact missing
    · exact absurd waits free
  · rcases others id key with same | ⟨rfl, rfl, -⟩
    · exact same.trans found
    · exact absurd (first ⟨true, mem⟩ found) initialized

/-- Where the environments are the same, so is the order of the names. -/
theorem of_environments (ordered : s.Ordered past) (same : t.environments = s.environments)
    (sound : ∀ {id code closure}, (t.object id).kind = .script code closure → code.Sound) :
    t.Ordered past ∧ KeepsConstants past s t := by
  have bindings : ∀ env name, t.binding? env name = s.binding? env name := by
    intro env name
    simp only [binding?, environment, same]
  refine ⟨?_, fun env name binding _ found _ => (bindings env name).trans found⟩
  exact {
    once := ordered.once
    calm := ordered.calm
    bound := fun {env name isConst} mem => bindings env name ▸ ordered.bound mem
    declared := ordered.declared
    sound
    globals := ordered.globals.of_eq same }

theorem allocate (ordered : s.Ordered past) {o : Object}
    (own : ∀ {code closure}, o.kind = .script code closure → code.Sound) :
    (s.allocate o).2.Ordered past ∧ KeepsConstants past s (s.allocate o).2 := by
  refine ordered.of_environments rfl fun {id code closure} kind => ?_
  rw [object_allocate] at kind
  split at kind
  · exact own kind
  · exact ordered.sound kind

end Ordered

end Store

namespace Contract

/-- The contract of names that wait, some of which are kept waiting. Code is running. -/
def ordered (kept : Names) : Contract where
  store past s := s.Ordered past ∧ ∀ {env name}, kept env name → Waits past env name
  change := Store.KeepsConstants
  unchanged := Store.KeepsConstants.refl
  control c := c.frames ≠ []
  raised _ := True
  code := FunctionCode.Sound

variable {kept : Names}

theorem ordered_lawful : (ordered kept).Lawful where
  quiet {past s t} taken quiet plain := by
    intro ⟨ordered, waiting⟩
    obtain ⟨ordered', constants⟩ := ordered.quiet taken quiet fun {id code closure} beyond kind => by
      have noFunction := plain id beyond
      rw [kind] at noFunction
      cases noFunction
    exact ⟨⟨ordered', waiting⟩, constants⟩
  script {past s o code env} kind sound := by
    intro ⟨ordered, waiting⟩
    obtain ⟨ordered', constants⟩ := ordered.allocate fun {code' closure} kind' => by
      rw [kind] at kind'
      cases kind'
      exact sound
    exact ⟨⟨ordered', waiting⟩, constants⟩
  introduced {past s t u env name binding value} fresh created initialized := by
    intro ⟨ordered, waiting⟩ ⟨ordered', waiting'⟩
    -- What could be created was not there, so it is no `let` or `const` name.
    have absent : s.binding? env name = none := by
      cases found : s.binding? env name with
      | none => rfl
      | some old =>
        rw [Store.Declarative.editBindings_create_of_present binding found] at created
        cases created
    have undeclared := ordered.not_declared_of_absent absent
    obtain ⟨ordered'', constants⟩ := ordered'.setInitial initialized
      (fun waits => undeclared waits.1) fun declared => absurd declared undeclared
    exact ⟨⟨ordered'', waiting'⟩, constants⟩
  error _ := trivial
  thrown _ := trivial
  scopeEntered {c} env running := by
    obtain ⟨frames, depth, limit⟩ := c
    cases frames with
    | nil => exact absurd rfl running
    | cons frame outer => exact List.cons_ne_nil _ _
  callEntered running := running

/-- To keep more names waiting is to demand more. -/
theorem ordered_refines {more : Names} (less : ∀ {env name}, kept env name → more env name) :
    (ordered more).Refines (ordered kept) where
  store := fun ⟨ordered, waiting⟩ => ⟨ordered, fun isKept => waiting (less isKept)⟩
  change := id
  raised := id
  running := Iff.rfl

end Contract

/-! ### Declaring and initializing names -/

namespace Operation

open Contract

variable {kept : Names} {past : List Event} {m : Machine} {env : EnvironmentId}

theorem createMutable_goes {C : Contract} (lawful : C.Lawful) (store : C.store past m.store)
    (declarative : m.store.Declarative env) {name : String}
    (absent : m.store.binding? env name = none) (deletable : Bool) :
    C.Goes past m (createMutable env name deletable) fun _ past' m' =>
      past' = past ∧
        m.store.editBindings env (·.create name { deletable }) = (.ok (), m'.store) :=
  .askingRecord declarative store fun _ =>
    lawful.created store (declarative.hasBinding_eq_false_iff.2 absent) _ rfl

theorem createImmutable_goes {C : Contract} (lawful : C.Lawful) (store : C.store past m.store)
    (declarative : m.store.Declarative env) {name : String}
    (absent : m.store.binding? env name = none) (strict : Bool) :
    C.Goes past m (createImmutable env name strict) fun _ past' m' =>
      past' = past ∧
        m.store.editBindings env (·.create name (.constant strict)) = (.ok (), m'.store) :=
  .askingRecord declarative store fun _ =>
    lawful.created store (declarative.hasBinding_eq_false_iff.2 absent) _ rfl

/-- A name of an environment may get a first value if it is no name that waits, and has no value of
its declaration. -/
theorem setInitialBinding_goes (store : (ordered kept).store past m.store)
    (declarative : m.store.Declarative env) {name : String} (value : Value)
    (free : ¬ Waits past env name)
    (first : ∀ {binding}, HasDeclared past env name → m.store.binding? env name = some binding →
      binding.value = none) :
    (ordered kept).Goes past m (setInitialBinding env name value)
      fun _ past' _ => past' = past := by
  refine .askingRecord declarative store fun _ => ?_
  refine .editBindings (fun _ => trivial) store fun t edited => ⟨fun ⟨order, waiting⟩ => ?_, rfl⟩
  obtain ⟨order', constants⟩ := order.setInitial edited free first
  exact ⟨⟨order', waiting⟩, constants⟩

/-- A name that is not there yet is declared and waits; so it is none that is kept waiting. -/
theorem createLexical_goes (store : (ordered kept).store past m.store)
    (declarative : m.store.Declarative env) {name : String}
    (absent : m.store.binding? env name = none) (isConst : Bool) :
    (ordered kept).Goes past m (createLexical env name isConst) fun _ past' _ =>
      past' = .declared env name isConst :: past ∧ Waits past' env name ∧ ¬ kept env name := by
  obtain ⟨order, waiting⟩ := store
  have known : ∀ {past'} {m' : Machine} {binding : Binding}, binding.value = none →
      binding.deletable = false → binding.isMutable = !isConst → past' = past ∧
        m.store.editBindings env (·.create name binding) = (.ok (), m'.store) →
      (ordered kept).store past' m'.store →
      (ordered kept).Goes past' m' (note (.declared env name isConst)) fun _ past'' _ =>
        past'' = .declared env name isConst :: past ∧ Waits past'' env name ∧ ¬ kept env name := by
    rintro past m' binding fresh permanent isMutable ⟨rfl, created⟩ ⟨order', -⟩
    obtain ⟨-, after⟩ := declarative.of_create created
    have undeclared := order.not_declared_of_absent absent
    have uninitialized : .initialized env name ∉ Event.declared env name isConst :: past := by
      intro mem
      rcases List.mem_cons.1 mem with same | mem
      · cases same
      · exact undeclared (order.declared mem)
    have waits : Waits (.declared env name isConst :: past) env name :=
      ⟨⟨isConst, List.mem_cons_self⟩, uninitialized⟩
    refine .note ⟨?_, fun isKept => (waiting isKept).declare isConst⟩
      ⟨rfl, waits, fun isKept => undeclared (waiting isKept).1⟩
    exact {
      once := List.nodup_cons.2 ⟨fun mem => undeclared ⟨isConst, mem⟩, order'.once⟩
      calm := by simp [order'.calm]
      bound := fun {id key isConst} mem => by
        rcases List.mem_cons.1 mem with same | mem
        · cases same
          refine ⟨binding, ?_, permanent, isMutable, fun _ => fresh⟩
          rw [after, declarative.binding?_withBinding, if_pos ⟨rfl, rfl⟩]
        · obtain ⟨binding', found, permanent', isMutable', missing⟩ := order'.bound mem
          exact ⟨binding', found, permanent', isMutable', fun still =>
            missing fun mem => still (List.mem_cons_of_mem _ mem)⟩
      declared := fun {id key} mem => by
        rcases List.mem_cons.1 mem with same | mem
        · cases same
        · exact (order'.declared mem).cons _
      sound := order'.sound
      globals := order'.globals }
  have store : (ordered kept).store past m.store := ⟨order, waiting⟩
  unfold createLexical
  cases isConst with
  | true =>
    exact (createImmutable_goes ordered_lawful store declarative absent true).bind
      fun _ _ _ _ _ store' made => known rfl rfl rfl made store'
  | false =>
    exact (createMutable_goes ordered_lawful store declarative absent false).bind
      fun _ _ _ _ _ store' made => known rfl rfl rfl made store'

/-- The declaration of a name that waits and is not kept waiting gives it its first value. -/
theorem initializeLexical_goes (store : (ordered kept).store past m.store) {name : String}
    (waits : Waits past env name) (free : ¬ kept env name) (value : Value) :
    (ordered kept).Goes past m (initializeLexical env name value) fun _ past' _ =>
      past' = .initialized env name :: past := by
  obtain ⟨order, waiting⟩ := store
  obtain ⟨binding, found, -, missing⟩ := order.bound_of_waits waits
  have known : (ordered kept).store (.initialized env name :: past) m.store := by
    refine ⟨?_, fun {id key} isKept => (waiting isKept).initialized ?_⟩
    · exact {
        once := List.nodup_cons.2 ⟨waits.2, order.once⟩
        calm := by simp [order.calm]
        bound := fun {id key isConst} mem => by
          rcases List.mem_cons.1 mem with same | mem
          · cases same
          · obtain ⟨binding', found', permanent, isMutable, waiting⟩ := order.bound mem
            exact ⟨binding', found', permanent, isMutable, fun still =>
              waiting fun mem => still (List.mem_cons_of_mem _ mem)⟩
        declared := fun {id key} mem => by
          rcases List.mem_cons.1 mem with same | mem
          · cases same
            exact waits.1.cons _
          · exact (order.declared mem).cons _
        sound := order.sound
        globals := order.globals }
    · rintro rfl rfl
      exact free isKept
  refine (Goes.note (Q := fun _ past' m' =>
    past' = .initialized env name :: past ∧ m' = m) known ⟨rfl, rfl⟩).bind ?_
  rintro _ _ m' _ _ store' ⟨rfl, rfl⟩
  refine setInitialBinding_goes store' (.of_binding? found) value
    (fun still => still.2 List.mem_cons_self) fun _ found' => ?_
  rw [found] at found'
  cases found'
  exact missing

end Operation

end ScriptEngine
