import ScriptEngine.Evaluate.Declaration
import ScriptEngine.Proofs.Evaluation.Run
import ScriptEngine.Proofs.Store.Bindings

/-!
# Declaring names with values

What declaring and assigning does in an environment that has bindings of its own. A name that is
there can be written to unless it waits for a value or keeps the one that it has, and a name that is
not there yet comes into being as one that can be written to. So the parameters, variables and
functions of a scope can all be declared in a new environment, in any order and any number of times
(`Writes`).
-/
namespace ScriptEngine

namespace Store

variable {s t u : Store} {env : EnvironmentId} {name : String} {names more : List String}

/-- Whatever binding of the name the environment has, it has a value and can be assigned to. -/
def Writable (s : Store) (env : EnvironmentId) (name : String) : Prop :=
  ∀ binding, s.binding? env name = some binding →
    binding.value ≠ none ∧ binding.isMutable = true

theorem Unbound.writable (unbound : s.Unbound env) (name : String) : s.Writable env name := by
  intro binding found
  rw [unbound.absent name] at found
  cases found

/-- Some names of an environment may have been written, and nothing else has changed. -/
structure Writes (env : EnvironmentId) (names : List String) (s t : Store) : Prop where
  reaches : s.Reaches t
  objects : t.objects = s.objects
  others : ∀ id key, (id = env → key ∉ names) → t.binding? id key = s.binding? id key
  writable : ∀ key, s.Writable env key → t.Writable env key

namespace Writes

theorem refl (env : EnvironmentId) (names : List String) (s : Store) : Writes env names s s where
  reaches := .refl s
  objects := rfl
  others _ _ _ := rfl
  writable _ := id

theorem trans (first : Writes env names s t) (second : Writes env names t u) :
    Writes env names s u where
  reaches := first.reaches.trans second.reaches
  objects := second.objects.trans first.objects
  others id key other := (second.others id key other).trans (first.others id key other)
  writable key writable := second.writable key (first.writable key writable)

theorem mono (writes : Writes env names s t) (subset : names ⊆ more) : Writes env more s t where
  reaches := writes.reaches
  objects := writes.objects
  others id key other := writes.others id key fun same mem => other same (subset mem)
  writable := writes.writable

theorem declarative (writes : Writes env names s t) {id : EnvironmentId}
    (declarative : s.Declarative id) : t.Declarative id := writes.reaches.declarative declarative

end Writes

/-- The name has got a value that can be replaced, and nothing else has changed. -/
structure Binds (env : EnvironmentId) (name : String) (value : Value) (s t : Store) : Prop
    extends Writes env [name] s t where
  bound : ∃ binding, t.binding? env name = some binding ∧ binding.value = some value ∧
    binding.isMutable = true

/-- A binding that is set to one with a value that can be replaced. -/
theorem Binds.of_binding? {value : Value} {binding : Binding} (reaches : s.Reaches t)
    (objects : t.objects = s.objects)
    (set : ∀ id key, t.binding? id key =
      if id = env ∧ key = name then some binding else s.binding? id key)
    (initialized : binding.value = some value) (changeable : binding.isMutable = true) :
    Binds env name value s t where
  reaches := reaches
  objects := objects
  others id key other := by
    rw [set, if_neg]
    rintro ⟨same, rfl⟩
    exact other same List.mem_cons_self
  writable key writable found := by
    rw [set]
    split
    · rintro ⟨⟩
      exact ⟨by simp [initialized], changeable⟩
    · exact writable found
  bound := ⟨binding, by rw [set, if_pos ⟨rfl, rfl⟩], initialized, changeable⟩

@[simp]
theorem objects_withBinding (s : Store) (env : EnvironmentId) (name : String) (binding : Binding) :
    (s.withBinding env name binding).objects = s.objects := by
  unfold withBinding
  split <;> rfl

/-- A name that is there gets a value. -/
theorem Declarative.editBindings_setInitial {binding : Binding}
    (found : s.binding? env name = some binding) (value : Value) :
    s.editBindings env (·.setInitial name value) =
      (.ok (), s.withBinding env name { binding with value := some value }) := by
  obtain ⟨bindings, outer, eq⟩ := (of_binding? found).environment
  have there : bindings.find? name = some binding := by simpa [binding?, eq] using found
  simp [editBindings, Store.withBinding, eq, Bindings.setInitial, there]

/-- A name that can be written to is assigned to; one that is not there comes into being. -/
theorem Declarative.editBindings_assign (declarative : s.Declarative env)
    (writable : s.Writable env name) (value : Value) :
    ∃ binding, binding.value = some value ∧ binding.isMutable = true ∧
      s.editBindings env (·.assign name value false) =
        (.ok (), s.withBinding env name binding) := by
  obtain ⟨bindings, outer, eq⟩ := declarative.environment
  cases found : bindings.find? name with
  -- Only strict code is refused to write to a name that is not there.
  | none =>
    refine ⟨{ Binding.removable with value := some value }, rfl, rfl, ?_⟩
    simp [editBindings, Store.withBinding, eq, Bindings.assign, found]
  | some binding =>
    obtain ⟨initialized, changeable⟩ := writable binding (by simpa [binding?, eq] using found)
    refine ⟨{ binding with value := some value }, rfl, changeable, ?_⟩
    simp [editBindings, Store.withBinding, eq, Bindings.assign, found, initialized, changeable]

end Store

namespace Operation

open Evaluation

variable {m : Machine} {env : EnvironmentId} {name : String}

/-- A name that is not there yet comes into being. -/
theorem create_of_absent (declarative : m.store.Declarative env)
    (absent : m.store.binding? env name = none) (binding : Binding)
    (fresh : binding.value = none) :
    (create env name binding fresh).run m =
      (.value (), { m with store := m.store.withBinding env name binding }) := by
  have edited := declarative.editBindings_create binding absent
  change (ofRefusal (m.store.editBindings env _).1,
    { m with store := (m.store.editBindings env _).2 }) = _
  rw [edited]
  rfl

theorem createMutable_run (declarative : m.store.Declarative env)
    (absent : m.store.binding? env name = none) (deletable : Bool) :
    (createMutable env name deletable).run m =
      (.value (), { m with store := m.store.withBinding env name { deletable } }) := by
  obtain ⟨bindings, record⟩ := declarative.record
  simp only [createMutable, run_bind, run_ask, andThen_value, record]
  exact create_of_absent declarative absent { deletable } rfl

theorem createImmutable_run (declarative : m.store.Declarative env)
    (absent : m.store.binding? env name = none) (strict : Bool) :
    (createImmutable env name strict).run m =
      (.value (), { m with store := m.store.withBinding env name (.constant strict) }) := by
  obtain ⟨bindings, record⟩ := declarative.record
  simp only [createImmutable, run_bind, run_ask, andThen_value, record]
  exact create_of_absent declarative absent (.constant strict) rfl

/-- A name that is there gets its first value. -/
theorem setInitial_run {binding : Binding} (found : m.store.binding? env name = some binding)
    (value : Value) :
    (setInitial env name value).run m =
      (.value (), { m with
        store := m.store.withBinding env name { binding with value := some value } }) := by
  have edited := Store.Declarative.editBindings_setInitial found value
  change (ofRefusal (m.store.editBindings env _).1,
    { m with store := (m.store.editBindings env _).2 }) = _
  rw [edited]
  rfl

theorem setInitialBinding_run {binding : Binding} (found : m.store.binding? env name = some binding)
    (value : Value) :
    (setInitialBinding env name value).run m =
      (.value (), { m with
        store := m.store.withBinding env name { binding with value := some value } }) := by
  obtain ⟨bindings, record⟩ := (Store.Declarative.of_binding? found).record
  simp only [setInitialBinding, run_bind, run_ask, andThen_value, record]
  exact setInitial_run found value

/-- A name that has a value is read. -/
theorem getBinding_run {binding : Binding} {value : Value}
    (found : m.store.binding? env name = some binding) (initialized : binding.value = some value)
    (strict : Bool) : (getBinding env name strict).run m = (.value value, m) := by
  obtain ⟨bindings, record⟩ := (Store.Declarative.of_binding? found).record
  have own : bindings.find? name = some binding := by
    simpa only [Store.binding?, record] using found
  have read : bindings.read name = .ok value := by
    obtain ⟨_, _, _, _⟩ := binding
    cases initialized
    simp only [Bindings.read, own]
  simp [getBinding, record, read]

/-- A name that is not there yet can be declared. -/
theorem declare_run (declarative : m.store.Declarative env)
    (absent : m.store.binding? env name = none) (deletable : Bool) (value : Value) :
    ∃ after, (declare env name deletable value).run m = (.value (), after) ∧
      Store.Binds env name value m.store after.store := by
  let between : Machine := { m with store := m.store.withBinding env name { deletable } }
  have set := declarative.binding?_withBinding name { deletable }
  have there : between.store.binding? env name = some { deletable } := by
    rw [set, if_pos ⟨rfl, rfl⟩]
  have created : (createMutable env name deletable).run m = (.value (), between) :=
    createMutable_run declarative absent deletable
  have run : (declare env name deletable value).run m =
      (.value (), { m with store :=
        between.store.withBinding env name { deletable, value := some value } }) := by
    rw [declare, run_bind, created, andThen_value]
    exact setInitialBinding_run there value
  have reaches := (declare env name deletable value).steps m
  rw [run] at reaches
  -- The binding was made without a value first, which the second change covers.
  have both : ∀ id key,
      (between.store.withBinding env name { deletable, value := some value }).binding? id key =
        if id = env ∧ key = name then some { deletable, value := some value }
        else m.store.binding? id key := by
    intro id key
    rw [(Store.Declarative.of_binding? there).binding?_withBinding, set]
    split <;> rfl
  exact ⟨_, run, .of_binding? reaches (by simp [between]) both rfl rfl⟩

/-- The binding of a `let` or `const` name that waits for its declaration to run. -/
def lexicalBinding (isConst : Bool) : Binding := if isConst then .constant true else .permanent

@[simp]
theorem deletable_lexicalBinding (isConst : Bool) : (lexicalBinding isConst).deletable = false := by
  cases isConst <;> rfl

/-- A `let` or `const` name that is not there yet is declared, and waits for its declaration. -/
theorem createLexical_run (declarative : m.store.Declarative env)
    (absent : m.store.binding? env name = none) (isConst : Bool) :
    (createLexical env name isConst).run m =
      (.value (), { m with store := m.store.withBinding env name (lexicalBinding isConst) }) := by
  cases isConst with
  | true =>
    rw [createLexical, if_pos rfl, run_bind_note]
    exact createImmutable_run declarative absent true
  | false =>
    rw [createLexical, if_neg nofun, run_bind_note]
    exact createMutable_run declarative absent false

/-- A `let` or `const` name that is there gets a value. -/
theorem initializeLexical_run {binding : Binding}
    (found : m.store.binding? env name = some binding) (value : Value) :
    (initializeLexical env name value).run m =
      (.value (), { m with
        store := m.store.withBinding env name { binding with value := some value } }) := by
  rw [initializeLexical, run_bind, run_note, andThen_value]
  exact setInitialBinding_run found value

/-- A name that can be written to can be assigned to. -/
theorem setBinding_run (declarative : m.store.Declarative env)
    (writable : m.store.Writable env name) (value : Value) :
    ∃ after, (setBinding env name value false).run m = (.value (), after) ∧
      Store.Binds env name value m.store after.store := by
  obtain ⟨bindings, record⟩ := declarative.record
  obtain ⟨binding, initialized, changeable, edited⟩ :=
    declarative.editBindings_assign writable value
  have run : (setBinding env name value false).run m =
      (.value (), { m with store := m.store.withBinding env name binding }) := by
    simp only [setBinding, run_bind, run_ask, andThen_value, record]
    change (ofRefusal (m.store.editBindings env _).1,
      { m with store := (m.store.editBindings env _).2 }) = _
    rw [edited]
    rfl
  have reaches := (setBinding env name value false).steps m
  rw [run] at reaches
  exact ⟨_, run, .of_binding? reaches (by simp)
    (declarative.binding?_withBinding name binding) initialized changeable⟩

end Operation

namespace Evaluate

open Evaluation Operation

variable {m : Machine} {env : EnvironmentId}

theorem declareOnce_run (declarative : m.store.Declarative env) (deletable : Bool)
    (name : String) :
    ∃ after, (declareOnce env deletable name).run m = (.value (), after) ∧
      Store.Writes env [name] m.store after.store := by
  have run : (declareOnce env deletable name).run m =
      (if !m.store.hasBinding env name then declare env name deletable .undefined
        else pure () : Evaluation Unit).run m := rfl
  cases there : m.store.hasBinding env name with
  -- What is there keeps its value.
  | true =>
    rw [there] at run
    exact ⟨m, run, .refl env [name] m.store⟩
  | false =>
    rw [there] at run
    obtain ⟨after, declared, binds⟩ :=
      declare_run declarative (declarative.hasBinding_eq_false_iff.1 there) deletable .undefined
    exact ⟨after, run.trans declared, binds.toWrites⟩

/-- Each of some names is declared, unless it is already. -/
theorem declareAllOnce_run (declarative : m.store.Declarative env) (deletable : Bool)
    (names : List String) :
    ∃ after, (names.forM (declareOnce env deletable)).run m = (.value (), after) ∧
      Store.Writes env names m.store after.store := by
  induction names generalizing m with
  | nil => exact ⟨m, rfl, .refl env [] m.store⟩
  -- A name that is declared leaves the environment ready for the rest, repeated names included.
  | cons name rest ih =>
    obtain ⟨between, run, writes⟩ := declareOnce_run declarative deletable name
    obtain ⟨after, run', writes'⟩ := ih (writes.declarative declarative)
    refine ⟨after, ?_, (writes.mono (by simp)).trans (writes'.mono (List.subset_cons_self _ _))⟩
    change (declareOnce env deletable name >>= fun _ =>
      rest.forM (declareOnce env deletable)).run m = _
    rw [run_bind, run, andThen_value, run']

theorem declareParameters_run (declarative : m.store.Declarative env)
    (parameters : List Identifier) :
    ∃ after, (parameters.forM fun parameter => declareOnce env false parameter.name).run m =
        (.value (), after) ∧
      Store.Writes env (parameters.map (·.name)) m.store after.store := by
  have eq : (parameters.forM fun parameter => declareOnce env false parameter.name) =
      (parameters.map (·.name)).forM (declareOnce env false) := (List.forM_map ..).symm
  rw [eq]
  exact declareAllOnce_run declarative false _

/-- The object of the arguments is a new one, and nothing else has changed. -/
theorem newArguments_run (f : ObjectId) (arguments : List Value) (strict : Bool) (m : Machine) :
    ∃ object after, (some <$> newArguments f arguments strict).run m =
        (.value (some object), after) ∧ after.store.environments = m.store.environments :=
  ⟨_, _, rfl, rfl⟩

/-- A function gets an object of its arguments only if no parameter has that name. -/
theorem parameter_ne_of_bindsArguments {code : FunctionCode} (binds : bindsArguments code = true) :
    "arguments" ∉ code.parameters.map (·.name) := by
  simp only [bindsArguments, Bool.and_eq_true, Bool.not_eq_true', List.any_eq_false, beq_iff_eq]
    at binds
  rw [List.mem_map]
  rintro ⟨parameter, mem, same⟩
  exact binds.1.1 parameter mem same

/-- Nor has any of its functions. -/
theorem function_ne_of_bindsArguments {code inner : FunctionCode}
    (binds : bindsArguments code = true) (mem : inner ∈ code.scope.functions) :
    inner.name ≠ "arguments" := by
  simp only [bindsArguments, Bool.and_eq_true, Bool.not_eq_true', List.any_eq_false, beq_iff_eq]
    at binds
  exact binds.1.2 inner mem

theorem assignParameters_run (declarative : m.store.Declarative env)
    (parameters : List Identifier) (arguments : List Value)
    (writable : ∀ parameter ∈ parameters, m.store.Writable env parameter.name) :
    ∃ after, (assignParameters env parameters arguments).run m = (.value (), after) ∧
      Store.Writes env (parameters.map (·.name)) m.store after.store := by
  induction parameters generalizing m arguments with
  | nil => exact ⟨m, rfl, .refl env [] m.store⟩
  -- The arguments go along with the parameters; where there are none left, it is `undefined`.
  | cons parameter rest ih =>
    obtain ⟨first, others⟩ := List.forall_mem_cons.1 writable
    obtain ⟨between, run, binds⟩ :=
      setBinding_run declarative first (arguments.head?.getD .undefined)
    have writes := binds.toWrites
    obtain ⟨after, run', writes'⟩ := ih (writes.declarative declarative) arguments.tail
      fun parameter mem => writes.writable _ (others parameter mem)
    refine ⟨after, ?_, (writes.mono (by simp)).trans (writes'.mono (by simp))⟩
    rw [assignParameters, run_bind, run, andThen_value, run']

end Evaluate

end ScriptEngine
