import ScriptEngine.Machine.WellKnown
import ScriptEngine.Proofs.Store.Dictionary

/-!
# What evaluation does to a binding

The binding of a name in an environment is looked at from outside: it is there or not, and each
step does one of six things to it (`Step.binding_change`). Main result: a binding that scripts
cannot remove is there for good (`Reaches.binding_lasts`).
-/
namespace ScriptEngine

/-- What a step other than an initialization can do to the binding of a name, if there is one. -/
inductive Binding.Quiet : Option Binding → Option Binding → Prop where
  | same (place : Option Binding) : Quiet place place
  | create {binding : Binding} (fresh : binding.value = none) : Quiet none (some binding)
  | assign {binding : Binding} (initialized : binding.value ≠ none) (changeable : binding.isMutable)
    (value : Value) : Quiet (some binding) (some { binding with value := some value })
  /-- An assignment declares a name that is not there. -/
  | declare (value : Value) : Quiet none (some { Binding.removable with value := some value })
  | delete {binding : Binding} (deletable : binding.deletable) : Quiet (some binding) none

/-- What a step can do to the binding of a name. -/
inductive Binding.Change : Option Binding → Option Binding → Prop where
  | quiet {before after : Option Binding} (quiet : Quiet before after) : Change before after
  | initial (binding : Binding) (value : Value) :
    Change (some binding) (some { binding with value := some value })

namespace Binding

variable {place place' : Option Binding} {binding : Binding}

/-- What scripts cannot remove stays, with its kind. -/
theorem Change.lasts (change : Change (some binding) place)
    (permanent : binding.deletable = false) :
    ∃ binding', place = some binding' ∧ binding'.deletable = false ∧
      binding'.isMutable = binding.isMutable ∧ binding'.strict = binding.strict := by
  cases change with
  | initial value => exact ⟨_, rfl, permanent, rfl, rfl⟩
  | quiet quiet =>
    cases quiet with
    | same => exact ⟨binding, rfl, permanent, rfl, rfl⟩
    | assign initialized changeable value => exact ⟨_, rfl, permanent, rfl, rfl⟩
    | delete deletable =>
      rw [permanent] at deletable
      cases deletable

/-- What scripts cannot remove keeps having a value. -/
theorem Change.initialized (change : Change (some binding) place)
    (permanent : binding.deletable = false) (initialized : binding.value ≠ none) :
    ∃ binding', place = some binding' ∧ binding'.deletable = false ∧ binding'.value ≠ none := by
  cases change with
  | initial value => exact ⟨_, rfl, permanent, nofun⟩
  | quiet quiet =>
    cases quiet with
    | same => exact ⟨binding, rfl, permanent, initialized⟩
    | assign _ changeable value => exact ⟨_, rfl, permanent, nofun⟩
    | delete deletable =>
      rw [permanent] at deletable
      cases deletable

end Binding

namespace Bindings

variable {bs bs' : Bindings} {name : String} {value : Value}

theorem find?_create {binding : Binding} (created : bs.create name binding = .ok bs')
    (key : String) :
    bs.find? name = none ∧
      bs'.find? key = if key = name then some binding else bs.find? key := by
  unfold create at created
  split at created
  · cases created
  next absent =>
    cases created
    refine ⟨(bs.find?_eq_none_iff name).2 ?_, bs.find?_insert name binding key⟩
    rwa [bs.contains_iff] at absent

theorem find?_setInitial (initialized : bs.setInitial name value = .ok bs') (key : String) :
    ∃ binding, bs.find? name = some binding ∧
      bs'.find? key =
        if key = name then some { binding with value := some value } else bs.find? key := by
  unfold setInitial at initialized
  split at initialized
  next binding found =>
    cases initialized
    exact ⟨binding, found, bs.find?_insert name _ key⟩
  · cases initialized

theorem create_quiet {binding : Binding} (fresh : binding.value = none)
    (created : bs.create name binding = .ok bs') (key : String) :
    Binding.Quiet (bs.find? key) (bs'.find? key) := by
  obtain ⟨absent, after⟩ := find?_create created key
  rw [after]
  split
  next same =>
    rw [same, absent]
    exact .create fresh
  · exact .same _

theorem setInitial_change (initialized : bs.setInitial name value = .ok bs') (key : String) :
    Binding.Change (bs.find? key) (bs'.find? key) := by
  obtain ⟨binding, found, after⟩ := find?_setInitial initialized key
  rw [after]
  split
  next same =>
    rw [same, found]
    exact .initial binding value
  · exact .quiet (.same _)

theorem assign_quiet {strict : Bool} (assigned : bs.assign name value strict = .ok bs')
    (key : String) : Binding.Quiet (bs.find? key) (bs'.find? key) := by
  unfold assign at assigned
  split at assigned
  next absent =>
    split at assigned
    · cases assigned
    cases assigned
    rw [Dictionary.find?_insert]
    split
    next same =>
      rw [same, absent]
      exact .declare value
    · exact .same _
  next binding found =>
    split at assigned
    · cases assigned
    next initialized =>
      split at assigned
      next changeable =>
        cases assigned
        rw [Dictionary.find?_insert]
        split
        next same =>
          rw [same, found]
          refine .assign (fun missing => initialized ?_) changeable value
          rw [missing]
          rfl
        · exact .same _
      -- An assignment that is ignored changes nothing.
      · split at assigned
        · cases assigned
        · cases assigned
          exact .same _

/-- An assignment that changes anything gives the binding its value, the one that is there or, in code
that is not strict, a new one that can be removed. -/
theorem assign_eq {strict : Bool} (assigned : bs.assign name value strict = .ok bs') :
    bs' = bs ∨ ∃ binding : Binding, bs' = bs.insert name { binding with value := some value } ∧
      (bs.find? name = some binding ∨ strict = false ∧ bs.find? name = none) := by
  unfold assign at assigned
  split at assigned
  next absent =>
    split at assigned
    · cases assigned
    next lax =>
      cases assigned
      exact .inr ⟨.removable, rfl, .inr ⟨Bool.not_eq_true _ ▸ lax, absent⟩⟩
  next binding found =>
    split at assigned
    · cases assigned
    split at assigned
    · cases assigned
      exact .inr ⟨binding, rfl, .inl found⟩
    split at assigned
    · cases assigned
    · cases assigned
      exact .inl rfl

/-- What is there after a deletion was there before. -/
theorem find?_of_delete {key : String} {binding : Binding}
    (found : (bs.delete name).1.find? key = some binding) : bs.find? key = some binding := by
  unfold delete at found
  split at found
  · exact found
  split at found
  · rw [Dictionary.find?_erase] at found
    split at found
    · cases found
    · exact found
  · exact found

theorem delete_quiet (bs : Bindings) (name key : String) :
    Binding.Quiet (bs.find? key) ((bs.delete name).1.find? key) := by
  unfold delete
  split
  · exact .same _
  next binding found =>
    split
    next deletable =>
      rw [Dictionary.find?_erase]
      split
      next same =>
        rw [same, found]
        exact .delete deletable
      · exact .same _
    · exact .same _

end Bindings

namespace Store

variable {s t : Store}

/-- The binding of a name in an environment that has bindings of its own. -/
def binding? (s : Store) (env : EnvironmentId) (name : String) : Option Binding :=
  match (s.environment env).record with
  | .declarative bindings => bindings.find? name
  | .object _ => none

theorem hasBinding_of_binding? {env : EnvironmentId} {name : String} {binding : Binding}
    (found : s.binding? env name = some binding) : s.hasBinding env name = true := by
  unfold binding? at found
  unfold hasBinding
  cases record : (s.environment env).record with
  | declarative bindings =>
    rw [record] at found
    exact (bindings.contains_iff name).2 ((bindings.mem_keys_iff name).2 ⟨binding, found⟩)
  | object id =>
    rw [record] at found
    cases found

/-! ### Environments after an elementary operation -/

theorem environment_openEnvironment (s : Store) (record : Record) (outer : Option EnvironmentId)
    (id : EnvironmentId) :
    (s.openEnvironment record outer).2.environment id =
      if id.index = s.environments.size then ⟨record, outer⟩ else s.environment id := by
  simp only [environment, openEnvironment, Array.getD_eq_getD_getElem?, Array.getElem?_push]
  split <;> rfl

/-- Past the end of a store there are only empty environments. -/
theorem environment_of_size_le (s : Store) {id : EnvironmentId}
    (past : s.environments.size ≤ id.index) : s.environment id = ⟨.declarative .empty, none⟩ := by
  simp only [environment, Array.getD_eq_getD_getElem?, Array.getElem?_eq_none past,
    Option.getD_none]

/-- An edit that succeeds changes the bindings of its environment and nothing else; an environment
that takes the properties of an object for bindings has none to edit. -/
theorem environment_editBindings {env : EnvironmentId}
    {edit : Bindings → Except Cause Bindings} (edited : s.editBindings env edit = (.ok (), t))
    (id : EnvironmentId) :
    t.environment id = s.environment id ∨
      ∃ bs bs' outer, id = env ∧ s.environment id = ⟨.declarative bs, outer⟩ ∧
        edit bs = .ok bs' ∧ t.environment id = ⟨.declarative bs', outer⟩ := by
  unfold editBindings at edited
  split at edited
  next bs outer declarative =>
    split at edited
    next bs' eq =>
      cases edited
      by_cases same : id = env
      · subst same
        by_cases present : id.index < s.environments.size
        · refine .inr ⟨bs, bs', outer, rfl, declarative, eq, ?_⟩
          simp [environment, present]
        -- Past the end there is nothing to set.
        · refine .inl ?_
          simp [environment, present]
      · refine .inl ?_
        obtain ⟨i⟩ := id
        obtain ⟨j⟩ := env
        have other : ¬ j = i := fun eq => same (congrArg _ eq.symm)
        simp [environment, other]
    · cases edited
  · cases edited
    exact .inl rfl

theorem size_environments_editBindings {env : EnvironmentId}
    {edit : Bindings → Except Cause Bindings} {outcome : Except Cause Unit}
    (edited : s.editBindings env edit = (outcome, t)) :
    t.environments.size = s.environments.size := by
  unfold editBindings at edited
  split at edited
  · split at edited <;> cases edited <;> simp
  · cases edited
    rfl

/-! ### Environments with bindings of their own -/

/-- The environment is there and has bindings of its own. -/
structure Declarative (s : Store) (env : EnvironmentId) : Prop where
  present : env.index < s.environments.size
  record : ∃ bindings, (s.environment env).record = .declarative bindings

/-- The store with another binding of a name in an environment. -/
def withBinding (s : Store) (env : EnvironmentId) (name : String) (binding : Binding) : Store :=
  match s.environment env with
  | ⟨.declarative bindings, outer⟩ =>
    { s with
      environments :=
        s.environments.setIfInBounds env.index ⟨.declarative (bindings.insert name binding), outer⟩ }
  | ⟨.object _, _⟩ => s

/-- The environment has bindings of its own, but none yet. -/
structure Unbound (s : Store) (env : EnvironmentId) : Prop where
  declarative : s.Declarative env
  absent : ∀ name, s.binding? env name = none

namespace Declarative

variable {env : EnvironmentId} {name : String}

theorem hasBinding_eq_false_iff (declarative : s.Declarative env) :
    s.hasBinding env name = false ↔ s.binding? env name = none := by
  obtain ⟨bindings, record⟩ := declarative.record
  rw [hasBinding, binding?, record, Dictionary.find?_eq_none_iff, ← Dictionary.contains_iff,
    Bool.not_eq_true]

theorem of_binding? {binding : Binding} (found : s.binding? env name = some binding) :
    s.Declarative env := by
  refine ⟨Nat.lt_of_not_le fun past => ?_, ?_⟩
  · rw [binding?, s.environment_of_size_le past] at found
    cases found
  · unfold binding? at found
    split at found
    next bindings record => exact ⟨bindings, record⟩
    · cases found

theorem environment (declarative : s.Declarative env) :
    ∃ bindings outer, s.environment env = ⟨.declarative bindings, outer⟩ := by
  obtain ⟨bindings, record⟩ := declarative.record
  exact ⟨bindings, (s.environment env).outer, by rw [← record]⟩

theorem environment_withBinding (declarative : s.Declarative env) (name : String)
    (binding : Binding) (id : EnvironmentId) :
    (s.withBinding env name binding).environment id =
      if id = env then
        ⟨match (s.environment env).record with
          | .declarative bindings => .declarative (bindings.insert name binding)
          | .object o => .object o, (s.environment env).outer⟩
      else s.environment id := by
  obtain ⟨bindings, outer, eq⟩ := declarative.environment
  obtain ⟨i⟩ := id
  obtain ⟨j⟩ := env
  have present := declarative.present
  simp only [withBinding, eq]
  by_cases same : i = j
  · subst same
    simp [Store.environment, present]
  · have other : ¬ j = i := fun eq => same eq.symm
    simp [Store.environment, same, other]

theorem binding?_withBinding (declarative : s.Declarative env) (name : String) (binding : Binding)
    (id : EnvironmentId) (key : String) :
    (s.withBinding env name binding).binding? id key =
      if id = env ∧ key = name then some binding else s.binding? id key := by
  obtain ⟨bindings, record⟩ := declarative.record
  rw [binding?, declarative.environment_withBinding]
  by_cases same : id = env
  · subst same
    simp only [if_true, true_and, record, Dictionary.find?_insert, binding?]
  · simp only [same, if_false, false_and, binding?]

theorem withBinding (declarative : s.Declarative env) (name : String) (binding : Binding)
    {id : EnvironmentId} (holds : s.Declarative id) :
    (s.withBinding env name binding).Declarative id := by
  refine ⟨?_, ?_⟩
  · unfold Store.withBinding
    split
    · simpa using holds.present
    · exact holds.present
  · obtain ⟨bindings, record⟩ := declarative.record
    rw [declarative.environment_withBinding]
    split
    · simp [record]
    · exact holds.record

/-- A name is created where it is not there yet. -/
theorem editBindings_create (declarative : s.Declarative env) (binding : Binding)
    (absent : s.binding? env name = none) :
    s.editBindings env (·.create name binding) = (.ok (), s.withBinding env name binding) := by
  obtain ⟨bindings, outer, eq⟩ := declarative.environment
  have missing : bindings.contains name = false := by
    rw [Bool.eq_false_iff, ne_eq, Dictionary.contains_iff, ← Dictionary.find?_eq_none_iff]
    simpa [binding?, eq] using absent
  simp [editBindings, Store.withBinding, eq, Bindings.create, missing]

theorem editBindings_create_of_present {binding : Binding} (new : Binding)
    (found : s.binding? env name = some binding) :
    s.editBindings env (·.create name new) = (.error (.alreadyDeclared name), s) := by
  obtain ⟨bindings, outer, eq⟩ := (of_binding? found).environment
  have contains : bindings.contains name = true := by
    rw [Dictionary.contains_iff, Dictionary.mem_keys_iff]
    exact ⟨binding, by simpa [binding?, eq] using found⟩
  simp [editBindings, eq, Bindings.create, contains]

/-- Nothing is assigned to a name without a value. -/
theorem editBindings_assign_of_missing {binding : Binding}
    (found : s.binding? env name = some binding) (missing : binding.value = none) (value : Value)
    (strict : Bool) :
    s.editBindings env (·.assign name value strict) = (.error (.uninitialized name), s) := by
  obtain ⟨bindings, outer, eq⟩ := (of_binding? found).environment
  have there : bindings.find? name = some binding := by simpa [binding?, eq] using found
  simp [editBindings, eq, Bindings.assign, there, missing]

/-- What was created was not there, and is now. -/
theorem of_create (declarative : s.Declarative env) {binding : Binding}
    (created : s.editBindings env (·.create name binding) = (.ok (), t)) :
    s.binding? env name = none ∧ t = s.withBinding env name binding := by
  cases found : s.binding? env name with
  | some old =>
    rw [editBindings_create_of_present binding found] at created
    cases created
  | none =>
    rw [declarative.editBindings_create binding found] at created
    exact ⟨rfl, (congrArg Prod.snd created).symm⟩

end Declarative

namespace Unbound

variable {env : EnvironmentId}

theorem hasBinding (unbound : s.Unbound env) (name : String) : s.hasBinding env name = false :=
  unbound.declarative.hasBinding_eq_false_iff.2 (unbound.absent name)

/-- Where the environments are the same, a new one is still new. -/
theorem of_environments (unbound : s.Unbound env) (same : t.environments = s.environments) :
    t.Unbound env where
  declarative := {
    present := same ▸ unbound.declarative.present
    record := by simpa only [environment, same] using unbound.declarative.record }
  absent name := by simpa only [binding?, environment, same] using unbound.absent name

end Unbound

/-- A first value is given to one binding that is there; all others stay as they are. -/
theorem binding?_of_setInitial {env : EnvironmentId} {name : String} {value : Value}
    (edited : s.editBindings env (·.setInitial name value) = (.ok (), t)) (id : EnvironmentId)
    (key : String) :
    t.binding? id key = s.binding? id key ∨
      id = env ∧ key = name ∧ ∃ binding, s.binding? id key = some binding := by
  rcases environment_editBindings edited id with same | ⟨bs, bs', outer, rfl, before, set, after⟩
  · exact .inl (by rw [binding?, binding?, same])
  · obtain ⟨binding, found, rest⟩ := Bindings.find?_setInitial set key
    by_cases same : key = name
    · exact .inr ⟨rfl, same, binding, by simpa [binding?, before, same] using found⟩
    · exact .inl (by simpa [binding?, before, after, same] using rest)

/-- A new environment has bindings of its own, but none yet. -/
theorem unbound_openEnvironment (s : Store) (outer : Option EnvironmentId) :
    (s.openEnvironment (.declarative .empty) outer).2.Unbound
      (s.openEnvironment (.declarative .empty) outer).1 where
  declarative := {
    present := by simp [openEnvironment]
    record := ⟨.empty, by rw [environment_openEnvironment]; simp [openEnvironment]⟩ }
  absent name := by
    rw [binding?, environment_openEnvironment]
    simp only [openEnvironment, if_true]
    rfl

@[simp]
theorem environments_setObject (s : Store) (id : ObjectId) (o : Object) :
    (s.setObject id o).environments = s.environments := rfl

@[simp]
theorem environments_allocate (s : Store) (o : Object) :
    (s.allocate o).2.environments = s.environments := rfl

@[simp]
theorem environments_define (s : Store) (id : ObjectId) (key : String) (d : Descriptor) :
    (s.define id key d).2.environments = s.environments := rfl

@[simp]
theorem environments_delete (s : Store) (id : ObjectId) (key : String) :
    (s.delete id key).2.environments = s.environments := by
  unfold delete
  split <;> rfl

/-! ### One step -/

/-- What a step does to an environment: it edits bindings, or leaves it alone. -/
inductive EnvironmentChange : Environment → Environment → Prop where
  | same (e : Environment) : EnvironmentChange e e
  | edit {bs bs' : Bindings} (outer : Option EnvironmentId)
    (each : ∀ name, Binding.Change (bs.find? name) (bs'.find? name)) :
    EnvironmentChange ⟨.declarative bs, outer⟩ ⟨.declarative bs', outer⟩

private theorem environment_change_editBindings {env : EnvironmentId}
    {edit : Bindings → Except Cause Bindings} (edited : s.editBindings env edit = (.ok (), t))
    (each : ∀ bs bs', edit bs = .ok bs' → ∀ name, Binding.Change (bs.find? name) (bs'.find? name))
    (id : EnvironmentId) : EnvironmentChange (s.environment id) (t.environment id) := by
  rcases environment_editBindings edited id with same | ⟨bs, bs', outer, rfl, before, eq, after⟩
  · rw [same]
    exact .same _
  · rw [before, after]
    exact .edit outer (each bs bs' eq)

private theorem change_of_eq (eq : t.environments = s.environments) (id : EnvironmentId) :
    EnvironmentChange (s.environment id) (t.environment id) := by
  have same : t.environment id = s.environment id := by rw [environment, eq]; rfl
  rw [same]
  exact .same _

/-- What a step does to one environment; the environments that it adds are empty. -/
theorem Step.environment_change (step : s.Step t) (id : EnvironmentId) :
    EnvironmentChange (s.environment id) (t.environment id) ∨
      (id.index = s.environments.size ∧
        ∃ outer, t.environment id = ⟨.declarative .empty, outer⟩) := by
  cases step with
  | openEnvironment outer =>
    rw [environment_openEnvironment]
    split
    next fresh => exact .inr ⟨fresh, _, rfl⟩
    · exact .inl (.same _)
  | create env name binding fresh edited =>
    exact .inl (environment_change_editBindings edited
      (fun _ _ created key => .quiet (Bindings.create_quiet fresh created key)) id)
  | setInitial env name value edited =>
    exact .inl (environment_change_editBindings edited
      (fun _ _ initialized key => Bindings.setInitial_change initialized key) id)
  | assign env name value strict edited =>
    exact .inl (environment_change_editBindings edited
      (fun _ _ assigned key => .quiet (Bindings.assign_quiet assigned key)) id)
  | forget env name edited =>
    refine .inl (environment_change_editBindings edited (fun bs _ deleted key => ?_) id)
    cases deleted
    exact .quiet (bs.delete_quiet name key)
  | allocate o wellFormed => exact .inl (change_of_eq rfl id)
  | define target key d => exact .inl (change_of_eq rfl id)
  | delete target key => exact .inl (change_of_eq (environments_delete s target key) id)
  | preventExtensions target => exact .inl (change_of_eq rfl id)
  | print line => exact .inl (change_of_eq rfl id)

/-- What a step does to the binding of a name in an environment. -/
theorem Step.binding_change (step : s.Step t) (env : EnvironmentId) (name : String) :
    Binding.Change (s.binding? env name) (t.binding? env name) := by
  unfold binding?
  rcases step.environment_change env with change | ⟨fresh, outer, new⟩
  · generalize s.environment env = before at change
    generalize t.environment env = after at change
    cases change with
    | same => exact .quiet (.same _)
    | edit outer each => exact each name
  -- An environment that is not there yet has no bindings either.
  · rw [new, s.environment_of_size_le (Nat.le_of_eq fresh.symm)]
    exact .quiet (.same _)

/-- Environments are only ever added. -/
theorem Step.environments_size_le (step : s.Step t) :
    s.environments.size ≤ t.environments.size := by
  cases step with
  | openEnvironment outer => simp [Store.openEnvironment]
  | create env name binding fresh edited =>
    exact Nat.le_of_eq (size_environments_editBindings edited).symm
  | setInitial env name value edited =>
    exact Nat.le_of_eq (size_environments_editBindings edited).symm
  | assign env name value strict edited =>
    exact Nat.le_of_eq (size_environments_editBindings edited).symm
  | forget env name edited => exact Nat.le_of_eq (size_environments_editBindings edited).symm
  | delete target key => exact Nat.le_of_eq (by rw [environments_delete])
  | allocate | define | preventExtensions | print => exact Nat.le_refl _

/-- An environment stays inside the same one. -/
theorem Step.outer_eq (taken : s.Step t) {env : EnvironmentId}
    (present : env.index < s.environments.size) :
    (t.environment env).outer = (s.environment env).outer := by
  rcases taken.environment_change env with change | ⟨fresh, -⟩
  · generalize s.environment env = e at change
    generalize t.environment env = e' at change
    cases change <;> rfl
  · exact absurd (fresh ▸ present) (Nat.lt_irrefl _)

/-- An environment with bindings of its own keeps having them. -/
theorem Step.declarative (step : s.Step t) {env : EnvironmentId} (before : s.Declarative env) :
    t.Declarative env where
  present := Nat.lt_of_lt_of_le before.present step.environments_size_le
  record := by
    obtain ⟨bindings, record⟩ := before.record
    rcases step.environment_change env with change | ⟨fresh, -⟩
    · generalize s.environment env = e at record change
      generalize t.environment env = e' at change
      cases change with
      | same => exact ⟨bindings, record⟩
      | edit outer each => exact ⟨_, rfl⟩
    · have present := before.present
      rw [← fresh] at present
      exact absurd present (Nat.lt_irrefl _)

/-- An environment that takes the properties of an object for bindings keeps doing so. -/
theorem Step.record_object (step : s.Step t) {env : EnvironmentId} {id : ObjectId}
    (before : (s.environment env).record = .object id) :
    (t.environment env).record = .object id := by
  rcases step.environment_change env with change | ⟨fresh, -⟩
  · generalize s.environment env = e at before change
    generalize t.environment env = e' at change
    cases change with
    | same => exact before
    | edit outer each => cases before
  · rw [s.environment_of_size_le (Nat.le_of_eq fresh.symm)] at before
    cases before

/-! ### Steps that initialize nothing -/

/-- No binding gets its first value on the way from one store to another. -/
def Quiet (s t : Store) : Prop :=
  ∀ env name, Binding.Quiet (s.binding? env name) (t.binding? env name)

theorem Quiet.of_environments (eq : t.environments = s.environments) : s.Quiet t := by
  intro env name
  have same : t.binding? env name = s.binding? env name := by rw [binding?, environment, eq]; rfl
  rw [same]
  exact .same _

theorem quiet_openEnvironment (s : Store) (outer : Option EnvironmentId) :
    s.Quiet (s.openEnvironment (.declarative .empty) outer).2 := by
  intro env name
  rw [binding?, binding?, environment_openEnvironment]
  by_cases fresh : env.index = s.environments.size
  -- An environment that is not there yet has no bindings either.
  · rw [if_pos fresh, s.environment_of_size_le (Nat.le_of_eq fresh.symm)]
    exact .same _
  · rw [if_neg fresh]
    exact .same _

theorem quiet_editBindings {env : EnvironmentId} {edit : Bindings → Except Cause Bindings}
    (edited : s.editBindings env edit = (.ok (), t))
    (each : ∀ bs bs', edit bs = .ok bs' → ∀ name, Binding.Quiet (bs.find? name) (bs'.find? name)) :
    s.Quiet t := by
  intro id name
  rw [binding?, binding?]
  rcases environment_editBindings edited id with same | ⟨bs, bs', outer, rfl, before, eq, after⟩
  · rw [same]
    exact .same _
  · rw [before, after]
    exact each bs bs' eq name

/-! ### Any number of steps -/

theorem Reaches.environments_size_le (reached : s.Reaches t) :
    s.environments.size ≤ t.environments.size := by
  induction reached with
  | refl => exact Nat.le_refl _
  | tail _ last ih => exact Nat.le_trans ih last.environments_size_le

theorem Reaches.declarative (reached : s.Reaches t) {env : EnvironmentId}
    (before : s.Declarative env) : t.Declarative env := by
  induction reached with
  | refl => exact before
  | tail _ last ih => exact last.declarative ih

theorem Reaches.record_object (reached : s.Reaches t) {env : EnvironmentId} {id : ObjectId}
    (before : (s.environment env).record = .object id) :
    (t.environment env).record = .object id := by
  induction reached with
  | refl => exact before
  | tail _ last ih => exact last.record_object ih

theorem Reaches.outer_eq (reached : s.Reaches t) {env : EnvironmentId}
    (present : env.index < s.environments.size) :
    (t.environment env).outer = (s.environment env).outer := by
  induction reached with
  | refl => rfl
  | tail before last ih =>
    exact (last.outer_eq (Nat.lt_of_lt_of_le present before.environments_size_le)).trans ih

/-- A binding that scripts cannot remove is there for good. -/
theorem Reaches.binding_lasts (reached : s.Reaches t) {env : EnvironmentId} {name : String}
    {binding : Binding} (found : s.binding? env name = some binding)
    (permanent : binding.deletable = false) :
    ∃ binding', t.binding? env name = some binding' ∧ binding'.deletable = false := by
  induction reached with
  | refl => exact ⟨binding, found, permanent⟩
  | tail _ last ih =>
    obtain ⟨between, there, still⟩ := ih
    have change := last.binding_change env name
    rw [there] at change
    obtain ⟨after, eq, permanent', -, -⟩ := change.lasts still
    exact ⟨after, eq, permanent'⟩

/-- The environment has a binding of the name that scripts cannot remove, with a value. -/
def Settled (s : Store) (env : EnvironmentId) (name : String) : Prop :=
  ∃ binding, s.binding? env name = some binding ∧ binding.deletable = false ∧ binding.value ≠ none

namespace Settled

variable {env : EnvironmentId} {name : String}

theorem isInitialized (settled : s.Settled env name) : s.isInitialized env name = true := by
  obtain ⟨binding, found, -, initialized⟩ := settled
  unfold binding? at found
  unfold Store.isInitialized
  cases record : (s.environment env).record with
  | object _ =>
    rw [record] at found
    cases found
  | declarative bindings =>
    rw [record] at found
    simp only [Bindings.isInitialized]
    rw [show Dictionary.find? bindings name = some binding from found, Option.any_some]
    exact Option.isSome_iff_ne_none.2 initialized

/-- A name that has its value for good always has one. -/
theorem lasts (settled : s.Settled env name) (reached : s.Reaches t) : t.Settled env name := by
  induction reached with
  | refl => exact settled
  | tail _ last ih =>
    obtain ⟨between, there, permanent, initialized⟩ := ih
    have change := last.binding_change env name
    rw [there] at change
    exact change.initialized permanent initialized

end Settled

end Store

end ScriptEngine
