import ScriptEngine.Proofs.Store.Bindings

/-!
# Bindings for good

A binding of the permanent kind is never removed, and neither is the record of an environment that
takes the properties of an object for bindings; so a name that is `Fast` in an environment stays so
(`Fast.mono`). Main result: each elementary change keeps a store without removable bindings free of
them, unless it makes one itself (`Lasting.create` and those after it). Of all assignments only one
to a name without a binding does that.
-/
namespace ScriptEngine.Store

section

variable (s : Store)

/-- No binding can be removed. -/
def Lasting : Prop :=
  ∀ (env : EnvironmentId) (name : String) (binding : Binding),
    s.binding? env name = some binding → binding.deletable = false

/-- The name is bound in the environment for good, or stands for a property of an object. -/
def Fast (env : EnvironmentId) (name : String) : Prop :=
  (∃ id, (s.environment env).record = .object id) ∨
    ∃ binding, s.binding? env name = some binding ∧ binding.deletable = false

end

variable {s t : Store} {env : EnvironmentId} {name : String}

/-- The store that every engine starts with has no bindings. -/
theorem lasting_store : WellKnown.store.Lasting := by
  rintro ⟨i⟩ name binding found
  match i with
  | 0 | 1 => cases found
  | _ + 2 => cases found

theorem Fast.mono (fast : s.Fast env name) (reached : s.Reaches t) : t.Fast env name := by
  rcases fast with ⟨id, record⟩ | ⟨binding, found, permanent⟩
  · exact .inl ⟨id, reached.record_object record⟩
  · exact .inr (reached.binding_lasts found permanent)

/-- In a record of bindings a name that is bound for good is there. -/
theorem Fast.find? {bindings : Bindings} (fast : s.Fast env name)
    (record : (s.environment env).record = .declarative bindings) :
    bindings.find? name ≠ none := by
  rcases fast with ⟨id, object⟩ | ⟨binding, found, -⟩
  · rw [record] at object
    cases object
  · rw [binding?, record] at found
    exact fun missing => Option.some_ne_none binding (found.symm.trans missing)

/-- A permanent binding that has been made is there for good. -/
theorem fast_of_create {binding : Binding} (present : env.index < s.environments.size)
    (permanent : binding.deletable = false)
    (created : s.editBindings env (·.create name binding) = (.ok (), t)) : t.Fast env name := by
  cases record : (s.environment env).record with
  | object id =>
    have same : t.environment env = s.environment env := by
      rcases environment_editBindings created env with same | ⟨bs, bs', outer, -, before, -⟩
      · exact same
      · rw [before] at record
        cases record
    exact .inl ⟨id, by rw [same, record]⟩
  | declarative bindings =>
    have declarative : s.Declarative env := ⟨present, bindings, record⟩
    obtain ⟨-, rfl⟩ := declarative.of_create created
    exact .inr ⟨binding, by rw [declarative.binding?_withBinding, if_pos ⟨rfl, rfl⟩], permanent⟩

namespace Lasting

variable (lasting : s.Lasting)

include lasting

/-- A name that is bound is bound for good. -/
theorem fast (bound : s.hasBinding env name = true) : s.Fast env name := by
  cases record : (s.environment env).record with
  | object id => exact .inl ⟨id, record⟩
  | declarative bindings =>
    rw [hasBinding, record] at bound
    obtain ⟨binding, found⟩ := (bindings.mem_keys_iff name).1 ((bindings.contains_iff name).1 bound)
    have own : s.binding? env name = some binding := by simpa only [binding?, record] using found
    exact .inr ⟨binding, own, lasting _ _ _ own⟩

theorem of_environments (same : t.environments = s.environments) : t.Lasting := by
  intro env name binding found
  have eq : t.binding? env name = s.binding? env name := by
    simp only [binding?, environment, same]
  exact lasting _ _ _ (eq ▸ found)

theorem openEnvironment (outer : Option EnvironmentId) :
    (s.openEnvironment (.declarative .empty) outer).2.Lasting := by
  intro env name binding found
  by_cases new : env.index = s.environments.size
  · rw [binding?, environment_openEnvironment, if_pos new] at found
    cases found
  · rw [binding?, environment_openEnvironment, if_neg new] at found
    exact lasting _ _ _ found

/-- An edit makes no removable binding if each binding is permanent, or was there before as it is
but for its value. -/
private theorem editBindings {edit : Bindings → Except Cause Bindings}
    (edited : s.editBindings env edit = (.ok (), t))
    (each : ∀ bs bs', (s.environment env).record = .declarative bs → edit bs = .ok bs' →
      ∀ key binding, bs'.find? key = some binding → binding.deletable = false ∨
        ∃ old, bs.find? key = some old ∧ old.deletable = binding.deletable) : t.Lasting := by
  intro id key binding found
  rcases environment_editBindings edited id with same | ⟨bs, bs', outer, rfl, before, eq, after⟩
  · exact lasting _ _ _ (by simpa only [binding?, same] using found)
  · rw [binding?, after] at found
    rcases each bs bs' (by rw [before]) eq key binding found with permanent | ⟨old, there, flag⟩
    · exact permanent
    · rw [← flag]
      exact lasting id key old (by rw [binding?, before]; exact there)

theorem create {binding : Binding} (permanent : binding.deletable = false)
    (edited : s.editBindings env (·.create name binding) = (.ok (), t)) : t.Lasting := by
  refine lasting.editBindings edited fun bs bs' _ created key new found => ?_
  rw [(Bindings.find?_create created key).2] at found
  split at found
  · cases found
    exact .inl permanent
  · exact .inr ⟨new, found, rfl⟩

theorem setInitial {value : Value}
    (edited : s.editBindings env (·.setInitial name value) = (.ok (), t)) : t.Lasting := by
  refine lasting.editBindings edited fun bs bs' _ initialized key new found => ?_
  obtain ⟨old, there, after⟩ := Bindings.find?_setInitial initialized key
  rw [after] at found
  split at found
  next same =>
    cases found
    exact .inr ⟨old, same ▸ there, rfl⟩
  · exact .inr ⟨new, found, rfl⟩

/-- Assigning to a name that is bound for good makes no binding. -/
theorem assign {value : Value} {strict : Bool} (fast : s.Fast env name)
    (edited : s.editBindings env (·.assign name value strict) = (.ok (), t)) : t.Lasting := by
  refine lasting.editBindings edited fun bs bs' record assigned key new found => ?_
  rcases Bindings.assign_eq assigned with rfl | ⟨old, rfl, there | ⟨-, absent⟩⟩
  · exact .inr ⟨new, found, rfl⟩
  · rw [Dictionary.find?_insert] at found
    split at found
    next same =>
      cases found
      exact .inr ⟨old, same ▸ there, rfl⟩
    · exact .inr ⟨new, found, rfl⟩
  · exact absurd absent (fast.find? record)

theorem forget (edited : s.editBindings env (fun bindings => .ok (bindings.delete name).1) =
      (.ok (), t)) : t.Lasting := by
  refine lasting.editBindings edited fun bs bs' _ deleted key new found => ?_
  cases deleted
  exact .inr ⟨new, Bindings.find?_of_delete found, rfl⟩

/-- Every name that is bound stays bound. -/
theorem binding_lasts (reached : s.Reaches t) {binding : Binding}
    (found : s.binding? env name = some binding) :
    ∃ binding', t.binding? env name = some binding' ∧ binding'.deletable = false :=
  reached.binding_lasts found (lasting _ _ _ found)

end Lasting

end ScriptEngine.Store
