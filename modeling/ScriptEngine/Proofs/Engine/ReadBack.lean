import ScriptEngine.Engine.Engine
import ScriptEngine.Proofs.Engine.Heap
import ScriptEngine.Proofs.Evaluation.Binding
import ScriptEngine.Proofs.Store.Closed
import ScriptEngine.Proofs.Store.Written

/-!
# Reading back what was written

A write that succeeds is read back, and touches nothing else. Main result: `write_read_back`, for
the property of an object and for the binding of a name. It holds in every store that a reachable
engine can get to, in the middle of a run as well, and whatever runs the functions of the engine:
neither the write nor the read calls one.
-/
namespace ScriptEngine

namespace Store

variable {s : Store} {env : EnvironmentId} {name : String}

/-- Strict code and other code assign alike to a name that has a value and is no constant. -/
theorem Declarative.editBindings_assign_of_changeable {binding : Binding}
    (found : s.binding? env name = some binding) (initialized : binding.value ≠ none)
    (changeable : binding.isMutable = true) (value : Value) (strict : Bool) :
    s.editBindings env (·.assign name value strict) =
      (.ok (), s.withBinding env name { binding with value := some value }) := by
  obtain ⟨bindings, outer, eq⟩ := (of_binding? found).environment
  have there : bindings.find? name = some binding := by simpa [binding?, eq] using found
  simp [editBindings, Store.withBinding, eq, Bindings.assign, there, initialized, changeable]

theorem log_withBinding (s : Store) (env : EnvironmentId) (name : String) (binding : Binding) :
    (s.withBinding env name binding).log = s.log := by
  unfold withBinding
  split <;> rfl

/-- The environments stay where they are, and those that stand for an object go on doing so. -/
theorem Declarative.frame_withBinding (declarative : s.Declarative env) (name : String)
    (binding : Binding) (id : EnvironmentId) :
    ((s.withBinding env name binding).environment id).outer = (s.environment id).outer ∧
      ∀ object, ((s.withBinding env name binding).environment id).record = .object object ↔
        (s.environment id).record = .object object := by
  obtain ⟨bindings, record⟩ := declarative.record
  rw [declarative.environment_withBinding]
  split
  next same => simp [same, record]
  · exact ⟨rfl, fun _ => Iff.rfl⟩

end Store

namespace Operation

open Evaluation

variable {m after : Machine} {id : ObjectId} {key : String} {value : Value}

/-- An own property is found first. -/
theorem lookup_of_own {s : Store} {p : Property} (own : (s.object id).property? key = some p) :
    s.lookup id key = some p := by
  rw [Store.lookup, Store.ancestry, Store.ancestryUpTo, Store.lookupAmong]
  simp only [own]

/-- A write without a setter in its way that succeeds is a definition that succeeds. -/
theorem define_of_set {call : Caller}
    (data : ∀ p, m.store.lookup id key = some p → p.isData = true)
    (set : (set call id key value (.object id)).run m = (.value true, after)) :
    ∃ d p o', (m.store.object id).Writes key value d p ∧
      (m.store.object id).define key d = (o', true) ∧
      after = { m with store := m.store.setObject id o' } := by
  have own : (setOwn id key value).run m = (.value true, after) := by
    simp only [Operation.set, run_bind, run_ask, andThen_value] at set
    split at set
    · cases set
    · cases set
    next found => cases data _ found
    · exact set
    · exact set
  simp only [setOwn, run_bind, run_ask, andThen_value] at own
  -- The definition that the own property asks for, or that there is none.
  have defined : ∀ {d p}, (m.store.object id).Writes key value d p →
      (define id key d).run m = (.value true, after) →
      ∃ d p o', (m.store.object id).Writes key value d p ∧
        (m.store.object id).define key d = (o', true) ∧
        after = { m with store := m.store.setObject id o' } := by
    intro d p writes run
    rw [run_define] at run
    obtain ⟨allowed, rfl⟩ := Prod.mk.inj run
    exact ⟨d, p, _, writes, Prod.ext rfl (Outcome.value.inj allowed), rfl⟩
  split at own
  next found => exact defined (.again found) own
  · cases own
  next absent => exact defined (.new absent) own

/-- What is read where an object has a value of its own. -/
theorem getOwn_run (call : Caller) {writable enumerable configurable : Bool}
    (own : (m.store.object id).property? key = some (.data value writable enumerable configurable)) :
    (getOwn call id key).run m = (.value value, m) := by
  simp only [getOwn, get, run_bind, run_ask, andThen_value, lookup_of_own own, run_pure]

/-- The write of a property that succeeds. -/
theorem set_read_back (call : Caller) (strict : Bool) (present : m.store.HasObject id)
    (wellFormed : (m.store.object id).WellFormed)
    (data : ∀ p, m.store.lookup id key = some p → p.isData = true)
    (set : (set call id key value (.object id)).run m = (.value true, after)) :
    let r : Reference := ⟨.property (.object id), key, strict⟩
    (putValue call r value).run m = (.value (), after) ∧
      (getValue call r).run after = (.value value, after) ∧
      (m.store.object id).Written key value (after.store.object id) ∧
      after = { m with store := m.store.setObject id (after.store.object id) } ∧
      ∀ other, other ≠ id → after.store.object other = m.store.object other := by
  obtain ⟨d, p, o', writes, defined, rfl⟩ := define_of_set data set
  have there : (m.store.setObject id o').object id = o' := by
    rw [Store.object_setObject, if_pos ⟨rfl, present⟩]
  have written := Object.written_of_define wellFormed writes defined
  obtain ⟨enumerable, configurable, here⟩ := written.here
  intro r
  refine ⟨?_, ?_, by rwa [there], by simp only [there], fun other ne => ?_⟩
  · simp only [putValue, putV, r, run_bind, set, andThen_value]
    rfl
  · exact getOwn_run call (by rwa [there])
  · rw [Store.object_setObject, if_neg fun same => ne same.1]

/-- The assignment to a name that has a value and is no constant. -/
theorem binding_read_back (call : Caller) (strict : Bool) (value : Value) {env : EnvironmentId}
    {name : String}
    {binding : Binding} (found : m.store.binding? env name = some binding)
    (initialized : binding.value ≠ none) (changeable : binding.isMutable = true) :
    let r : Reference := ⟨.environment env, name, strict⟩
    let after : Machine :=
      { m with store := m.store.withBinding env name { binding with value := some value } }
    (putValue call r value).run m = (.value (), after) ∧
      (getValue call r).run after = (.value value, after) := by
  intro r after
  have declarative := Store.Declarative.of_binding? found
  obtain ⟨bindings, record⟩ := declarative.record
  have edited := Store.Declarative.editBindings_assign_of_changeable found initialized changeable
    value strict
  have there : after.store.binding? env name = some { binding with value := some value } := by
    rw [declarative.binding?_withBinding, if_pos ⟨rfl, rfl⟩]
  obtain ⟨bindings', record'⟩ := (Store.Declarative.of_binding? there).record
  constructor
  · simp only [putValue, setBinding, r, run_bind, run_ask, andThen_value, record]
    change (ofRefusal (m.store.editBindings env _).1,
      { m with store := (m.store.editBindings env _).2 }) = _
    rw [edited]
    rfl
  · simp only [getValue, r, run_bind, run_ask, andThen_value, record']
    exact getBinding_run there rfl strict

end Operation

namespace Engine

open Evaluation Operation

/-- Whatever has been evaluated on an engine, a write that succeeds is read back. If it writes a
property, without a setter in its way, no other object changes and no environment, and of the object
itself only what the rules of arrays ask for. If it assigns to a name that has a value and is no
constant, it does succeed, and no other binding changes and no object. -/
theorem write_read_back {e : Engine} (reachable : e.ReachableAnyhow) {m : Machine}
    (running : e.machine.store.Reaches m.store) (call : Caller) (value : Value) (strict : Bool) :
    (∀ id key after, m.store.HasObject id →
      (∀ p, m.store.lookup id key = some p → p.isData = true) →
      (set call id key value (.object id)).run m = (.value true, after) →
      let r : Reference := ⟨.property (.object id), key, strict⟩
      (putValue call r value).run m = (.value (), after) ∧
        (getValue call r).run after = (.value value, after) ∧
        (m.store.object id).Written key value (after.store.object id) ∧
        (∀ other, other ≠ id → after.store.object other = m.store.object other) ∧
        after.store.environments = m.store.environments ∧ after.store.log = m.store.log ∧
        after.control = m.control) ∧
    ∀ env name binding, m.store.binding? env name = some binding → binding.value ≠ none →
      binding.isMutable = true →
      let r : Reference := ⟨.environment env, name, strict⟩
      ∃ after, (putValue call r value).run m = (.value (), after) ∧
        (getValue call r).run after = (.value value, after) ∧
        (∀ env' name', after.store.binding? env' name' =
          if env' = env ∧ name' = name then some { binding with value := some value }
          else m.store.binding? env' name') ∧
        (∀ env', (after.store.environment env').outer = (m.store.environment env').outer ∧
          ∀ id, (after.store.environment env').record = .object id ↔
            (m.store.environment env').record = .object id) ∧
        after.store.objects = m.store.objects ∧ after.store.log = m.store.log ∧
        after.control = m.control := by
  constructor
  · intro id key after present data set r
    have wellFormed := (reachable.sound running).objects id
    obtain ⟨put, got, written, changed, others⟩ :=
      set_read_back call strict present wellFormed data set
    refine ⟨put, got, written, others, ?_, ?_, ?_⟩ <;> rw [changed] <;> rfl
  · intro env name binding found initialized changeable r
    have declarative := Store.Declarative.of_binding? found
    obtain ⟨put, got⟩ := binding_read_back call strict value found initialized changeable
    exact ⟨_, put, got, declarative.binding?_withBinding name _, declarative.frame_withBinding name _,
      Store.objects_withBinding _ _ _ _, Store.log_withBinding _ _ _ _, rfl⟩

/-- An element of an array and a variable are written on an engine that has the variable: the array
gets longer, and both are read back. -/
theorem write_read_back_array :
    let e := create { builtins := false }
    let array := WellKnown.arrayPrototype
    let env := WellKnown.globalEnvironment
    let m := ((declare env "x" false .null).run e.machine).2
    (∃ after, (putValue e.caller ⟨.property (.object array), "0", true⟩ .null).run m =
        (.value (), after) ∧
      (getValue e.caller ⟨.property (.object array), "0", true⟩).run after = (.value .null, after) ∧
      (after.store.object array).length = 1) ∧
    ∃ after, (putValue e.caller ⟨.environment env, "x", true⟩ (.boolean true)).run m =
        (.value (), after) ∧
      (getValue e.caller ⟨.environment env, "x", true⟩).run after =
        (.value (.boolean true), after) := by
  intro e array env m
  have running : e.machine.store.Reaches m.store := (declare env "x" false .null).steps e.machine
  have present : array.index < m.store.objects.size := by decide +kernel
  have absent : m.store.lookup array "0" = none := rfl
  have set : (set e.caller array "0" .null (.object array)).run m = (.value true, _) := rfl
  have declared : m.store.binding? env "x" = some { Binding.permanent with value := some .null } :=
    rfl
  constructor
  · obtain ⟨put, got, written, -⟩ :=
      (write_read_back (.create _) running e.caller .null true).1 array "0" _ present
        (by simp [absent]) set
    exact ⟨_, put, got, by decide +kernel⟩
  · obtain ⟨after, put, got, -⟩ :=
      (write_read_back (.create _) running e.caller (.boolean true) true).2 env "x" _ declared
        nofun rfl
    exact ⟨after, put, got⟩

end Engine

end ScriptEngine
