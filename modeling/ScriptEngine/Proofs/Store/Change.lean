import ScriptEngine.Machine.WellKnown
import ScriptEngine.Proofs.Store.Arrays

/-!
# What evaluation does to an object

A step of evaluation does one of four things to an object that is there (`Step.object_change`), and
objects that it adds are well formed. Two principles follow, by which everything about objects is
proved: what every change of an object keeps, evaluation keeps of each object
(`Reaches.object_invariant`); and what moreover holds of new objects, evaluation keeps of all
(`Reaches.forall_objects`).
-/
namespace ScriptEngine

/-- What a step of evaluation can do to an object. -/
inductive Object.Change : Object → Object → Prop where
  | same (o : Object) : Change o o
  | define (o : Object) (key : String) (d : Descriptor) : Change o (o.define key d).1
  | delete {o o' : Object} {key : String} (deleted : o.delete? key = some o') : Change o o'
  | preventExtensions (o : Object) : Change o { o with extensible := false }

namespace Object.Change

variable {o o' : Object}

theorem kind (change : o.Change o') : o'.kind = o.kind := by
  cases change with
  | same => rfl
  | define key d => exact (SameShell.define o key d).kind
  | delete deleted => exact (SameShell.delete? deleted).kind
  | preventExtensions => rfl

theorem wellFormed (change : o.Change o') (h : o.WellFormed) : o'.WellFormed := by
  cases change with
  | same => exact h
  | define key d => exact wellFormed_define h key d
  | delete deleted => exact wellFormed_delete? h deleted
  | preventExtensions => exact h

end Object.Change

namespace Store

variable {s t : Store}

/-! ### Objects after an elementary operation -/

theorem object_setObject (s : Store) (id : ObjectId) (o : Object) (other : ObjectId) :
    (s.setObject id o).object other =
      if other = id ∧ id.index < s.objects.size then o else s.object other := by
  obtain ⟨i⟩ := id
  obtain ⟨j⟩ := other
  simp only [object, setObject, ObjectId.mk.injEq, Array.getD_eq_getD_getElem?,
    Array.getElem?_setIfInBounds]
  -- Setting an object past the end changes nothing, so the end matters.
  by_cases same : j = i
  · subst same
    by_cases present : j < s.objects.size <;> simp [present]
  · have other : ¬ i = j := fun eq => same eq.symm
    simp [same, other]

/-- Past the end of a store there are only empty objects. -/
theorem object_of_size_le (s : Store) {id : ObjectId} (past : s.objects.size ≤ id.index) :
    s.object id = { kind := .ordinary } := by
  simp only [object, Array.getD_eq_getD_getElem?, Array.getElem?_eq_none past, Option.getD_none]

@[simp]
theorem size_setObject (s : Store) (id : ObjectId) (o : Object) :
    (s.setObject id o).objects.size = s.objects.size := by
  simp [setObject]

/-- The object that an allocation adds. -/
theorem object_allocate (s : Store) (o : Object) (id : ObjectId) :
    (s.allocate o).2.object id =
      if id.index = s.objects.size then o else s.object id := by
  simp only [object, allocate, Array.getD_eq_getD_getElem?, Array.getElem?_push]
  split <;> rfl

/-- Objects are changed one at a time. -/
private theorem setObject_change (id other : ObjectId) {o : Object}
    (change : (s.object id).Change o) :
    (s.object other).Change ((s.setObject id o).object other) := by
  rw [object_setObject]
  split
  next same => exact same.1 ▸ change
  · exact .same _

theorem objects_editBindings {id : EnvironmentId} {edit : Bindings → Except Cause Bindings}
    {outcome : Except Cause Unit} (h : s.editBindings id edit = (outcome, t)) :
    t.objects = s.objects := by
  unfold editBindings at h
  split at h
  · split at h <;> cases h <;> rfl
  · cases h
    rfl

private theorem size_editBindings {id : EnvironmentId} {edit : Bindings → Except Cause Bindings}
    {outcome : Except Cause Unit} (h : s.editBindings id edit = (outcome, t)) :
    s.objects.size ≤ t.objects.size :=
  Nat.le_of_eq (congrArg Array.size (objects_editBindings h).symm)

private theorem object_change_editBindings {id : EnvironmentId}
    {edit : Bindings → Except Cause Bindings} {outcome : Except Cause Unit}
    (h : s.editBindings id edit = (outcome, t)) (object : ObjectId) :
    (s.object object).Change (t.object object) := by
  have eq : t.object object = s.object object := by simp only [Store.object, objects_editBindings h]
  exact eq ▸ .same _

/-! ### One step -/

/-- Objects are only ever added. -/
theorem Step.size_le (step : s.Step t) : s.objects.size ≤ t.objects.size := by
  cases step with
  | allocate o wellFormed => simp [Store.allocate]
  | define id key d => exact Nat.le_of_eq (size_setObject s id _).symm
  | delete id key =>
    unfold Store.delete
    split <;> simp
  | preventExtensions id => exact Nat.le_of_eq (size_setObject s id _).symm
  | openEnvironment outer => exact Nat.le_refl _
  | create id name binding fresh h => exact size_editBindings h
  | setInitial id name value h => exact size_editBindings h
  | assign id name value strict h => exact size_editBindings h
  | forget id name h => exact size_editBindings h
  | print line => exact Nat.le_refl _

/-- What a step does to one object; the objects that it adds are well formed. -/
theorem Step.object_change (step : s.Step t) (id : ObjectId) :
    (s.object id).Change (t.object id) ∨
      (id.index = s.objects.size ∧ (t.object id).WellFormed) := by
  cases step with
  | allocate o wellFormed =>
    rw [object_allocate]
    split
    next fresh => exact .inr ⟨fresh, wellFormed⟩
    · exact .inl (.same _)
  | define target key d => exact .inl (setObject_change target id (.define _ key d))
  | delete target key =>
    left
    unfold Store.delete
    split
    next deleted => exact setObject_change target id (.delete deleted)
    · exact .same _
  | preventExtensions target => exact .inl (setObject_change target id (.preventExtensions _))
  | openEnvironment outer => exact .inl (.same _)
  | create target name binding fresh h => exact .inl (object_change_editBindings h id)
  | setInitial target name value h => exact .inl (object_change_editBindings h id)
  | assign target name value strict h => exact .inl (object_change_editBindings h id)
  | forget target name h => exact .inl (object_change_editBindings h id)
  | print line => exact .inl (.same _)

/-! ### Any number of steps -/

theorem Reaches.size_le (reached : s.Reaches t) : s.objects.size ≤ t.objects.size := by
  induction reached with
  | refl => exact Nat.le_refl _
  | tail _ last ih => exact Nat.le_trans ih last.size_le

/-- What every change of an object keeps, evaluation keeps of an object that is there. -/
theorem Reaches.object_invariant {P : Object → Prop}
    (kept : ∀ {o o' : Object}, o.Change o' → P o → P o') (reached : s.Reaches t) {id : ObjectId}
    (present : id.index < s.objects.size) (holds : P (s.object id)) : P (t.object id) := by
  induction reached with
  | refl => exact holds
  | tail before last ih =>
    -- An object that was there is not a new one, since stores only grow.
    rcases last.object_change id with change | ⟨fresh, -⟩
    · exact kept change ih
    · have := before.size_le
      omega

/-- A script function that is there stays one, with the same code and closure. -/
theorem Reaches.kind_script (reached : s.Reaches t) {id : ObjectId} {code : FunctionCode}
    {closure : EnvironmentId} (kind : (s.object id).kind = .script code closure) :
    (t.object id).kind = .script code closure := by
  refine reached.object_invariant (fun change kind => change.kind.trans kind) ?_ kind
  rcases Nat.lt_or_ge id.index s.objects.size with present | absent
  · exact present
  · rw [s.object_of_size_le absent] at kind
    cases kind

/-- What holds of new objects and is kept by every change, evaluation keeps of all objects. -/
theorem Reaches.forall_objects {P : Object → Prop}
    (kept : ∀ {o o' : Object}, o.Change o' → P o → P o')
    (fresh : ∀ {o : Object}, o.WellFormed → P o) (reached : s.Reaches t)
    (holds : ∀ id, P (s.object id)) (id : ObjectId) : P (t.object id) := by
  induction reached with
  | refl => exact holds id
  | tail _ last ih =>
    rcases last.object_change id with change | ⟨-, wellFormed⟩
    · exact kept change ih
    · exact fresh wellFormed

end Store

end ScriptEngine
