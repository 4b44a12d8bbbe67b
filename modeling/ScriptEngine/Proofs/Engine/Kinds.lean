import ScriptEngine.Proofs.Library.Installation
import ScriptEngine.Proofs.Store.Change

/-!
# The kinds of the objects in a store

An object keeps its kind, so a condition on kinds that everything but functions meets can only be
broken by making a function.
-/
namespace ScriptEngine.Store

/-- A condition on the kinds of the objects in a store. -/
def Kinds (R : ObjectKind → Prop) (s : Store) : Prop := ∀ id, R (s.object id).kind

namespace Kinds

variable {R : ObjectKind → Prop} {s t : Store}

theorem allocate (holds : s.Kinds R) {o : Object} (own : R o.kind) : (s.allocate o).2.Kinds R := by
  intro id
  rw [object_allocate]
  split
  · exact own
  · exact holds id

theorem insert (holds : s.Kinds R) (id : ObjectId) (key : String) (p : Property) :
    (s.insert id key p).Kinds R := by
  intro other
  unfold Store.insert
  rw [object_setObject]
  split
  next same =>
    rw [(Object.SameShell.insert _ key p).kind]
    exact holds id
  · exact holds other

theorem editBindings (holds : s.Kinds R) {env : EnvironmentId}
    {edit : Bindings → Except Cause Bindings} (edited : s.editBindings env edit = (.ok (), t)) :
    t.Kinds R := by
  intro id
  have same : t.object id = s.object id := by
    rw [object, Store.objects_editBindings edited]
    rfl
  exact same ▸ holds id

variable (plain : ∀ kind : ObjectKind, kind.isFunction = false → R kind)

include plain

/-- A step that makes no function keeps the condition. -/
theorem step (holds : s.Kinds R) (taken : s.Step t)
    (quiet : ∀ id, s.objects.size ≤ id.index → (t.object id).kind.isFunction = false) :
    t.Kinds R := by
  intro id
  -- An object that was there keeps its kind, and a new one is no function by assumption.
  rcases taken.object_change id with change | ⟨fresh, -⟩
  · rw [change.kind]
    exact holds id
  · exact plain _ (quiet id (Nat.le_of_eq fresh.symm))

/-- Installation keeps the condition if the native functions that it makes meet it. -/
theorem kept {natives : Native → Prop}
    (native : ∀ code : NativeCode, natives code.behaviour → R (.native code)) :
    Install.Kept natives (Kinds R) where
  ordinary := fun _ _ holds => holds.allocate (plain _ rfl)
  native := fun _ code holds answers => holds.allocate (native code answers)
  insert := fun _ id key p holds _ => holds.insert id key p

/-- The store that every engine starts with has one function, which does nothing. -/
theorem store (nothing : ∀ code : NativeCode, code.behaviour = .nothing → R (.native code)) :
    WellKnown.store.Kinds R := by
  rintro ⟨i⟩
  match i with
  | 1 => exact nothing _ rfl
  | 0 | 2 | 3 | 4 | 5 | 6 | 7 | 8 => exact plain _ rfl
  | _ + 9 => exact plain _ rfl

end Kinds

end ScriptEngine.Store
