import ScriptEngine.Proofs.Store.References

/-!
# Closed stores

A store is closed if everything that it refers to is there: in the properties of its objects, in the
closures of its functions, in its bindings, and along its links, which moreover go down to what was
there before. Main results: each elementary change keeps a store closed if what it brings in is
there (`Closed.allocate` and those after it), and what is there stays (`HasValue.mono` and those
beside it).
-/
namespace ScriptEngine.Store

/-! ### What is there -/

section

variable (s : Store)

def HasObject (id : ObjectId) : Prop := id.index < s.objects.size

def HasEnvironment (env : EnvironmentId) : Prop := env.index < s.environments.size

/-- The object is there, if the value is one. -/
def HasValue (v : Value) : Prop := v.Refers s.HasObject

def HasAll (values : List Value) : Prop := ∀ v ∈ values, s.HasValue v

/-- Everything that the store refers to is there, the global environment too, and links go down. -/
structure Closed : Prop extends LinksDown s, Refers s.HasObject s where
  globalEnvironment : s.HasEnvironment WellKnown.globalEnvironment
  closures : ∀ {id : ObjectId} {code : FunctionCode} {env : EnvironmentId},
    (s.object id).kind = .script code env → s.HasEnvironment env

end

variable {s t : Store} {id : ObjectId} {env : EnvironmentId}

/-! ### What is there stays -/

theorem HasObject.of_size_le (has : s.HasObject id) (le : s.objects.size ≤ t.objects.size) :
    t.HasObject id :=
  Nat.lt_of_lt_of_le has le

theorem HasObject.mono (has : s.HasObject id) (reached : s.Reaches t) : t.HasObject id :=
  has.of_size_le reached.size_le

theorem HasEnvironment.mono (has : s.HasEnvironment env) (reached : s.Reaches t) :
    t.HasEnvironment env :=
  Nat.lt_of_lt_of_le has reached.environments_size_le

theorem hasObject_allocate (s : Store) (o : Object) :
    (s.allocate o).2.HasObject (s.allocate o).1 := by
  simp [HasObject, Store.allocate]

theorem HasValue.mono {v : Value} (has : s.HasValue v) (reached : s.Reaches t) : t.HasValue v :=
  Value.Refers.mono has fun _ there => there.mono reached

/-- An object with a prototype is there, and the prototype was there before it. -/
theorem LinksDown.hasPrototype (links : s.LinksDown) {p : ObjectId}
    (link : (s.object id).prototype = some p) : s.HasObject p := by
  refine Nat.lt_of_not_le fun past => ?_
  rw [s.object_of_size_le (Nat.le_of_lt (Nat.lt_of_le_of_lt past (links.prototype link)))] at link
  cases link

namespace Closed

variable (closed : s.Closed)

include closed

theorem hasOuter {outer : EnvironmentId} (link : (s.environment env).outer = some outer) :
    s.HasEnvironment outer := by
  refine Nat.lt_of_not_le fun past => ?_
  have later := closed.outer link
  rw [s.environment_of_size_le (Nat.le_of_lt (Nat.lt_of_le_of_lt past later))] at link
  cases link

/-! ### Elementary changes -/

/-- Properties and bindings may change, as long as what they refer to is there. -/
private theorem altered (size : t.objects.size = s.objects.size)
    (environments : t.environments.size = s.environments.size)
    (shells : ∀ id, (t.object id).kind = (s.object id).kind ∧
      (t.object id).prototype = (s.object id).prototype)
    (outers : ∀ env, (t.environment env).outer = (s.environment env).outer)
    (refers : t.Refers s.HasObject) : t.Closed where
  toRefers := refers.mono fun _ has => has.of_size_le (Nat.le_of_eq size.symm)
  prototype link := closed.prototype ((shells _).2 ▸ link)
  outer link := closed.outer (outers _ ▸ link)
  globalEnvironment := by
    simpa only [HasEnvironment, environments] using closed.globalEnvironment
  closures made := by
    simpa only [HasEnvironment, environments] using closed.closures ((shells _).1 ▸ made)

private theorem setObject {o : Object} (kind : o.kind = (s.object id).kind)
    (prototype : o.prototype = (s.object id).prototype)
    (refers : (s.setObject id o).Refers s.HasObject) : (s.setObject id o).Closed := by
  refine closed.altered (s.size_setObject id o) rfl (fun other => ?_) (fun _ => rfl) refers
  rw [object_setObject]
  split
  next eq => exact eq.1 ▸ ⟨kind, prototype⟩
  · exact ⟨rfl, rfl⟩

theorem define (id : ObjectId) (key : String) {d : Descriptor} (has : d.Refers s.HasObject) :
    (s.define id key d).2.Closed :=
  have shell := Object.SameShell.define (s.object id) key d
  closed.setObject shell.kind shell.prototype (closed.toRefers.define id key has)

theorem delete (id : ObjectId) (key : String) : (s.delete id key).2.Closed := by
  have refers := closed.toRefers.delete id key
  unfold Store.delete at refers ⊢
  split at refers
  next deleted =>
    have shell := Object.SameShell.delete? deleted
    exact closed.setObject shell.kind shell.prototype refers
  · exact closed

theorem preventExtensions (id : ObjectId) : (s.preventExtensions id).Closed :=
  closed.setObject rfl rfl (closed.toRefers.preventExtensions id)

/-- A host puts a property in place. -/
theorem insert (id : ObjectId) (key : String) {p : Property} (has : p.Refers s.HasObject) :
    (s.insert id key p).Closed :=
  have shell := Object.SameShell.insert (s.object id) key p
  closed.setObject shell.kind shell.prototype (closed.toRefers.insert id key has)

/-- The prototype of a new object is there, so it has a smaller number. -/
theorem allocate {o : Object} (prototype : ∀ p ∈ o.prototype, s.HasObject p)
    (closure : ∀ {code : FunctionCode} {env : EnvironmentId}, o.kind = .script code env →
      s.HasEnvironment env) (slots : o.Refers s.HasObject) : (s.allocate o).2.Closed where
  toLinksDown := closed.toLinksDown.allocate prototype
  toRefers := (closed.toRefers.allocate prototype slots).mono fun _ has =>
    has.of_size_le (Nat.le_of_lt (s.hasObject_allocate o))
  globalEnvironment := closed.globalEnvironment
  closures {id code env} made := by
    rw [object_allocate] at made
    split at made
    · exact closure made
    · exact closed.closures made

/-- The environment outside of a new one is there, so it has a smaller number. -/
theorem openEnvironment {outer : Option EnvironmentId}
    (has : ∀ env ∈ outer, s.HasEnvironment env) :
    (s.openEnvironment (.declarative .empty) outer).2.Closed := by
  have size : s.environments.size ≤
      (s.openEnvironment (.declarative .empty) outer).2.environments.size := by
    simp [Store.openEnvironment]
  refine ⟨⟨closed.prototype, ?outer⟩, closed.toRefers.openEnvironment outer,
    Nat.lt_of_lt_of_le closed.globalEnvironment size,
    fun made => Nat.lt_of_lt_of_le (closed.closures made) size⟩
  case outer =>
    intro env e link
    rw [s.environment_openEnvironment] at link
    split at link
    next new => exact new ▸ has e link
    · exact closed.outer link

private theorem editBindings {edit : Bindings → Except Cause Bindings}
    (edited : s.editBindings env edit = (.ok (), t)) (refers : t.Refers s.HasObject) :
    t.Closed := by
  have objects := objects_editBindings edited
  refine closed.altered (congrArg Array.size objects) (size_environments_editBindings edited)
    (fun id => by simp only [object, objects, and_self]) (fun id => ?_) refers
  rcases environment_editBindings edited id with same | ⟨_, _, _, -, before, -, after⟩
  · rw [same]
  · rw [before, after]

theorem create {name : String} {binding : Binding} (fresh : binding.value = none)
    (edited : s.editBindings env (·.create name binding) = (.ok (), t)) : t.Closed :=
  closed.editBindings edited (closed.toRefers.create fresh edited)

theorem setInitial {name : String} {value : Value} (has : s.HasValue value)
    (edited : s.editBindings env (·.setInitial name value) = (.ok (), t)) : t.Closed :=
  closed.editBindings edited (closed.toRefers.setInitial has edited)

theorem assign {name : String} {value : Value} {strict : Bool} (has : s.HasValue value)
    (edited : s.editBindings env (·.assign name value strict) = (.ok (), t)) : t.Closed :=
  closed.editBindings edited (closed.toRefers.assign has edited)

theorem forget {name : String}
    (edited : s.editBindings env (fun bindings => .ok (bindings.delete name).1) = (.ok (), t)) :
    t.Closed :=
  closed.editBindings edited (closed.toRefers.forget edited)

theorem print (line : String) : (s.print line).Closed := { closed with }

end Closed

/-! ### The store without any library -/

theorem linksDown_store : WellKnown.store.LinksDown where
  prototype {id p} link := by
    obtain ⟨i⟩ := id
    match i with
    | 0 => cases link
    | 1 | 2 | 3 | 4 | 5 | 6 | 7 | 8 =>
      cases link
      decide
    | _ + 9 => cases link
  outer {env outer} link := by
    obtain ⟨i⟩ := env
    match i with
    | 0 => cases link
    | 1 =>
      cases link
      decide
    | _ + 2 => cases link

/-- The store that every engine starts with is closed. -/
theorem closed_store : WellKnown.store.Closed where
  toLinksDown := linksDown_store
  wellKnown early := Nat.lt_of_le_of_lt early (show 8 < WellKnown.store.objects.size by decide)
  prototypes := linksDown_store.hasPrototype
  globalEnvironment := show 1 < WellKnown.store.environments.size by decide
  slots := by
    have named : ∀ kind, (WellKnown.errorPrototypeObject kind).Refers WellKnown.store.HasObject :=
      fun kind => (Dictionary.Each.singleton "name" (by trivial)).insert "message" (by trivial)
    rintro ⟨i⟩
    match i with
    | 0 | 1 | 8 => exact Dictionary.Each.empty
    | 2 => exact (Dictionary.Each.singleton "length" (by trivial)).union (.indexed nofun)
    | 3 | 4 | 5 | 6 | 7 => exact named _
    | _ + 9 => exact Dictionary.Each.empty
  closures {id code env} made := by
    obtain ⟨i⟩ := id
    match i with
    | 0 | 1 | 2 | 3 | 4 | 5 | 6 | 7 | 8 => cases made
    | _ + 9 => cases made
  bindings {env name binding value} found := by
    obtain ⟨i⟩ := env
    match i with
    | 0 | 1 => cases found
    | _ + 2 => cases found
  records {env id} record := by
    obtain ⟨i⟩ := env
    match i with
    | 0 =>
      cases record
      exact show 8 < WellKnown.store.objects.size by decide
    | 1 => cases record
    | _ + 2 => cases record

end ScriptEngine.Store
