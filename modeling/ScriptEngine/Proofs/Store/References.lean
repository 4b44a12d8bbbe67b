import ScriptEngine.Library.Registry
import ScriptEngine.Proofs.Store.Chains

/-!
# What a store refers to

The objects that values, properties and definitions refer to, and those that a whole store does: in
the properties of its objects, along prototypes and in its bindings. Main result: each elementary
change makes a store refer to nothing else than before and what it brings in (`Refers.allocate` and
those after it). Which objects these are is left open: those that are there, or those that are not
kept apart.
-/
namespace ScriptEngine

variable {P Q : ObjectId → Prop}

/-! ### Values and properties -/

/-- The object, if the value is one, is among those meant. -/
def Value.Refers (P : ObjectId → Prop) : Value → Prop
  | .object id => P id
  | _ => True

/-- What a property refers to is among the objects meant. -/
def Property.Refers (P : ObjectId → Prop) : Property → Prop
  | .data value _ _ _ => value.Refers P
  | .accessor getter setter _ _ => (∀ f ∈ getter, P f) ∧ ∀ f ∈ setter, P f

/-- So is what the definition of a property refers to. -/
structure Descriptor.Refers (P : ObjectId → Prop) (d : Descriptor) : Prop where
  value : ∀ v ∈ d.value, v.Refers P
  getter : ∀ place ∈ d.getter, ∀ f ∈ place, P f
  setter : ∀ place ∈ d.setter, ∀ f ∈ place, P f

/-- So is what the properties of an object refer to. -/
def Object.Refers (P : ObjectId → Prop) (o : Object) : Prop :=
  o.properties.Each (Property.Refers P)

namespace Value

theorem Refers.mono {v : Value} (refers : v.Refers P) (more : ∀ id, P id → Q id) : v.Refers Q := by
  cases v with
  | object id => exact more id refers
  | _ => trivial

theorem Refers.and {v : Value} (first : v.Refers P) (second : v.Refers Q) :
    v.Refers fun id => P id ∧ Q id := by
  cases v with
  | object id => exact ⟨first, second⟩
  | _ => trivial

/-- What is no object refers to none. -/
theorem refers_of_not_object {v : Value} (plain : v.isObject = false) : v.Refers P := by
  cases v with
  | object => cases plain
  | _ => trivial

end Value

namespace Property

theorem Refers.mono {p : Property} (refers : p.Refers P) (more : ∀ id, P id → Q id) :
    p.Refers Q := by
  cases p with
  | data => exact Value.Refers.mono refers more
  | accessor =>
    exact ⟨fun f mem => more f (refers.1 f mem), fun f mem => more f (refers.2 f mem)⟩

theorem Refers.and {p : Property} (first : p.Refers P) (second : p.Refers Q) :
    p.Refers fun id => P id ∧ Q id := by
  cases p with
  | data => exact Value.Refers.and first second
  | accessor =>
    exact ⟨fun f mem => ⟨first.1 f mem, second.1 f mem⟩,
      fun f mem => ⟨first.2 f mem, second.2 f mem⟩⟩

theorem Refers.data {v : Value} (refers : v.Refers P) (writable enumerable configurable : Bool) :
    (Property.data v writable enumerable configurable).Refers P := refers

end Property

namespace Descriptor

variable {d : Descriptor}

theorem Refers.mono (refers : d.Refers P) (more : ∀ id, P id → Q id) : d.Refers Q where
  value v mem := (refers.value v mem).mono more
  getter place mem f mem' := more f (refers.getter place mem f mem')
  setter place mem f mem' := more f (refers.setter place mem f mem')

theorem Refers.ofValue {v : Value} (refers : v.Refers P) : (Descriptor.ofValue v).Refers P where
  value := by
    rintro _ ⟨⟩
    exact refers
  getter := nofun
  setter := nofun

theorem Refers.ofProperty {p : Property} (refers : p.Refers P) :
    (Descriptor.ofProperty p).Refers P := by
  cases p with
  | data value =>
    refine ⟨?_, nofun, nofun⟩
    rintro _ ⟨⟩
    exact refers
  | accessor getter setter =>
    refine ⟨nofun, ?_, ?_⟩
    · rintro _ ⟨⟩
      exact refers.1
    · rintro _ ⟨⟩
      exact refers.2

/-- A definition of nothing but flags refers to nothing. -/
theorem Refers.flags (writable enumerable configurable : Option Bool) :
    Descriptor.Refers P { writable, enumerable, configurable } := ⟨nofun, nofun, nofun⟩

section

variable (refers : d.Refers P)

include refers

/-- The value that a definition gives, or else another one. -/
private theorem Refers.valueOr {old : Value} (there : old.Refers P) :
    (d.value.getD old).Refers P := by
  cases given : d.value with
  | none => exact there
  | some v => exact refers.value v given

private theorem Refers.getterOr {old : Option ObjectId} (there : ∀ f ∈ old, P f) :
    ∀ f ∈ d.getter.getD old, P f := by
  cases given : d.getter with
  | none => exact there
  | some place => exact refers.getter place given

private theorem Refers.setterOr {old : Option ObjectId} (there : ∀ f ∈ old, P f) :
    ∀ f ∈ d.setter.getD old, P f := by
  cases given : d.setter with
  | none => exact there
  | some place => exact refers.setter place given

theorem Refers.toProperty : d.toProperty.Refers P := by
  unfold Descriptor.toProperty
  split
  · exact ⟨refers.getterOr nofun, refers.setterOr nofun⟩
  · exact refers.valueOr trivial

/-- What a definition makes of a property refers to what they both do. -/
theorem Refers.redefine? {p q : Property} (there : p.Refers P)
    (redefined : p.redefine? d = some q) : q.Refers P := by
  unfold Property.redefine? at redefined
  simp only at redefined
  split at redefined
  · cases redefined
  split at redefined
  -- Other flags change nothing about what a property refers to.
  · cases redefined
    cases p <;> exact there
  split at redefined
  · split at redefined
    · cases redefined
    split at redefined
    · cases redefined
      exact refers.valueOr trivial
    · cases redefined
      exact ⟨refers.getterOr nofun, refers.setterOr nofun⟩
  cases p with
  | data =>
    simp only at redefined
    split at redefined
    · cases redefined
    · cases redefined
      exact refers.valueOr there
  | accessor =>
    simp only at redefined
    split at redefined
    · cases redefined
    · cases redefined
      exact ⟨refers.getterOr there.1, refers.setterOr there.2⟩

end

end Descriptor

namespace Object.Refers

variable {o : Object} (there : o.Refers P)

include there

theorem mono (more : ∀ id, P id → Q id) : o.Refers Q :=
  fun key p found => (there key p found).mono more

theorem and (other : o.Refers Q) : o.Refers fun id => P id ∧ Q id :=
  fun key p found => (there key p found).and (other key p found)

theorem put (name : String) {q : Property} (refers : q.Refers P) : (o.put name q).Refers P :=
  Dictionary.Each.insert there name refers

theorem withLength (n : Nat) : (o.withLength n).Refers P := by
  unfold Object.withLength
  split
  · exact there.put "length" (q := .data (.ofNat n) _ _ _) trivial
  · exact there

theorem delete? {o' : Object} {name : String} (deleted : o.delete? name = some o') :
    o'.Refers P := by
  obtain ⟨-, rfl⟩ := Object.delete?_eq_some_iff.1 deleted
  exact Dictionary.Each.erase there name

/-- A definition makes an object refer to nothing else than before and what it gives itself. -/
theorem define {d : Descriptor} (refers : d.Refers P) (name : String) :
    (o.define name d).1.Refers P := by
  refine Object.KeptByDefinition.define (P := Object.Refers P) ⟨fun {o key p} there new => ?_,
    fun n there => there.withLength n, fun there deleted => there.delete? deleted⟩ there name
  rcases new with rfl | ⟨current, found, redefined⟩
  · exact there.put key refers.toProperty
  · exact there.put key (refers.redefine? (there _ _ found) redefined)

theorem insert (name : String) {q : Property} (refers : q.Refers P) :
    (o.insert name q).Refers P := by
  unfold Object.insert
  split
  · split
    · exact (there.withLength _).put name refers
    · exact there.put name refers
  · exact there.put name refers

end Object.Refers

/-! ### Stores -/

/-- Everything that the store refers to is among the objects meant, and so are the well-known ones
up to the global object. -/
structure Store.Refers (P : ObjectId → Prop) (s : Store) : Prop where
  wellKnown : ∀ {id : ObjectId}, id.index ≤ WellKnown.globalObject.index → P id
  prototypes : ∀ {id p : ObjectId}, (s.object id).prototype = some p → P p
  slots : ∀ id : ObjectId, (s.object id).Refers P
  bindings : ∀ {env : EnvironmentId} {name : String} {binding : Binding} {value : Value},
    s.binding? env name = some binding → binding.value = some value → value.Refers P
  records : ∀ {env : EnvironmentId} {id : ObjectId}, (s.environment env).record = .object id → P id

namespace Store.Refers

variable {s t : Store} {id : ObjectId} {env : EnvironmentId} (refers : s.Refers P)

include refers

theorem mono (more : ∀ id, P id → Q id) : s.Refers Q where
  wellKnown early := more _ (refers.wellKnown early)
  prototypes link := more _ (refers.prototypes link)
  slots id := (refers.slots id).mono more
  bindings found given := (refers.bindings found given).mono more
  records record := more _ (refers.records record)

theorem and (other : s.Refers Q) : s.Refers fun id => P id ∧ Q id where
  wellKnown early := ⟨refers.wellKnown early, other.wellKnown early⟩
  prototypes link := ⟨refers.prototypes link, other.prototypes link⟩
  slots id := (refers.slots id).and (other.slots id)
  bindings found given := (refers.bindings found given).and (other.bindings found given)
  records record := ⟨refers.records record, other.records record⟩

theorem globalObject : P WellKnown.globalObject := refers.wellKnown (Nat.le_refl _)

/-- The prototype of a new object may be a well-known one. -/
theorem inherits_wellKnown (early : id.index ≤ WellKnown.globalObject.index) :
    ∀ p ∈ some id, P p := by
  rintro _ ⟨⟩
  exact refers.wellKnown early

/-! ### Following references -/

/-- What an own or inherited property refers to. -/
theorem lookup {key : String} {p : Property} (found : s.lookup id key = some p) :
    p.Refers P := by
  unfold Store.lookup at found
  generalize s.ancestry id = ids at found
  induction ids with
  | nil => cases found
  | cons first rest ih =>
    rw [lookupAmong] at found
    cases own : (s.object first).property? key with
    | some q =>
      rw [own] at found
      cases found
      exact refers.slots first key p own
    | none =>
      rw [own] at found
      exact ih found

/-- What is read from a record of bindings. -/
theorem read {bindings : Bindings} {name : String} {v : Value}
    (record : (s.environment env).record = .declarative bindings)
    (read : bindings.read name = .ok v) : v.Refers P := by
  unfold Bindings.read at read
  cases found : bindings.find? name with
  | none =>
    rw [found] at read
    cases read
  | some binding =>
    have own : s.binding? env name = some binding := by simpa only [binding?, record] using found
    obtain ⟨value, _, _, _⟩ := binding
    rw [found] at read
    cases value with
    | none => cases read
    | some value =>
      cases read
      exact refers.bindings own rfl

/-! ### Elementary changes -/

/-- An object may get other properties. -/
private theorem setObject {o : Object} (prototype : o.prototype = (s.object id).prototype)
    (slots : o.Refers P) : (s.setObject id o).Refers P := by
  have same : ∀ other, ((s.setObject id o).object other).prototype = (s.object other).prototype ∧
      ((s.setObject id o).object other).Refers P := by
    intro other
    rw [object_setObject]
    split
    next eq => exact eq.1 ▸ ⟨prototype, slots⟩
    · exact ⟨rfl, refers.slots other⟩
  exact {
    wellKnown := refers.wellKnown
    prototypes := fun link => refers.prototypes ((same _).1 ▸ link)
    slots := fun other => (same other).2
    bindings := refers.bindings
    records := refers.records }

theorem define (id : ObjectId) (key : String) {d : Descriptor} (given : d.Refers P) :
    (s.define id key d).2.Refers P :=
  refers.setObject (Object.SameShell.define (s.object id) key d).prototype
    ((refers.slots id).define given key)

theorem delete (id : ObjectId) (key : String) : (s.delete id key).2.Refers P := by
  unfold Store.delete
  split
  next deleted =>
    exact refers.setObject (Object.SameShell.delete? deleted).prototype
      ((refers.slots id).delete? deleted)
  · exact refers

theorem preventExtensions (id : ObjectId) : (s.preventExtensions id).Refers P :=
  refers.setObject rfl (refers.slots id)

/-- A host puts a property in place. -/
theorem insert (id : ObjectId) (key : String) {p : Property} (given : p.Refers P) :
    (s.insert id key p).Refers P :=
  refers.setObject (Object.SameShell.insert (s.object id) key p).prototype
    ((refers.slots id).insert key given)

theorem allocate {o : Object} (prototype : ∀ p ∈ o.prototype, P p) (slots : o.Refers P) :
    (s.allocate o).2.Refers P where
  wellKnown := refers.wellKnown
  prototypes link := by
    rw [object_allocate] at link
    split at link
    · exact prototype _ link
    · exact refers.prototypes link
  slots id := by
    rw [object_allocate]
    split
    · exact slots
    · exact refers.slots id
  bindings := refers.bindings
  records := refers.records

theorem openEnvironment (outer : Option EnvironmentId) :
    (s.openEnvironment (.declarative .empty) outer).2.Refers P := by
  have environment := s.environment_openEnvironment (.declarative .empty) outer
  refine ⟨refers.wellKnown, refers.prototypes, refers.slots, ?bindings, ?records⟩
  case bindings =>
    intro env name binding value found given
    by_cases new : env.index = s.environments.size
    · rw [binding?, environment, if_pos new] at found
      cases found
    · rw [binding?, environment, if_neg new] at found
      exact refers.bindings found given
  case records =>
    intro env id record
    rw [environment] at record
    split at record
    · cases record
    · exact refers.records record

/-- An edit of bindings brings in no value but those meant. -/
private theorem editBindings {edit : Bindings → Except Cause Bindings}
    (edited : s.editBindings env edit = (.ok (), t))
    (each : ∀ bs bs', edit bs = .ok bs' → ∀ name binding value, bs'.find? name = some binding →
      binding.value = some value →
      value.Refers P ∨ ∃ old, bs.find? name = some old ∧ old.value = some value) :
    t.Refers P := by
  have object : ∀ id, t.object id = s.object id := fun id => by
    simp only [object, objects_editBindings edited]
  have environment := environment_editBindings edited
  refine ⟨refers.wellKnown, fun {id p} link => refers.prototypes (object id ▸ link),
    fun id => object id ▸ refers.slots id, ?bindings, ?records⟩
  case bindings =>
    intro id name binding v found given
    rcases environment id with same | ⟨bs, bs', outer', rfl, before, eq, after⟩
    · rw [binding?, same] at found
      exact refers.bindings found given
    · simp only [binding?, after] at found
      rcases each bs bs' eq name binding v found given with has | ⟨old, there, holds⟩
      · exact has
      · have present : s.binding? id name = some old := by simpa only [binding?, before] using there
        exact refers.bindings present holds
  case records =>
    intro id o record
    rcases environment id with same | ⟨bs, bs', outer', rfl, before, eq, after⟩
    · exact refers.records (same ▸ record)
    · rw [after] at record
      cases record

theorem create {name : String} {binding : Binding} (fresh : binding.value = none)
    (edited : s.editBindings env (·.create name binding) = (.ok (), t)) : t.Refers P := by
  refine refers.editBindings edited fun bs bs' created key new value found given => ?_
  rw [(Bindings.find?_create created key).2] at found
  split at found
  · cases found
    rw [fresh] at given
    cases given
  · exact .inr ⟨new, found, given⟩

theorem setInitial {name : String} {value : Value} (has : value.Refers P)
    (edited : s.editBindings env (·.setInitial name value) = (.ok (), t)) : t.Refers P := by
  refine refers.editBindings edited fun bs bs' initialized key new v found given => ?_
  obtain ⟨binding, -, after⟩ := Bindings.find?_setInitial initialized key
  rw [after] at found
  split at found
  · cases found
    cases given
    exact .inl has
  · exact .inr ⟨new, found, given⟩

theorem assign {name : String} {value : Value} {strict : Bool} (has : value.Refers P)
    (edited : s.editBindings env (·.assign name value strict) = (.ok (), t)) : t.Refers P := by
  refine refers.editBindings edited fun bs bs' assigned key new v found given => ?_
  rcases Bindings.assign_eq assigned with rfl | ⟨binding, rfl, -⟩
  · exact .inr ⟨new, found, given⟩
  · rw [Dictionary.find?_insert] at found
    split at found
    · cases found
      cases given
      exact .inl has
    · exact .inr ⟨new, found, given⟩

theorem forget {name : String}
    (edited : s.editBindings env (fun bindings => .ok (bindings.delete name).1) = (.ok (), t)) :
    t.Refers P := by
  refine refers.editBindings edited fun bs bs' deleted key new v found given => ?_
  cases deleted
  exact .inr ⟨new, Bindings.find?_of_delete found, given⟩

theorem print (line : String) : (s.print line).Refers P := { refers with }

end Store.Refers

end ScriptEngine
