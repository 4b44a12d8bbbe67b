import ScriptEngine.Proofs.Store.Bindings
import ScriptEngine.Proofs.Store.Change

/-!
# The global scope

What scripts declare with `var` and as functions becomes a property of the global object, and what
they declare with `let` and `const` a binding of the global environment. Main results: a property
that cannot be reconfigured is there for good unless it belongs to an array
(`Reaches.property_lasts`), and what the declaration of a function makes of the global object
(`define_function`).
-/
namespace ScriptEngine

namespace Property

/-- A definition leaves a property that is not configurable as one. -/
theorem redefine?_configurable {p q : Property} {d : Descriptor}
    (permanent : p.configurable = false) (redefined : p.redefine? d = some q) :
    q.configurable = false := by
  cases p with
  | data value writable enumerable configurable =>
    cases permanent
    obtain ⟨writable', rfl, -⟩ := redefine?_data redefined
    rfl
  | accessor getter setter enumerable configurable =>
    cases permanent
    rw [redefine?_accessor redefined]
    rfl

/-- The property of a global function. -/
def globalFunction (f : ObjectId) : Property := .data (.object f) true true false

/-- The property of a global `var` name before its first assignment. -/
def globalVariable : Property := .data .undefined true true false

end Property

namespace Object

variable {o o' : Object} {name : String}

theorem define_of_not_array (plain : o.kind.isArray = false) (key : String) (d : Descriptor) :
    o.define key d = o.orRefused (o.defineOrdinary? key d) := by
  unfold Object.define
  rw [plain]
  rfl

/-- A property that cannot be reconfigured survives every change of an object that is no array. -/
theorem Change.property_lasts (change : o.Change o') (plain : o.kind.isArray = false) {p : Property}
    (found : o.property? name = some p) (permanent : p.configurable = false) :
    ∃ q, o'.property? name = some q ∧ q.configurable = false := by
  cases change with
  | same => exact ⟨p, found, permanent⟩
  | preventExtensions => exact ⟨p, found, permanent⟩
  | define key d =>
    rw [define_of_not_array plain]
    cases defined : o.defineOrdinary? key d with
    | none => exact ⟨p, found, permanent⟩
    | some after =>
      obtain ⟨q, rfl, origin⟩ := defineOrdinary?_eq_some_iff.1 defined
      change ∃ r, (o.put key q).property? name = some r ∧ _
      rw [property?_put]
      split
      next same =>
        subst same
        -- The name is taken, so the definition has changed the property that was there.
        obtain ⟨absent, -⟩ | ⟨current, there, redefined⟩ := origin
        · rw [found] at absent
          cases absent
        · rw [found] at there
          cases there
          exact ⟨q, rfl, Property.redefine?_configurable permanent redefined⟩
      · exact ⟨p, found, permanent⟩
  | @delete _ key deleted =>
    obtain ⟨configurable, rfl⟩ := delete?_eq_some_iff.1 deleted
    rw [property?_without]
    split
    next same =>
      rw [configurable p (same ▸ found)] at permanent
      cases permanent
    · exact ⟨p, found, permanent⟩

/-! ### Declaring functions and variables -/

/-- Whether a function may be declared under a name. -/
def admitsFunction (o : Object) (name : String) : Bool :=
  (o.property? name).all fun p => p.configurable || (p.writable && p.enumerable)

/-- Whether there is room for a name: it is there, or can be added. -/
def HasRoom (o : Object) (name : String) : Prop := o.extensible = true ∨ o.property? name ≠ none

/-- What the declaration of a function asks for: a property that can be reconfigured becomes a
permanent one, and otherwise only the value changes. -/
def functionDescriptor (o : Object) (name : String) (f : ObjectId) : Descriptor :=
  if (o.property? name).all Property.configurable then .ofProperty (.globalFunction f)
  else .ofValue (.object f)

theorem admitsFunction_put {p : Property} (redeclarable : (p.writable && p.enumerable) = true)
    {other : String} (admits : o.admitsFunction other = true) :
    (o.put name p).admitsFunction other = true := by
  unfold admitsFunction
  rw [property?_put]
  split
  · simp [redeclarable]
  · exact admits

/-- Where a function may be declared, its declaration succeeds if there is room for the name. -/
theorem define_function (plain : o.kind.isArray = false) (admits : o.admitsFunction name = true)
    (room : o.HasRoom name) (f : ObjectId) :
    o.define name (o.functionDescriptor name f) = (o.put name (.globalFunction f), true) := by
  rw [define_of_not_array plain]
  suffices defined : o.defineOrdinary? name (o.functionDescriptor name f) =
      some (o.put name (.globalFunction f)) by
    rw [defined]
    rfl
  rw [defineOrdinary?_eq_some_iff]
  refine ⟨_, rfl, ?_⟩
  cases found : o.property? name with
  | none =>
    left
    refine ⟨rfl, room.resolve_right (fun there => there found), ?_⟩
    simp only [functionDescriptor, found, Option.all_none, if_true]
    rfl
  | some p =>
    right
    refine ⟨p, rfl, ?_⟩
    simp only [admitsFunction, found, Option.all_some, Bool.or_eq_true, Bool.and_eq_true] at admits
    simp only [functionDescriptor, found, Option.all_some]
    cases p with
    | data value writable enumerable configurable =>
      cases configurable with
      | true => cases enumerable <;> cases writable <;> rfl
      -- What cannot be reconfigured is writable and enumerable here, as a function is.
      | false =>
        obtain ⟨rfl, rfl⟩ := admits.resolve_left nofun
        rfl
    | accessor getter setter enumerable configurable =>
      cases configurable with
      | true => cases enumerable <;> rfl
      | false => exact absurd (admits.resolve_left nofun).1 nofun

/-- A name for which there is no room is refused. -/
theorem define_of_no_room (plain : o.kind.isArray = false) (full : ¬ o.HasRoom name)
    (d : Descriptor) : o.define name d = (o, false) := by
  unfold HasRoom at full
  simp only [ne_eq, not_or, Bool.not_eq_true, Decidable.not_not] at full
  rw [define_of_not_array plain]
  simp only [defineOrdinary?, full.1, full.2]
  rfl

theorem define_variable (plain : o.kind.isArray = false) (absent : o.property? name = none)
    (extensible : o.extensible = true) :
    o.define name (.ofProperty .globalVariable) = (o.put name .globalVariable, true) := by
  rw [define_of_not_array plain]
  simp only [defineOrdinary?, absent, extensible]
  rfl

end Object

namespace Store

variable {s t : Store}

/-- The global object. -/
def global (s : Store) : Object := s.object WellKnown.globalObject

theorem global_allocate (present : WellKnown.globalObject.index < s.objects.size) (o : Object) :
    (s.allocate o).2.global = s.global := by
  unfold global
  rw [object_allocate, if_neg (Nat.ne_of_lt present)]

theorem global_define_of_ne {id : ObjectId} (other : id ≠ WellKnown.globalObject) (key : String)
    (d : Descriptor) : (s.define id key d).2.global = s.global := by
  have ne : ¬ (WellKnown.globalObject = id ∧ id.index < s.objects.size) :=
    fun both => other both.1.symm
  change (s.setObject id _).object WellKnown.globalObject = _
  rw [object_setObject, if_neg ne]
  rfl

theorem global_define (present : WellKnown.globalObject.index < s.objects.size) (key : String)
    (d : Descriptor) :
    (s.define WellKnown.globalObject key d).2.global = (s.global.define key d).1 := by
  change (s.setObject WellKnown.globalObject _).object WellKnown.globalObject = _
  rw [object_setObject, if_pos ⟨rfl, present⟩]
  rfl

/-- A property that cannot be reconfigured, of an object that is no array, is there for good. -/
theorem Reaches.property_lasts (reached : s.Reaches t) {id : ObjectId}
    (present : id.index < s.objects.size) (plain : (s.object id).kind.isArray = false)
    {name : String} {p : Property} (found : (s.object id).property? name = some p)
    (permanent : p.configurable = false) :
    ∃ q, (t.object id).property? name = some q ∧ q.configurable = false := by
  -- The invariant is that the object has such a property and is still no array.
  let lasting (o : Object) : Prop := o.kind.isArray = false ∧
    ∃ q, o.property? name = some q ∧ q.configurable = false
  have lasts : lasting (t.object id) := by
    refine reached.object_invariant (P := lasting) ?_ present ⟨plain, p, found, permanent⟩
    rintro o o' change ⟨plain, q, there, permanent⟩
    exact ⟨change.kind ▸ plain, change.property_lasts plain there permanent⟩
  exact lasts.2

/-- The two global environments are there: one with the properties of the global object, and inside
it one with bindings of its own. -/
structure HasGlobals (s : Store) : Prop where
  properties :
    (s.environment WellKnown.globalObjectEnvironment).record = .object WellKnown.globalObject
  present : WellKnown.globalEnvironment.index < s.environments.size
  lexical : ∃ bindings, (s.environment WellKnown.globalEnvironment).record = .declarative bindings
  inside : (s.environment WellKnown.globalEnvironment).outer =
    some WellKnown.globalObjectEnvironment

namespace HasGlobals

theorem declarative (globals : s.HasGlobals) : s.Declarative WellKnown.globalEnvironment :=
  ⟨globals.present, globals.lexical⟩

theorem store : WellKnown.store.HasGlobals := ⟨rfl, by decide, ⟨_, rfl⟩, rfl⟩

theorem of_eq (globals : s.HasGlobals) (eq : t.environments = s.environments) : t.HasGlobals := by
  have same : ∀ id, t.environment id = s.environment id := fun id => by
    rw [environment, eq]
    rfl
  exact ⟨by rw [same, globals.properties], by rw [eq]; exact globals.present,
    by rw [same]; exact globals.lexical, by rw [same]; exact globals.inside⟩

theorem step (globals : s.HasGlobals) (taken : s.Step t) : t.HasGlobals where
  properties := by
    have before := globals.properties
    rcases taken.environment_change WellKnown.globalObjectEnvironment with change | ⟨fresh, -⟩
    · generalize s.environment _ = e at before change
      generalize t.environment _ = e' at change
      cases change with
      | same => exact before
      | edit outer each => cases before
    · have present := globals.present
      rw [← fresh] at present
      cases present
  present := (taken.declarative globals.declarative).present
  lexical := (taken.declarative globals.declarative).record
  inside := (taken.outer_eq globals.present).trans globals.inside

theorem reaches (globals : s.HasGlobals) (reached : s.Reaches t) : t.HasGlobals := by
  induction reached with
  | refl => exact globals
  | tail _ last ih => exact ih.step last

end HasGlobals

end Store

end ScriptEngine
