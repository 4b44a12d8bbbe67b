import ScriptEngine.Proofs.Engine.Reachable
import ScriptEngine.Proofs.Heap.Calls

/-!
# Installing on a heap

What a host puts in place refers to what is there: to objects that it has just made, to well-known
ones, and to the values that it brings along.
-/
namespace ScriptEngine

/-- Objects were added and properties put in place. -/
structure Store.Grown (s t : Store) : Prop where
  size : s.objects.size ≤ t.objects.size
  environments : t.environments = s.environments
  kind : ∀ id, s.HasObject id → (t.object id).kind = (s.object id).kind

namespace Store.Grown

variable {s t u : Store}

theorem refl (s : Store) : s.Grown s := ⟨Nat.le_refl _, rfl, fun _ _ => rfl⟩

theorem trans (first : s.Grown t) (second : t.Grown u) : s.Grown u where
  size := Nat.le_trans first.size second.size
  environments := second.environments.trans first.environments
  kind id has := (second.kind id (Nat.lt_of_lt_of_le has first.size)).trans (first.kind id has)

theorem allocate (s : Store) (o : Object) : s.Grown (s.allocate o).2 where
  size := Nat.le_of_lt (s.hasObject_allocate o)
  environments := rfl
  kind id has := by rw [object_allocate, if_neg (Nat.ne_of_lt has)]

theorem insert (s : Store) (id : ObjectId) (key : String) (p : Property) :
    s.Grown (s.insert id key p) where
  size := Nat.le_of_eq (s.size_setObject id _).symm
  environments := rfl
  kind other _ := by
    unfold Store.insert
    rw [object_setObject]
    split
    next same =>
      rw [same.1]
      exact (Object.SameShell.insert _ key p).kind
    · rfl

end Store.Grown

theorem Regime.Allows.insert {R : Regime} {s : Store} (allows : R.Allows s) {id : ObjectId}
    (known : R.Known id) (key : String) {p : Property} (has : p.Refers (R.HasObject s)) :
    R.Allows (s.insert id key p) :=
  allows.setObject known (allows.kinds.insert id key p)
    (allows.closed.insert id key (has.mono fun _ there => there.1))
    (allows.known.insert id key (has.mono fun _ there => there.2))

/-- The functions of a built-in may be there, and its values are. -/
structure BuiltIn.Furnished (R : Regime) (s : Store) (b : BuiltIn) : Prop where
  methods : ∀ m ∈ b.methods ++ b.prototypeMethods, R.native m.behaviour
  properties : ∀ p ∈ b.properties, R.HasValue s p.2
  constructor : ∀ c, b.constructor = some c → R.native c.2

theorem BuiltIn.Furnished.of_size_le {R : Regime} {s t : Store} {b : BuiltIn}
    (furnished : b.Furnished R s) (le : s.objects.size ≤ t.objects.size) : b.Furnished R t :=
  { furnished with properties := fun p mem => (furnished.properties p mem).of_size_le le }

/-- So are those of a library. -/
structure Registry.Furnished (R : Regime) (s : Store) (r : Registry) : Prop where
  objects : ∀ b ∈ r.objects, b.Furnished R s
  functions : ∀ m ∈ r.functions, R.native m.behaviour
  values : ∀ p ∈ r.values, R.HasValue s p.2

/-- The values of the core library are no objects. -/
theorem Library.core_furnished {R : Regime}
    (shipped : ∀ native, native.isShipped = true → R.native native) (s : Store) :
    Library.core.Furnished R s := by
  have admissible := Library.core_admissible shipped
  have properties : ∀ b ∈ Library.core.objects, ∀ p ∈ b.properties, p.2.isObject = false := by
    decide
  have values : ∀ p ∈ Library.core.values, p.2.isObject = false := by decide
  exact
    { objects := fun b mem =>
        { methods := fun m mem' => ((admissible.objects b mem).methods m mem').2
          properties := fun p mem' => Value.refers_of_not_object (properties b mem p mem')
          constructor := (admissible.objects b mem).constructor }
      functions := admissible.functions
      values := fun p mem => Value.refers_of_not_object (values p mem) }

/-- What a well-known name leads to is well known. -/
theorem WellKnown.prototypeOf?_early {name : String} {id : ObjectId}
    (known : WellKnown.prototypeOf? name = some id) : id.index ≤ WellKnown.globalObject.index := by
  unfold WellKnown.prototypeOf? at known
  split at known
  case h_5 =>
    obtain ⟨kind, -, rfl⟩ := Option.map_eq_some_iff.1 known
    cases kind <;> decide
  all_goals
    cases known
    decide

namespace Install

variable {R : Regime} {s : Store} {α β σ : Type}

/-- Started in a store that is allowed, a change leaves one that has all the objects from before,
with a condition on what it gives back. -/
def Leaves (R : Regime) (s : Store) (x : StateM Store α) (Q : Store → α → Prop) : Prop :=
  R.Allows s → R.Allows (x.run s).2 ∧ s.Grown (x.run s).2 ∧ Q (x.run s).2 (x.run s).1

namespace Leaves

variable {x : StateM Store α} {f : α → StateM Store β} {P : Store → α → Prop}
  {Q : Store → β → Prop}

theorem given (h : R.Allows s → Leaves R s x P) : Leaves R s x P := fun allows => h allows allows

theorem pure {a : α} (h : P s a) : Leaves R s (pure a) P :=
  fun allows => ⟨allows, .refl s, h⟩

theorem bind (first : Leaves R s x P)
    (second : ∀ {t : Store} (a : α), s.Grown t → P t a → Leaves R t (f a) Q) :
    Leaves R s (x >>= f) Q := by
  intro allows
  obtain ⟨allows, grown, holds⟩ := first allows
  obtain ⟨allows, grown', holds⟩ := second _ grown holds allows
  exact ⟨allows, grown.trans grown', holds⟩

theorem forM {g : σ → StateM Store Unit} {items : List σ}
    (each : ∀ a ∈ items, ∀ {t : Store}, s.Grown t → Leaves R t (g a) fun _ _ => True) :
    Leaves R s (items.forM g) fun _ _ => True := by
  induction items generalizing s with
  | nil => exact pure trivial
  | cons a rest ih =>
    refine (each a List.mem_cons_self (.refl s)).bind fun _ grown _ => ih ?_
    exact fun b mem _ grown' => each b (List.mem_cons_of_mem a mem) (grown.trans grown')

theorem add {o : Object} (own : R.kind o.kind) (parts : R.Allows s → R.HasParts s o) :
    Leaves R s (add o) R.HasObject :=
  fun allows => ⟨allows.allocate own (parts allows), .allocate s o, allows.hasObject_allocate o⟩

theorem insert {id : ObjectId} {key : String} {p : Property} (known : R.Known id)
    (has : p.Refers (R.HasObject s)) : Leaves R s (insert id key p) fun _ _ => True :=
  fun allows => ⟨allows.insert known key has, .insert s id key p, trivial⟩

/-- A host may always put a property of the global object in place. -/
theorem global {name : String} {value : Value} (has : R.HasValue s value) :
    Leaves R s (global name value) fun _ _ => True :=
  given fun allows => insert allows.known.globalObject (.data has ..)

end Leaves

theorem function_leaves {m : Method} {isConstructor : Bool} (native : R.native m.behaviour) :
    Leaves R s (function m isConstructor) R.HasObject :=
  .add native fun allows =>
    ⟨allows.refers.inherits_wellKnown (by decide), nofun, Regime.functionProperties_there _ _⟩

theorem method_leaves {holder : ObjectId} {m : Method} (known : R.Known holder)
    (native : R.native m.behaviour) : Leaves R s (method holder m) fun _ _ => True :=
  (function_leaves native).bind fun _ _ made => .insert known (.data made.value ..)

theorem newOrdinary_leaves {prototype : Option ObjectId}
    (early : ∀ p ∈ prototype, p.index ≤ WellKnown.globalObject.index) :
    Leaves R s (add { kind := .ordinary, prototype }) R.HasObject :=
  .add trivial fun allows =>
    ⟨fun p link => allows.refers.wellKnown (early p link), nofun, .empty⟩

theorem target_leaves {b : BuiltIn} (constructor : ∀ c, b.constructor = some c → R.native c.2) :
    Leaves R s (target b) fun t made => R.HasObject t made.1 ∧ ∀ p ∈ made.2, R.Known p := by
  have parent : ∀ p ∈ b.parent.bind WellKnown.prototypeOf?,
      p.index ≤ WellKnown.globalObject.index := by
    intro p known
    obtain ⟨name, -, known⟩ := Option.bind_eq_some_iff.1 known
    exact WellKnown.prototypeOf?_early known
  unfold target
  split
  next parameters behaviour eq =>
    refine (function_leaves (constructor _ eq)).bind fun target _ made => ?_
    -- The constructor and the prototype refer to each other, whether or not the prototype is new.
    have link : ∀ {t : Store} (prototype : ObjectId), R.HasObject t target →
        R.HasObject t prototype → Leaves R t (do
          insert prototype "constructor" (.hidden (.object target))
          insert target "prototype" (.fixed (.object prototype))
          return (target, some prototype))
            fun u made => R.HasObject u made.1 ∧ ∀ p ∈ made.2, R.Known p := by
      intro t prototype made made'
      refine (Leaves.insert made'.2 (.data made.value ..)).bind fun _ grown _ => ?_
      have there := made'.value.of_size_le grown.size
      refine (Leaves.insert made.2 (.data there ..)).bind fun _ grown' _ => .pure ?_
      refine ⟨made.of_size_le (grown.trans grown').size, ?_⟩
      rintro _ ⟨⟩
      exact made'.2
    split
    next prototype known =>
      exact .given fun allows =>
        link prototype made (allows.refers.wellKnown (WellKnown.prototypeOf?_early known))
    · exact (newOrdinary_leaves parent).bind fun prototype grown made' =>
        link prototype (made.of_size_le grown.size) made'
  · refine (newOrdinary_leaves ?_).bind fun target _ made => .given fun allows => .pure
      ⟨made, fun p known => allows.known.wellKnown (WellKnown.prototypeOf?_early known)⟩
    rintro _ ⟨⟩
    decide

theorem builtIn_leaves {b : BuiltIn} (furnished : b.Furnished R s) :
    Leaves R s (builtIn b) fun _ _ => True := by
  refine (target_leaves furnished.constructor).bind fun linked grown ⟨made, known⟩ => ?_
  obtain ⟨target, prototype⟩ := linked
  have rest : ∀ {t : Store}, s.Grown t → R.HasObject t target →
      Leaves R t (do
        b.methods.forM (method target)
        b.properties.forM fun entry => insert target entry.1 (.fixed entry.2)
        global b.name (.object target)
        return target) fun _ _ => True := by
    intro t grown made
    refine Leaves.bind (P := fun _ _ => True) (.forM fun m mem _ _ =>
      method_leaves made.2 (furnished.methods m (List.mem_append_left _ mem))) fun _ grown₁ _ => ?_
    refine Leaves.bind (P := fun _ _ => True) (.forM fun p mem _ grown₂ => .insert made.2
      (.data ((furnished.properties p mem).of_size_le
        (grown.trans (grown₁.trans grown₂)).size) ..))
      fun _ grown₂ _ => ?_
    have made := made.value.of_size_le (grown₁.trans grown₂).size
    exact (Leaves.global made).bind fun _ _ _ => .pure trivial
  cases prototype with
  | some prototype =>
    refine Leaves.bind (P := fun _ _ => True) (.forM fun m mem _ _ =>
      method_leaves (known prototype rfl) (furnished.methods m (List.mem_append_right _ mem)))
      fun _ grown' _ => ?_
    exact rest (grown.trans grown') (made.of_size_le grown'.size)
  | none => exact rest grown made

end Install

namespace Engine

variable {R : Regime} {e : Engine}

theorem allows_install {b : BuiltIn} (furnished : b.Furnished R e.machine.store)
    (allows : R.Allows e.machine.store) :
    R.Allows (e.install b).2.machine.store ∧
      e.machine.store.Grown (e.install b).2.machine.store := by
  rw [machine_install]
  obtain ⟨allowed, grown, -⟩ := Install.builtIn_leaves furnished allows
  exact ⟨allowed, grown⟩

private theorem allows_installAll {builtIns : List BuiltIn}
    (furnished : ∀ b ∈ builtIns, b.Furnished R e.machine.store)
    (allows : R.Allows e.machine.store) :
    let after := builtIns.foldl (fun e b => (e.install b).2) e
    R.Allows after.machine.store ∧ e.machine.store.Grown after.machine.store := by
  induction builtIns generalizing e with
  | nil => exact ⟨allows, .refl _⟩
  | cons b rest ih =>
    obtain ⟨first, others⟩ := List.forall_mem_cons.1 furnished
    obtain ⟨allowed, grown⟩ := allows_install first allows
    obtain ⟨allowed', grown'⟩ := ih (fun b mem => (others b mem).of_size_le grown.size) allowed
    exact ⟨allowed', grown.trans grown'⟩

theorem allows_installRegistry {r : Registry} (furnished : r.Furnished R e.machine.store)
    (allows : R.Allows e.machine.store) :
    R.Allows (e.installRegistry r).machine.store ∧
      e.machine.store.Grown (e.installRegistry r).machine.store := by
  obtain ⟨allowed, grown⟩ := allows_installAll furnished.objects allows
  -- Functions and values come after the objects, in one change of the store.
  have further : Install.Leaves R (r.objects.foldl (fun e b => (e.install b).2) e).machine.store (do
      r.functions.forM (Install.method WellKnown.globalObject)
      r.values.forM fun entry =>
        Install.insert WellKnown.globalObject entry.1 (.fixed entry.2)) fun _ _ => True := by
    refine Install.Leaves.bind (P := fun _ _ => True) (.forM fun m mem _ _ =>
      Install.method_leaves allowed.known.globalObject (furnished.functions m mem))
      fun _ grown₁ _ => ?_
    exact .forM fun p mem _ grown₂ => .insert allowed.known.globalObject
      (.data ((furnished.values p mem).of_size_le (grown.trans (grown₁.trans grown₂)).size) ..)
  obtain ⟨allowed', grown', -⟩ := further allowed
  exact ⟨allowed', grown.trans grown'⟩

theorem allows_create (bare : R.Allows WellKnown.store) (config : Config)
    (shipped : config.builtins = true → ∀ native, native.isShipped = true → R.native native) :
    R.Allows (create config).machine.store ∧
      WellKnown.store.Grown (create config).machine.store := by
  unfold create
  extract_lets start
  split
  next builtins =>
    exact allows_installRegistry (Library.core_furnished (shipped builtins) _) bare
  · exact ⟨bare, .refl _⟩

theorem allows_defineValue (name : String) {value : Value}
    (there : R.HasValue e.machine.store value) (allows : R.Allows e.machine.store) :
    R.Allows (e.defineValue name value).machine.store ∧
      e.machine.store.Grown (e.defineValue name value).machine.store :=
  ⟨allows.insert allows.known.globalObject name (.data there ..), .insert ..⟩

theorem allows_defineFunction {m : Method} (isConstructor : Bool) (native : R.native m.behaviour)
    (allows : R.Allows e.machine.store) :
    R.Allows (e.defineFunction m isConstructor).machine.store ∧
      e.machine.store.Grown (e.defineFunction m isConstructor).machine.store := by
  have defined : Install.Leaves R e.machine.store (do
      Install.global m.name (.object (← Install.function m isConstructor))) fun _ _ => True :=
    (Install.function_leaves native).bind fun _ _ made => .global made.value
  obtain ⟨allowed, grown, -⟩ := defined allows
  exact ⟨allowed, grown⟩

end Engine

end ScriptEngine
