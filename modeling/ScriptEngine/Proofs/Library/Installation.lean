import ScriptEngine.Library.Core

/-!
# Installing a library

Installing only adds objects and puts properties in place. Main result: what is kept by adding
ordinary objects and native functions of the library, and by putting any property but a `length`
in place, is kept by installing a whole built-in (`builtIn_preserves`).
-/
namespace ScriptEngine

/-- A built-in whose functions satisfy a condition, and which puts no `length` in place. -/
structure BuiltIn.Admissible (natives : Native → Prop) (b : BuiltIn) : Prop where
  methods : ∀ m ∈ b.methods ++ b.prototypeMethods, m.name ≠ "length" ∧ natives m.behaviour
  properties : ∀ p ∈ b.properties, p.1 ≠ "length"
  constructor : ∀ c, b.constructor = some c → natives c.2

/-- A library of such built-ins and functions. -/
structure Registry.Admissible (natives : Native → Prop) (r : Registry) : Prop where
  objects : ∀ b ∈ r.objects, b.Admissible natives
  functions : ∀ m ∈ r.functions, natives m.behaviour

namespace Install

/-- What installation needs of a property of stores to keep it. -/
structure Kept (natives : Native → Prop) (P : Store → Prop) : Prop where
  ordinary : ∀ (s : Store) (prototype : Option ObjectId), P s →
    P (s.allocate { kind := .ordinary, prototype }).2
  native : ∀ (s : Store) (code : NativeCode), P s → natives code.behaviour →
    P (s.allocate (Evaluate.nativeObject code)).2
  insert : ∀ (s : Store) (id : ObjectId) (key : String) (p : Property), P s →
    key ≠ "length" ∨ id = WellKnown.globalObject → P (s.insert id key p)

/-- A change of the store keeps a property of stores. -/
def Preserves {α : Type} (P : Store → Prop) (x : StateM Store α) : Prop := ∀ s, P s → P (x.run s).2

namespace Preserves

variable {α β : Type} {P : Store → Prop}

theorem pure (a : α) : Preserves P (pure a) := fun _ holds => holds

theorem bind {x : StateM Store α} {f : α → StateM Store β} (first : Preserves P x)
    (second : ∀ a, Preserves P (f a)) : Preserves P (x >>= f) :=
  fun s holds => second _ _ (first s holds)

theorem forM {f : α → StateM Store Unit} {items : List α}
    (each : ∀ a ∈ items, Preserves P (f a)) : Preserves P (items.forM f) := by
  induction items with
  | nil => exact pure ()
  | cons a rest ih =>
    exact bind (each a List.mem_cons_self)
      fun _ => ih fun b mem => each b (List.mem_cons_of_mem a mem)

end Preserves

variable {natives : Native → Prop} {P : Store → Prop}

namespace Kept

variable (kept : Kept natives P)

include kept

theorem addOrdinary (prototype : Option ObjectId) :
    Preserves P (add { kind := .ordinary, prototype }) :=
  fun s holds => kept.ordinary s prototype holds

theorem insertOther (id : ObjectId) {key : String} (p : Property) (other : key ≠ "length") :
    Preserves P (Install.insert id key p) :=
  fun s holds => kept.insert s id key p holds (.inl other)

theorem insertGlobal (key : String) (p : Property) :
    Preserves P (Install.insert WellKnown.globalObject key p) :=
  fun s holds => kept.insert s _ key p holds (.inr rfl)

theorem global (name : String) (value : Value) : Preserves P (Install.global name value) :=
  kept.insertGlobal name (.hidden value)

theorem function {m : Method} (admitted : natives m.behaviour) (isConstructor : Bool) :
    Preserves P (Install.function m isConstructor) :=
  fun s holds => kept.native s (m.code isConstructor) holds admitted

theorem method (holder : ObjectId) {m : Method} (other : m.name ≠ "length")
    (admitted : natives m.behaviour) : Preserves P (Install.method holder m) :=
  (kept.function admitted false).bind fun f => kept.insertOther holder (.hidden (.object f)) other

theorem globalMethod {m : Method} (admitted : natives m.behaviour) :
    Preserves P (Install.method WellKnown.globalObject m) :=
  (kept.function admitted false).bind fun f => kept.insertGlobal m.name (.hidden (.object f))

theorem target {b : BuiltIn} (admissible : b.Admissible natives) :
    Preserves P (Install.target b) := by
  unfold Install.target
  split
  next parameters behaviour constructor =>
    refine (kept.function (admissible.constructor _ constructor) true).bind fun target => ?_
    -- The prototype is a well-known one or a new one; what links it to the constructor is the same.
    have link : ∀ prototype : ObjectId, Preserves P (do
        Install.insert prototype "constructor" (.hidden (.object target))
        Install.insert target "prototype" (.fixed (.object prototype))
        return (target, some prototype)) := by
      intro prototype
      refine (kept.insertOther prototype _ (by decide)).bind fun _ => ?_
      exact (kept.insertOther target _ (by decide)).bind fun _ => .pure _
    cases WellKnown.prototypeOf? b.name with
    | some prototype => exact link prototype
    | none => exact (kept.addOrdinary _).bind link
  · exact (kept.addOrdinary _).bind fun _ => .pure _

theorem builtIn {b : BuiltIn} (admissible : b.Admissible natives) :
    Preserves P (Install.builtIn b) := by
  have methods : ∀ holder, ∀ m ∈ b.methods ++ b.prototypeMethods,
      Preserves P (Install.method holder m) := by
    intro holder m mem
    obtain ⟨other, admitted⟩ := admissible.methods m mem
    exact kept.method holder other admitted
  refine (kept.target admissible).bind fun linked => ?_
  obtain ⟨target, prototype⟩ := linked
  -- What follows does not depend on whether there is a prototype.
  have rest : Preserves P (do
      b.methods.forM (Install.method target)
      b.properties.forM fun entry => Install.insert target entry.1 (.fixed entry.2)
      Install.global b.name (.object target)
      return target) := by
    refine (Preserves.forM fun m mem => methods target m (List.mem_append_left _ mem)).bind ?_
    intro _
    refine Preserves.bind (.forM ?_) fun _ => (kept.global b.name _).bind fun _ => .pure _
    intro entry mem
    exact kept.insertOther target (.fixed entry.2) (admissible.properties entry mem)
  cases prototype with
  | some prototype =>
    exact (Preserves.forM fun m mem => methods prototype m (List.mem_append_right _ mem)).bind
      fun _ => rest
  | none => exact rest

end Kept

end Install

/-- Whether a native function is one of the library, and not one of a host. -/
def Native.isShipped : Native → Bool
  | .host _ => false
  | _ => true

/-- The core library puts no `length` in place, and all of its functions are its own. -/
theorem Library.core_admissible {natives : Native → Prop}
    (shipped : ∀ native, native.isShipped = true → natives native) :
    Registry.Admissible natives Library.core where
  objects := by
    -- The core library is a fixed list, so these can be checked by going through it.
    have methods : ∀ b ∈ Library.core.objects, ∀ m ∈ b.methods ++ b.prototypeMethods,
        m.name ≠ "length" ∧ m.behaviour.isShipped = true := by decide
    have properties : ∀ b ∈ Library.core.objects, ∀ key ∈ b.properties.map Prod.fst,
        key ≠ "length" := by decide
    have constructors : ∀ b ∈ Library.core.objects, ∀ c ∈ b.constructor.map Prod.snd,
        c.isShipped = true := by decide
    intro b mem
    refine ⟨fun m mem' => ?_, fun p mem' => ?_, fun c eq => ?_⟩
    · obtain ⟨other, own⟩ := methods b mem m mem'
      exact ⟨other, shipped _ own⟩
    · exact properties b mem p.1 (List.mem_map_of_mem mem')
    · exact shipped _ (constructors b mem c.2 (by rw [eq]; rfl))
  functions := by
    intro m mem
    have own : ∀ m ∈ Library.core.functions, m.behaviour.isShipped = true := by decide
    exact shipped _ (own m mem)

end ScriptEngine
