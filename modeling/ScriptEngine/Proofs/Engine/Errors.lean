import ScriptEngine.Proofs.Engine.ReadBack
import ScriptEngine.Proofs.Evaluation.Alike

/-!
# The making of errors

The constructors of errors that the core library puts in place stay there, each with its
`prototype`, and the prototypes of errors keep their own, whatever a host does and whatever runs
(`ReachableAnyhow.constructor_in_place`).

A constructor of errors works with `new` and without. It cannot tell which one it is, and goes by
the object that it runs on: it takes the prototype of one that looks as if `new` had just made it
(`Store.LooksNew`), and otherwise that of its kind of error. Main result: `error_prototypes`, with
`error_on_empty_object` for a call where the object has not been made by `new`.
-/
namespace ScriptEngine

/-! ## What lasts -/

namespace Object.Change

variable {o o' : Object}

theorem prototype (change : o.Change o') : o'.prototype = o.prototype := by
  cases change with
  | same => rfl
  | define key d => exact (SameShell.define o key d).prototype
  | delete deleted => exact (SameShell.delete? deleted).prototype
  | preventExtensions => rfl

/-- A permanent property of an object that is no array stays as it is. -/
theorem permanent (change : o.Change o') (plain : o.kind.isArray = false) {key : String}
    {p : Property} (found : o.property? key = some p) (permanent : p.Permanent) :
    ∃ q, o'.property? key = some q ∧ p.Alike q := by
  cases change with
  | same | preventExtensions => exact ⟨p, found, .refl p⟩
  | define other d =>
    rw [Object.define, plain]
    cases defined : o.defineOrdinary? other d with
    | none => exact ⟨p, found, .refl p⟩
    | some o' =>
      obtain ⟨q, rfl, made⟩ := defineOrdinary?_eq_some_iff.1 defined
      change ∃ q', (o.put other q).property? key = some q' ∧ p.Alike q'
      rw [property?_put]
      split
      next same =>
        subst same
        rcases made with ⟨absent, -⟩ | ⟨current, there, redefined⟩
        · cases absent.symm.trans found
        · cases there.symm.trans found
          exact ⟨q, rfl, Property.redefine?_permanent permanent redefined⟩
      · exact ⟨p, found, .refl p⟩
  | @delete _ other deleted =>
    obtain ⟨configurable, rfl⟩ := delete?_eq_some_iff.1 deleted
    refine ⟨p, ?_, .refl p⟩
    rw [property?_without, if_neg, found]
    rintro rfl
    cases (configurable p found).symm.trans permanent.1

end Object.Change

/-- The constructor of a kind of error is there, with the prototype of that kind of error for good,
and the prototypes of the kinds of errors inherit from that of all errors. -/
structure Store.HasErrorConstructor (s : Store) (kind : Option ErrorKind) (id : ObjectId) :
    Prop where
  present : id.index < s.objects.size
  later : WellKnown.globalObject.index < id.index
  native : ∃ code : NativeCode, (s.object id).kind = .native code ∧
    code.behaviour = .error kind ∧ code.isConstructor = true
  prototype : (s.object id).property? "prototype" =
    some (.fixed (.object (WellKnown.errorPrototype kind)))
  inherits : ∀ kind, (s.object (WellKnown.errorPrototype (some kind))).prototype =
    some (WellKnown.errorPrototype none)

namespace Store.HasErrorConstructor

variable {s t : Store} {kind : Option ErrorKind} {id : ObjectId}

theorem index_errorPrototype_lt (kind : Option ErrorKind) :
    (WellKnown.errorPrototype kind).index < WellKnown.globalObject.index := by
  rcases kind with _ | (_ | _ | _ | _) <;> decide

theorem reaches (has : s.HasErrorConstructor kind id) (reached : s.Reaches t) :
    t.HasErrorConstructor kind id where
  present := Nat.lt_of_lt_of_le has.present reached.size_le
  later := has.later
  native := by
    obtain ⟨code, native, rest⟩ := has.native
    refine ⟨code, ?_, rest⟩
    exact reached.object_invariant (P := fun o => o.kind = .native code)
      (fun change native => change.kind.trans native) has.present native
  prototype := by
    obtain ⟨code, native, -⟩ := has.native
    refine (reached.object_invariant (P := fun o => o.kind.isArray = false ∧
      o.property? "prototype" = some (.fixed (.object (WellKnown.errorPrototype kind)))) ?_
      has.present ⟨by rw [native]; rfl, has.prototype⟩).2
    rintro o o' change ⟨plain, found⟩
    refine ⟨change.kind ▸ plain, ?_⟩
    obtain ⟨q, there, alike⟩ := change.permanent plain found ⟨rfl, rfl⟩
    rw [there]
    cases q with
    | data value =>
      obtain ⟨same, rfl, rfl, rfl⟩ := alike
      cases value with
      | object other =>
        obtain rfl := eq_of_beq same
        rfl
      | _ => cases same
    | accessor => cases alike
  inherits kind := by
    refine reached.object_invariant (P := fun o => o.prototype = _)
      (fun change same => change.prototype.trans same) ?_ (has.inherits kind)
    exact Nat.lt_trans (Nat.lt_trans (index_errorPrototype_lt _) has.later) has.present

/-- A host may bind global names. -/
theorem insertGlobal (has : s.HasErrorConstructor kind id) (key : String) (p : Property) :
    (s.insert WellKnown.globalObject key p).HasErrorConstructor kind id := by
  have others : ∀ other, other ≠ WellKnown.globalObject →
      (s.insert WellKnown.globalObject key p).object other = s.object other := by
    intro other ne
    rw [Store.insert, object_setObject, if_neg fun same => ne same.1]
  have own := others id fun same => Nat.ne_of_lt has.later (congrArg ObjectId.index same).symm
  exact {
    present := by
      rw [Store.insert, size_setObject]
      exact has.present
    later := has.later
    native := own ▸ has.native
    prototype := own ▸ has.prototype
    inherits := fun kind => by
      rw [others _ fun same =>
        Nat.ne_of_lt (index_errorPrototype_lt _) (congrArg ObjectId.index same)]
      exact has.inherits kind }

/-- Whether the constructor of a kind of error is in place. -/
def check (s : Store) (kind : Option ErrorKind) (id : ObjectId) : Bool :=
  id.index < s.objects.size && WellKnown.globalObject.index < id.index &&
    (match (s.object id).kind with
      | .native ⟨_, _, .error other, true⟩ => other == kind
      | _ => false) &&
    (match (s.object id).property? "prototype" with
      | some (.data (.object prototype) false false false) =>
        prototype == WellKnown.errorPrototype kind
      | _ => false) &&
    WellKnown.errorKinds.all fun kind =>
      (s.object (WellKnown.errorPrototype (some kind))).prototype ==
        some (WellKnown.errorPrototype none)

theorem of_check (checked : check s kind id = true) : s.HasErrorConstructor kind id := by
  simp only [check, Bool.and_eq_true, decide_eq_true_eq, List.all_eq_true,
    beq_iff_eq] at checked
  obtain ⟨⟨⟨⟨present, later⟩, native⟩, prototype⟩, inherits⟩ := checked
  exact {
    present, later
    native := by
      split at native
      next name parameters other eq => exact ⟨_, eq, by rw [eq_of_beq native], rfl⟩
      · cases native
    prototype := by
      split at prototype
      next found => rw [found, eq_of_beq prototype]; rfl
      · cases prototype
    inherits := fun kind => inherits kind (by cases kind <;> decide) }

end Store.HasErrorConstructor

namespace Engine

/-! ## The constructors of the library -/

/-- Two engines have the same store and remember the same constructors. -/
structure SameSetup (e e' : Engine) : Prop where
  store : e.machine.store = e'.machine.store
  constructors : e.constructors = e'.constructors

namespace SameSetup

variable {e e' : Engine}

theorem install (same : SameSetup e e') (b : BuiltIn) :
    SameSetup (e.install b).2 (e'.install b).2 := by
  obtain ⟨config, ⟨store, control⟩, constructors⟩ := e
  obtain ⟨config', ⟨store', control'⟩, constructors'⟩ := e'
  obtain ⟨rfl, rfl⟩ := same
  simp only [Engine.install, edit, noteConstructor]
  split <;> exact ⟨rfl, rfl⟩

theorem installRegistry (same : SameSetup e e') (r : Registry) :
    SameSetup (e.installRegistry r) (e'.installRegistry r) := by
  have objects : SameSetup (r.objects.foldl (fun e b => (e.install b).2) e)
      (r.objects.foldl (fun e b => (e.install b).2) e') := by
    generalize r.objects = builtIns
    induction builtIns generalizing e e' with
    | nil => exact same
    | cons b rest ih => exact ih (same.install b)
  refine ⟨?_, objects.constructors⟩
  exact congrArg (fun s => (StateT.run (m := Id) (do
    r.functions.forM (Install.method WellKnown.globalObject)
    r.values.forM fun entry =>
      Install.insert WellKnown.globalObject entry.1 (.fixed entry.2)) s).2) objects.store

end SameSetup

/-- An engine without any library. -/
def bare (config : Config) : Engine :=
  { config, machine := ⟨WellKnown.store, ⟨[], 0, config.maxCallDepth⟩⟩ }

theorem create_eq {config : Config} (builtins : config.builtins = true) :
    create config = (bare config).installRegistry Library.core := if_pos builtins

/-- The configuration makes no difference to what the core library puts in place. -/
theorem sameSetup_bare (config : Config) :
    SameSetup ((bare config).installRegistry Library.core)
      ((bare {}).installRegistry Library.core) :=
  have same : SameSetup (bare config) (bare {}) := ⟨rfl, rfl⟩
  same.installRegistry Library.core

theorem hasErrorConstructor_create :
    ((create {}).constructors.all fun entry =>
      (none :: WellKnown.errorKinds.map some).all fun kind =>
        entry.1 != WellKnown.errorName kind ||
          Store.HasErrorConstructor.check (create {}).machine.store kind entry.2) = true := by
  decide +kernel

variable {e : Engine} {kind : Option ErrorKind} {id : ObjectId}

/-- The core library puts the constructors of errors in place. -/
theorem hasErrorConstructor_of_create {config : Config}
    (known : (WellKnown.errorName kind, id) ∈ (create config).constructors) :
    (create config).machine.store.HasErrorConstructor kind id := by
  by_cases builtins : config.builtins = true
  · have same := sameSetup_bare config
    rw [← create_eq builtins, ← create_eq rfl] at same
    rw [same.constructors] at known
    rw [same.store]
    have checked := hasErrorConstructor_create
    simp only [List.all_eq_true] at checked
    have listed : kind ∈ none :: WellKnown.errorKinds.map some := by
      rcases kind with _ | (_ | _ | _ | _) <;> decide
    have checked := checked _ known kind listed
    rw [bne_self_eq_false, Bool.false_or] at checked
    exact .of_check checked
  · rw [create, if_neg builtins] at known
    cases known

/-- A constructor of errors stays in place, whatever a host does. -/
theorem ReachableAnyhow.constructor_in_place (reachable : e.ReachableAnyhow)
    (known : (WellKnown.errorName kind, id) ∈ e.constructors) :
    e.machine.store.HasErrorConstructor kind id := by
  induction reachable with
  | create config => exact hasErrorConstructor_of_create known
  | @runWithin e _ bound p _ ih => exact (ih known).reaches (e.reaches_perform _)
  | @execute e _ bound p _ ih => exact (ih known).reaches (e.reaches_perform _)
  | @executeIn e _ bound p _ env ih => exact (ih known).reaches (e.reaches_perform _)
  | @call e _ bound f receiver arguments ih => exact (ih known).reaches (e.reaches_perform _)
  | @construct e _ bound f arguments ih => exact (ih known).reaches (e.reaches_perform _)
  | @readWithin e _ bound name ih => exact (ih known).reaches (e.reaches_perform _)
  | @defineValue e _ name value ih => exact (ih known).insertGlobal name (.hidden value)
  | @defineFunction e _ m isConstructor admitted ih =>
    -- The function is made first, and bound then.
    have made := (Store.Step.allocate e.machine.store (Evaluate.nativeObject (m.code isConstructor))
      (Object.wellFormed_of_not_array rfl)).reaches
    exact ((ih known).reaches made).insertGlobal m.name _

end Engine

open Evaluation Operation

/-! ## The object and its message -/

/-- The object that `new` makes before it calls a constructor. -/
def Object.forNew (prototype : ObjectId) : Object :=
  { kind := .ordinary, prototype := some prototype }

/-- An ordinary object without properties of its own, with a prototype, like one that `new` has
just made. -/
def Store.LooksNew (s : Store) (receiver : Value) (prototype : ObjectId) : Prop :=
  ∃ o, receiver = .object o ∧ (s.object o).kind = .ordinary ∧ (s.object o).keys = [] ∧
    (s.object o).prototype = some prototype

namespace Library

/-- The message of an error, if its constructor is given one. -/
def errorMessage (call : Caller) (arguments : List Value) : Evaluation (Option String) := do
  match argument arguments 0 with
  | .undefined => pure none
  | value => some <$> toText call value

/-- The prototype that a new error gets: that of an object that looks as if `new` had just made
it. -/
def newErrorPrototype (s : Store) (kind : Option ErrorKind) : Value → ObjectId
  | .object o =>
    (if isFresh (s.object o) then (s.object o).prototype else none).getD
      (WellKnown.errorPrototype kind)
  | _ => WellKnown.errorPrototype kind

theorem isFresh_iff (o : Object) : isFresh o = true ↔ o.kind = .ordinary ∧ o.keys = [] := by
  unfold isFresh
  split
  next ordinary => simp [ordinary]
  next other => exact iff_of_false Bool.false_ne_true fun both => other both.1

section

variable {s : Store} {receiver : Value} {prototype : ObjectId}

theorem newErrorPrototype_of_looksNew (kind : Option ErrorKind)
    (looks : s.LooksNew receiver prototype) :
    newErrorPrototype s kind receiver = prototype := by
  obtain ⟨o, rfl, ordinary, empty, link⟩ := looks
  rw [newErrorPrototype, if_pos ((isFresh_iff _).2 ⟨ordinary, empty⟩), link, Option.getD_some]

/-- No other prototype than that of the kind of error is to be had from the receiver. -/
theorem newErrorPrototype_of_not_misled {kind : Option ErrorKind}
    (honest : ∀ prototype, s.LooksNew receiver prototype →
      prototype = WellKnown.errorPrototype kind) :
    newErrorPrototype s kind receiver = WellKnown.errorPrototype kind := by
  cases receiver with
  | object o =>
    rw [newErrorPrototype]
    split
    next fresh =>
      obtain ⟨ordinary, empty⟩ := (isFresh_iff _).1 fresh
      cases link : (s.object o).prototype with
      | none => rfl
      | some prototype => exact honest prototype ⟨o, rfl, ordinary, empty, link⟩
    · rfl
  | _ => rfl

end

variable {services : Services}

theorem errorPrototypeFor_has (kind : Option ErrorKind) (receiver : Value) (m : Machine) :
    (errorPrototypeFor kind receiver).Has m (newErrorPrototype m.store kind receiver) := by
  cases receiver with
  | object o => exact (has_ask _ m).bind (has_pure _ m)
  | _ => exact has_pure _ m

theorem error_alike (kind : Option ErrorKind) (receiver : Value) (arguments : List Value)
    (m : Machine) :
    (error services kind receiver arguments).Alike
      (errorMessage services.call arguments >>= fun message =>
        Value.object <$> allocate (errorObject (newErrorPrototype m.store kind receiver) message)
          (Object.wellFormed_of_not_array rfl)) m := by
  refine (errorPrototypeFor_has kind receiver m).alike.trans ?_
  unfold errorMessage
  cases argument arguments 0 <;> exact .refl _ m

end Library

/-! ## Calls of a constructor -/

namespace Evaluate

/-- An object that is made at the end is the one after those that are there then. -/
theorem run_oneDeeper_allocate {α : Type} {body : Nat → Evaluation α} {remaining : Nat}
    {m between : Machine} {a : α}
    (ended : (oneDeeper body remaining).run m = (.value a, between)) (o : α → Object)
    (wellFormed : ∀ a, (o a).WellFormed) :
    (oneDeeper (fun remaining => body remaining >>= fun a =>
      Value.object <$> allocate (o a) (wellFormed a)) remaining).run m =
        (.value (.object (between.store.allocate (o a)).1),
          { between with store := (between.store.allocate (o a)).2 }) := by
  cases remaining with
  | zero => cases ended
  | succ remaining =>
    simp only [oneDeeper, enteringCall, bracket] at ended ⊢
    split at ended
    · cases ended
    · obtain ⟨value, rfl⟩ := Prod.mk.inj ended
      have inside : (body remaining).run (Bracket.call.entered m) =
          (.value a, ((body remaining).run (Bracket.call.entered m)).2) := Prod.ext value rfl
      have made := congrArg (andThen fun a => Value.object <$> allocate (o a) (wellFormed a)) inside
      exact congrArg (fun ended => (ended.1, Bracket.call.left m ended.2)) made

/-- An evaluation has ended with an object that was not there before the end. -/
structure EndsWithNew (ended : Outcome Value × Machine) (between : Machine) (o : Object)
    (new : ObjectId) (after : Machine) : Prop where
  value : ended = (.value (.object new), after)
  fresh : ¬ between.store.HasObject new
  object : after.store.object new = o
  others : ∀ id, between.store.HasObject id → after.store.object id = between.store.object id

theorem endsWithNew_allocate (between : Machine) (o : Object) :
    EndsWithNew (.value (.object (between.store.allocate o).1),
        { between with store := (between.store.allocate o).2 }) between o
      (between.store.allocate o).1 { between with store := (between.store.allocate o).2 } where
  value := rfl
  fresh := Nat.lt_irrefl _
  object := (Store.object_allocate between.store o _).trans (if_pos rfl)
  others id there :=
    (Store.object_allocate between.store o id).trans (if_neg (Nat.ne_of_lt there))

/-- A constructor of errors makes one, when it has the message. -/
theorem invoke_error {kind : Option ErrorKind} {id : ObjectId} {m between : Machine}
    {bound remaining : Nat} {arguments : List Value} {message : Option String}
    (has : m.store.HasErrorConstructor kind id)
    (converted : (oneDeeper (fun remaining =>
      Library.errorMessage (invoke bound remaining) arguments) remaining).run m =
        (.value message, between)) (receiver : Value) :
    ∃ new after, EndsWithNew ((invoke bound remaining id receiver arguments).run m) between
      (Library.errorObject (Library.newErrorPrototype m.store kind receiver) message) new
        after := by
  obtain ⟨code, native, does, -⟩ := has.native
  have alike : (invoke bound remaining id receiver arguments).Alike _ m :=
    invoke_native_alike native (fun remaining => by
      rw [does]
      exact Library.error_alike kind receiver arguments _) remaining
  rw [alike.run, run_oneDeeper_allocate converted]
  exact ⟨_, _, endsWithNew_allocate between _⟩

end Evaluate

namespace Store

variable {s : Store} {kind : Option ErrorKind} {id new : ObjectId}

theorem HasErrorConstructor.isCallable (has : s.HasErrorConstructor kind id) :
    s.isCallable (.object id) = true := by
  obtain ⟨code, native, -⟩ := has.native
  rw [Store.isCallable, native]
  rfl

/-- An error inherits from the prototype of its kind and from that of all errors. -/
theorem HasErrorConstructor.inherits_error (has : s.HasErrorConstructor kind id)
    (link : (s.object new).prototype = some (WellKnown.errorPrototype kind))
    (later : WellKnown.globalObject.index < new.index) :
    s.inherits new (WellKnown.errorPrototype kind) = true ∧
      s.inherits new (WellKnown.errorPrototype none) = true := by
  obtain ⟨bound, eq⟩ : ∃ bound, new.index = bound + 2 :=
    Nat.exists_eq_add_of_le' (Nat.le_trans (by decide) (Nat.le_of_lt later))
  have behind : (s.ancestry new).tail =
      s.ancestryUpTo (bound + 2) (WellKnown.errorPrototype kind) := by
    rw [ancestry, eq, ancestryUpTo, link, List.tail_cons]
  rw [Store.inherits, Store.inherits, behind, ancestryUpTo]
  cases kind with
  | none => simp
  | some kind => simp [has.inherits kind, ancestryUpTo]

end Store

namespace Operation

theorem hasInstance_run {m : Machine} {kind : Option ErrorKind} {id : ObjectId} (call : Caller)
    (has : m.store.HasErrorConstructor kind id) (new : ObjectId) :
    (hasInstance call (.object id) (.object new)).run m =
      (.value (m.store.inherits new (WellKnown.errorPrototype kind)), m) := by
  simp only [hasInstance, run_bind, run_ask, andThen_value, has.isCallable, Bool.not_true,
    getOwn_run call has.prototype, Bool.false_eq_true, if_false]

/-- A constructor of errors runs on a new object with the prototype of its kind of error. -/
theorem construct_run {m after : Machine} {kind : Option ErrorKind} {id new : ObjectId}
    {call : Caller} {arguments : List Value} (has : m.store.HasErrorConstructor kind id)
    (called :
      let made := m.store.allocate (.forNew (WellKnown.errorPrototype kind))
      (call id (.object made.1) arguments).run { m with store := made.2 } =
        (.value (.object new), after)) :
    (construct call (.object id) arguments).run m = (.value (.object new), after) := by
  have made := Store.Step.allocate m.store (.forNew (WellKnown.errorPrototype kind))
    (Object.wellFormed_of_not_array rfl)
  obtain ⟨code, native, -, constructs⟩ := has.native
  have isConstructor : m.store.isConstructor (.object id) = true := by
    rw [Store.isConstructor, native]
    exact constructs
  have callable := (has.reaches made.reaches).isCallable
  simp only [Object.forNew] at called callable
  simp only [construct, run_bind, run_ask, andThen_value, isConstructor, Bool.not_true,
    Bool.false_eq_true, if_false, getOwn_run call has.prototype, newObject, run_allocate,
    callValue, callable, if_true, called, run_pure]

end Operation

namespace Engine

open Evaluate

/-- What makes an error makes an instance of itself and of the constructor of all errors, if the
prototype is that of the kind of error. -/
theorem error_instance {kind : Option ErrorKind} {constructor general : ObjectId}
    {m between : Machine} {bound remaining : Nat} {arguments : List Value}
    {message : Option String} (has : m.store.HasErrorConstructor kind constructor)
    (hasGeneral : m.store.HasErrorConstructor none general)
    (converted : (oneDeeper (fun remaining =>
      Library.errorMessage (invoke bound remaining) arguments) remaining).run m =
        (.value message, between)) (receiver : Value) :
    let prototype := Library.newErrorPrototype m.store kind receiver
    ∃ new after, EndsWithNew ((invoke bound remaining constructor receiver arguments).run m)
        between (Library.errorObject prototype message) new after ∧
      (prototype = WellKnown.errorPrototype kind → ∀ f ∈ [constructor, general], ∀ call,
        (hasInstance call (.object f) (.object new)).run after = (.value true, after)) := by
  obtain ⟨new, after, made⟩ := invoke_error has converted receiver
  refine ⟨new, after, made, fun intrinsic f mem call => ?_⟩
  have toBetween := Evaluation.steps (oneDeeper (fun remaining =>
    Library.errorMessage (invoke bound remaining) arguments) remaining) m
  have toAfter := (invoke bound remaining constructor receiver arguments).steps m
  rw [converted] at toBetween
  rw [made.value] at toAfter
  have later : WellKnown.globalObject.index < new.index :=
    Nat.lt_of_lt_of_le (Nat.lt_trans has.later (has.reaches toBetween).present)
      (Nat.le_of_not_lt made.fresh)
  have link : (after.store.object new).prototype = some (WellKnown.errorPrototype kind) := by
    rw [made.object, ← intrinsic]
    rfl
  obtain ⟨own, all⟩ := (has.reaches toAfter).inherits_error link later
  rcases List.mem_pair.1 mem with rfl | rfl
  · rw [hasInstance_run call (has.reaches toAfter), own]
  · rw [hasInstance_run call (hasGeneral.reaches toAfter), all]

/-- What a constructor of errors makes, if the message can be had: a new error object.

In a call without `new` the object has the prototype of the kind of error, and so is an instance of
the constructor and of that of all errors, unless the constructor is called on an ordinary object
that has no properties of its own and has another prototype. Then the error gets that prototype.

With `new` the constructor runs on an object with the prototype of the kind of error, which is the
one that it has under `prototype`, and the error gets that one. -/
theorem error_prototypes {e : Engine} (reachable : e.ReachableAnyhow) {kind : Option ErrorKind}
    {constructor general : ObjectId}
    (known : (WellKnown.errorName kind, constructor) ∈ e.constructors)
    (knownGeneral : (WellKnown.errorName none, general) ∈ e.constructors) {m : Machine}
    (running : e.machine.store.Reaches m.store) (bound remaining : Nat) (receiver : Value)
    (arguments : List Value) :
    let intrinsic := WellKnown.errorPrototype kind
    let converting := oneDeeper (fun remaining =>
      Library.errorMessage (invoke bound remaining) arguments) remaining
    let called := (invoke bound remaining constructor receiver arguments).run m
    let constructed := (construct (invoke bound remaining) (.object constructor) arguments).run m
    let allocated : Machine := { m with store := (m.store.allocate (.forNew intrinsic)).2 }
    (m.store.object constructor).property? "prototype" = some (.fixed (.object intrinsic)) ∧
      (∀ message between, converting.run m = (.value message, between) →
        ∃ new after prototype,
          EndsWithNew called between (Library.errorObject prototype message) new after ∧
          (∀ p, m.store.LooksNew receiver p → prototype = p) ∧
          ((∀ p, m.store.LooksNew receiver p → p = intrinsic) → prototype = intrinsic ∧
            ∀ f ∈ [constructor, general], ∀ call,
              (hasInstance call (.object f) (.object new)).run after = (.value true, after))) ∧
      (∀ message between, converting.run allocated = (.value message, between) →
        ∃ new after,
          EndsWithNew constructed between (Library.errorObject intrinsic message) new after ∧
          ∀ f ∈ [constructor, general], ∀ call,
            (hasInstance call (.object f) (.object new)).run after = (.value true, after)) := by
  intro intrinsic converting called constructed allocated
  have has := (reachable.constructor_in_place known).reaches running
  have hasGeneral := (reachable.constructor_in_place knownGeneral).reaches running
  refine ⟨has.prototype, fun message between converted => ?_, fun message between converted => ?_⟩
  · obtain ⟨new, after, made, isInstance⟩ := error_instance has hasGeneral converted receiver
    refine ⟨new, after, _, made, fun p => Library.newErrorPrototype_of_looksNew kind,
      fun honest => ?_⟩
    have intrinsic := Library.newErrorPrototype_of_not_misled honest
    exact ⟨intrinsic, isInstance intrinsic⟩
  · -- The receiver looks new, with the prototype of the kind of error.
    let receiver := (m.store.allocate (.forNew intrinsic)).1
    have reached := (Store.Step.allocate m.store (.forNew intrinsic)
      (Object.wellFormed_of_not_array rfl)).reaches
    have looks : allocated.store.LooksNew (.object receiver) intrinsic := by
      have object : allocated.store.object receiver = .forNew intrinsic :=
        (Store.object_allocate m.store _ _).trans (if_pos rfl)
      exact ⟨receiver, rfl, by rw [object]; rfl, by rw [object]; rfl, by rw [object]; rfl⟩
    have prototype := Library.newErrorPrototype_of_looksNew kind looks
    obtain ⟨new, after, made, isInstance⟩ := error_instance (has.reaches reached)
      (hasGeneral.reaches reached) converted (.object receiver)
    rw [prototype] at made
    have run := construct_run has made.value
    refine ⟨new, after, ⟨run, made.fresh, made.object, made.others⟩, isInstance prototype⟩

/-- A text is a message already. -/
theorem run_errorMessage_string {c : Control} (room : c.depth < c.limit) (s : Store)
    (bound remaining : Nat) (text : String) :
    (oneDeeper (fun remaining => Library.errorMessage (invoke bound remaining) [.string text])
      (remaining + 1)).run ⟨s, c⟩ = (.value (some text), ⟨s, c⟩) := by
  rw [oneDeeper, enteringCall]
  exact run_bracket (b := .call) (m := ⟨s, c⟩) (if_neg (Nat.not_le.2 room)) _

/-- A plain call of `TypeError`, and one through `new`. -/
theorem error_prototypes_typeError :
    let m := (create {}).machine
    let typeError : ObjectId := ⟨29⟩
    let made : Object := Library.errorObject (WellKnown.errorPrototype (some .typeError)) "bad"
    (∃ new after, (invoke 1 2 typeError .undefined [.string "bad"]).run m =
        (.value (.object new), after) ∧ after.store.object new = made ∧
      ∀ call, (hasInstance call (.object typeError) (.object new)).run after =
        (.value true, after)) ∧
    ∃ new after, (construct (invoke 1 2) (.object typeError) [.string "bad"]).run m =
        (.value (.object new), after) ∧ after.store.object new = made ∧
      ∀ call, (hasInstance call (.object typeError) (.object new)).run after =
        (.value true, after) := by
  intro m typeError made
  have room : m.control.depth < m.control.limit := by decide +kernel
  have known : (WellKnown.errorName (some .typeError), typeError) ∈ (create {}).constructors := by
    decide +kernel
  have knownGeneral : (WellKnown.errorName none, ⟨27⟩) ∈ (create {}).constructors := by
    decide +kernel
  obtain ⟨-, called, constructed⟩ := error_prototypes (.create {}) known knownGeneral
    (.refl m.store) 1 2 .undefined [.string "bad"]
  -- Of the machine only the room for calls matters from here on.
  clear_value m
  constructor
  · obtain ⟨new, after, prototype, ended, -, plain⟩ :=
      called _ _ (run_errorMessage_string room _ 1 1 "bad")
    obtain ⟨rfl, isInstance⟩ := plain fun _ ⟨_, object, _⟩ => nomatch object
    exact ⟨new, after, ended.value, ended.object, isInstance _ List.mem_cons_self⟩
  · obtain ⟨new, after, ended, isInstance⟩ :=
      constructed _ _ (run_errorMessage_string room _ 1 1 "bad")
    exact ⟨new, after, ended.value, ended.object, isInstance _ List.mem_cons_self⟩

/-- Whether an evaluation has ended with an object that has the prototype of all objects, but does
not inherit from that of a kind of error. -/
def endsWithoutError (kind : Option ErrorKind) : Outcome Value × Machine → Bool
  | (.value (.object new), after) =>
    (after.store.object new).prototype == some WellKnown.objectPrototype &&
      !after.store.inherits new (WellKnown.errorPrototype kind)
  | _ => false

/-- Called on an empty object, `TypeError` takes that for one of its own. -/
theorem error_on_empty_object :
    let e := create {}
    let typeError : ObjectId := ⟨29⟩
    let empty := e.machine.store.allocate (.forNew WellKnown.objectPrototype)
    let m : Machine := { e.machine with store := empty.2 }
    e.ReachableAnyhow ∧ ("TypeError", typeError) ∈ e.constructors ∧
      e.machine.store.Reaches m.store ∧
      ∃ new after, (invoke 1 2 typeError (.object empty.1) [.string "x"]).run m =
          (.value (.object new), after) ∧
        (after.store.object new).prototype = some WellKnown.objectPrototype ∧
        ∀ call, (hasInstance call (.object typeError) (.object new)).run after =
          (.value false, after) := by
  intro e typeError empty m
  have known : ("TypeError", typeError) ∈ e.constructors := by decide +kernel
  have reached : e.machine.store.Reaches m.store :=
    (Store.Step.allocate e.machine.store (.forNew WellKnown.objectPrototype)
      (Object.wellFormed_of_not_array rfl)).reaches
  have reachable : e.ReachableAnyhow := .create {}
  have has : e.machine.store.HasErrorConstructor (some .typeError) typeError :=
    reachable.constructor_in_place known
  refine ⟨reachable, known, reached, ?_⟩
  have ended : endsWithoutError (some .typeError)
      ((invoke 1 2 typeError (.object empty.1) [.string "x"]).run m) = true := by decide +kernel
  have further := (invoke 1 2 typeError (.object empty.1) [.string "x"]).steps m
  revert ended further
  generalize (invoke 1 2 typeError (.object empty.1) [.string "x"]).run m = run
  intro ended further
  unfold endsWithoutError at ended
  split at ended
  next new after =>
    rw [Bool.and_eq_true, beq_iff_eq, Bool.not_eq_true'] at ended
    refine ⟨new, after, rfl, ended.1, fun call => ?_⟩
    rw [hasInstance_run call ((has.reaches reached).reaches further), ended.2]
  · cases ended

end Engine

end ScriptEngine
