import ScriptEngine.Library.Perform
import ScriptEngine.Proofs.Engine.Reachable
import ScriptEngine.Proofs.Evaluation.Run
import ScriptEngine.Proofs.Store.Freezing
import ScriptEngine.Proofs.Store.Indices
import ScriptEngine.Proofs.Tree.Accepted

/-!
# The objects of reachable engines

All objects of a reachable engine are well formed, at every moment of a run. Main results: that the
list of the keys of an object and the table of its properties are in step, and what `length` an array
has (`keys_and_lengths`), that the keys of elements are the decimal texts of their indices and that
words of 32 bits are enough to count them (`array_indices_exact`), and that freezing an object keeps
it as it is for good (`freeze_lasts`). `Object.freeze` makes the properties of an object permanent
one after the other and then keeps new ones out; it never fails on an object that is there, and
`Object.isFrozen` says so afterwards.

The global object is no array, so a host may bind any name, `length` among them.
-/
namespace ScriptEngine

/-! ## Freezing -/

/-- What freezing makes of a property. -/
def Property.frozen : Property → Property
  | .data value _ enumerable _ => .data value false enumerable false
  | .accessor getter setter enumerable _ => .accessor getter setter enumerable false

/-- The definition by which a property is frozen. -/
def Property.freezing (p : Property) : Descriptor :=
  { configurable := some false, writable := if p.isData then some false else none }

theorem Property.permanent_frozen (p : Property) : p.frozen.Permanent := by
  cases p <;> exact ⟨rfl, rfl⟩

@[simp]
theorem Property.frozen_frozen (p : Property) : p.frozen.frozen = p.frozen := by
  cases p <;> rfl

/-- Freezing is always allowed. -/
theorem Property.redefine?_freezing (p : Property) : p.redefine? p.freezing = some p.frozen := by
  cases p with
  | data value writable enumerable configurable =>
    cases writable <;> cases configurable <;> cases enumerable <;> rfl
  | accessor getter setter enumerable configurable =>
    cases configurable <;> cases enumerable <;> rfl

namespace Object

/-- Some of the properties of an object have been frozen, and nothing else has changed. -/
structure FrozenAt (names : List String) (o o' : Object) : Prop where
  shell : o.SameShell o'
  keys : o'.keys = o.keys
  property : ∀ key, o'.property? key =
    if key ∈ names then (o.property? key).map Property.frozen else o.property? key

theorem FrozenAt.refl (o : Object) : FrozenAt [] o o := ⟨.refl o, rfl, by simp⟩

theorem FrozenAt.put {o : Object} {key : String} {p : Property} (found : o.property? key = some p) :
    FrozenAt [key] o (o.put key p.frozen) where
  shell := .put o key p.frozen
  keys := keys_put_of_mem _ ((mem_keys_iff o key).2 ⟨p, found⟩)
  property := by
    intro key'
    simp only [property?_put, List.mem_singleton]
    split
    next eq => rw [eq, found, Option.map_some]
    · rfl

theorem FrozenAt.trans {o o' o'' : Object} {first second : List String}
    (before : FrozenAt first o o') (after : FrozenAt second o' o'') :
    FrozenAt (first ++ second) o o'' where
  shell := before.shell.trans after.shell
  keys := after.keys.trans before.keys
  property := by
    intro key
    rw [after.property, before.property]
    -- A property that is frozen twice is as frozen as after the first time.
    by_cases earlier : key ∈ first <;> by_cases later : key ∈ second <;>
      simp [earlier, later, Function.comp_def]

/-- The definition that freezes a property only freezes that property. An index of an array is below
its `length`, so the `length` does not matter. -/
theorem define_freezing {o : Object} (wellFormed : o.WellFormed) {key : String} {p : Property}
    (found : o.property? key = some p) : o.define key p.freezing = (o.put key p.frozen, true) := by
  have defined : o.defineOrdinary? key p.freezing = some (o.put key p.frozen) := by
    simp [defineOrdinary?, found, p.redefine?_freezing]
  unfold define
  split
  · rw [defined]
    rfl
  next array =>
    have array : o.kind.isArray = true := by simpa using array
    obtain ⟨n, writable, measured⟩ := (wellFormed_iff o).1 wellFormed array
    split
    next isLength =>
      subst isLength
      simp only [defineLength, Property.freezing] at defined ⊢
      rw [defined]
      rfl
    · split
      next index read =>
        -- The element is there, so its index is below the `length` and the array need not grow.
        have below : index < n := measured.above key ((mem_keys_iff o key).2 ⟨p, found⟩) index read
        unfold defineElement
        rw [measured.length_eq, if_neg (Nat.not_le.2 below), defined]
        rfl
      · rw [defined]
        rfl

end Object

namespace Library

open Evaluation Operation

variable {o : ObjectId} {m : Machine}

/-- Freezing one property of an object that has it. -/
theorem freezeProperty_run {key : String} {p : Property}
    (wellFormed : (m.store.object o).WellFormed)
    (found : (m.store.object o).property? key = some p) :
    (freezeProperty o key).run m =
      (.value (),
        { m with store := m.store.setObject o ((m.store.object o).put key p.frozen) }) := by
  have defined : m.store.define o key p.freezing =
      (true, m.store.setObject o ((m.store.object o).put key p.frozen)) := by
    simp only [Store.define, Object.define_freezing wellFormed found]
  have asked : ((m.store.object o).property? key).any Property.isData = p.isData := by
    rw [found, Option.any_some]
  unfold Property.freezing at defined
  simp only [freezeProperty, defineOrFail, run_bind, run_ask, andThen_value, run_define, asked,
    defined]
  rfl

/-- Freezing some of the properties of an object, one after the other. -/
theorem freezeEach_run {names : List String} (present : o.index < m.store.objects.size)
    (wellFormed : (m.store.object o).WellFormed)
    (own : ∀ key ∈ names, key ∈ (m.store.object o).keys) :
    ∃ after, (names.forM (freezeProperty o)).run m = (.value (), after) ∧
      (m.store.object o).FrozenAt names (after.store.object o) := by
  induction names generalizing m with
  | nil => exact ⟨m, rfl, .refl _⟩
  | cons key rest ih =>
    -- The rest is frozen in the machine after the first key; that one has the same keys.
    obtain ⟨p, found⟩ := (Object.mem_keys_iff _ key).1 (own key List.mem_cons_self)
    let next : Machine :=
      { m with store := m.store.setObject o ((m.store.object o).put key p.frozen) }
    have object_next : next.store.object o = (m.store.object o).put key p.frozen := by
      simp only [next, Store.object_setObject, present, and_self, if_true]
    have frozen : (m.store.object o).FrozenAt [key] (next.store.object o) :=
      object_next ▸ .put found
    have stillWellFormed : (next.store.object o).WellFormed := by
      have defined := Object.wellFormed_define wellFormed key p.freezing
      rw [Object.define_freezing wellFormed found] at defined
      exact object_next ▸ defined
    obtain ⟨after, run, others⟩ := ih (m := next) (by simpa [next] using present) stillWellFormed
      fun key' mem => frozen.keys ▸ own key' (List.mem_cons_of_mem key mem)
    refine ⟨after, ?_, frozen.trans others⟩
    change (freezeProperty o key >>= fun _ => rest.forM (freezeProperty o)).run m = _
    rw [run_bind, freezeProperty_run wellFormed found]
    exact run

theorem isFrozen_iff (object : Object) : isFrozen object = true ↔ object.Frozen := by
  simp only [isFrozen, Bool.and_eq_true, Bool.not_eq_true', List.all_eq_true]
  constructor
  · rintro ⟨closed, permanent⟩
    refine ⟨closed, fun key p found => ?_⟩
    exact permanent (key, p) ((object.properties.mem_entries_iff key p).2 found)
  · rintro ⟨closed, permanent⟩
    refine ⟨closed, fun (key, p) mem => ?_⟩
    exact permanent key p ((object.properties.mem_entries_iff key p).1 mem)

/-- What `Object.freeze` makes of an object: the same with all properties frozen, and closed. -/
theorem objectFreeze_run (receiver : Value) (rest : List Value)
    (present : o.index < m.store.objects.size) (wellFormed : (m.store.object o).WellFormed) :
    ∃ after, (objectFreeze receiver (.object o :: rest)).run m = (.value (.object o), after) ∧
      (after.store.object o).Frozen ∧ (after.store.object o).kind = (m.store.object o).kind ∧
      (after.store.object o).prototype = (m.store.object o).prototype ∧
      (after.store.object o).keys = (m.store.object o).keys ∧
      ∀ key, (after.store.object o).property? key =
        ((m.store.object o).property? key).map Property.frozen := by
  obtain ⟨frozen, run, all⟩ := freezeEach_run present wellFormed fun _ mem => mem
  have present' : o.index < frozen.store.objects.size := by
    have reached := ((m.store.object o).keys.forM (freezeProperty o)).steps m
    rw [run] at reached
    exact Nat.lt_of_lt_of_le present reached.size_le
  -- Closing the object comes last, and leaves its properties alone.
  have object_after : (frozen.store.preventExtensions o).object o =
      { frozen.store.object o with extensible := false } := by
    simp only [Store.preventExtensions, Store.object_setObject, present', and_self, if_true]
  have property : ∀ key, (frozen.store.object o).property? key =
      ((m.store.object o).property? key).map Property.frozen := by
    intro key
    rw [all.property key]
    split
    · rfl
    next absent =>
      have missing := ((m.store.object o).properties.find?_eq_none_iff key).2 absent
      simp only [Object.property?, missing, Option.map_none]
  refine ⟨{ frozen with store := frozen.store.preventExtensions o }, ?_, ?_⟩
  · simp only [objectFreeze, argument, List.getElem?_cons_zero, Option.getD_some, run_bind, run_ask,
      andThen_value, run, run_preventExtensions, run_pure]
  · simp only [object_after]
    refine ⟨⟨rfl, fun key p found => ?_⟩, all.shell.kind, all.shell.prototype, all.keys, property⟩
    have found : (frozen.store.object o).property? key = some p := found
    rw [property key, Option.map_eq_some_iff] at found
    obtain ⟨before, -, rfl⟩ := found
    exact before.permanent_frozen

end Library

/-! ## Sound stores -/

/-- All objects of a store are well formed, and its global object is an ordinary one. -/
structure Store.Sound (s : Store) : Prop where
  objects : ∀ id, (s.object id).WellFormed
  present : WellKnown.globalObject.index < s.objects.size
  global : (s.object WellKnown.globalObject).kind.isArray = false

namespace Store.Sound

variable {s t : Store}

theorem store : WellKnown.store.Sound where
  objects := by
    rintro ⟨i⟩
    -- Of the well-known objects only the prototype of arrays is an array.
    by_cases array : i = 2
    · subst array
      exact Object.wellFormed_array WellKnown.objectPrototype []
    · refine Object.wellFormed_of_not_array ?_
      match i with
      | 0 | 1 | 3 | 4 | 5 | 6 | 7 | 8 => rfl
      | 2 => exact absurd rfl array
      | _ + 9 => rfl
  present := by decide
  global := rfl

theorem reaches (sound : s.Sound) (reached : s.Reaches t) : t.Sound where
  objects := reached.forall_objects (fun change => change.wellFormed) id sound.objects
  present := Nat.lt_of_lt_of_le sound.present reached.size_le
  global := by
    refine reached.object_invariant (P := fun o => o.kind.isArray = false) ?_ sound.present
      sound.global
    intro o o' change notArray
    rw [change.kind, notArray]

theorem allocate (sound : s.Sound) {o : Object} (wellFormed : o.WellFormed) :
    (s.allocate o).2.Sound := sound.reaches (Step.allocate s o wellFormed).reaches

/-- A host may put any property in place but the `length` of an array. -/
theorem insert (sound : s.Sound) {id : ObjectId} {key : String} (p : Property)
    (allowed : key ≠ "length" ∨ id = WellKnown.globalObject) : (s.insert id key p).Sound where
  objects := by
    intro other
    unfold Store.insert
    rw [object_setObject]
    split
    -- Any name may be bound on the global object, because it is no array.
    next same =>
      refine Object.wellFormed_insert (sound.objects id) p (allowed.imp_right ?_)
      rintro rfl
      exact sound.global
    · exact sound.objects other
  present := by
    unfold Store.insert
    rw [size_setObject]
    exact sound.present
  global := by
    unfold Store.insert
    rw [object_setObject]
    split
    next same =>
      rw [← same.1, (Object.SameShell.insert _ key p).kind]
      exact sound.global
    · exact sound.global

theorem kept (natives : Native → Prop) : Install.Kept natives Sound where
  ordinary := fun _ _ sound => sound.allocate (Object.wellFormed_of_not_array rfl)
  native := fun _ _ sound _ => sound.allocate (Object.wellFormed_of_not_array rfl)
  insert := fun _ _ _ p sound allowed => sound.insert p allowed

end Store.Sound

namespace Engine

/-- Whatever programs run and whatever native functions a host defines. -/
abbrev ReachableAnyhow : Engine → Prop := Reachable (fun _ => True) (fun _ => True)

/-- The objects of a reachable engine are well formed, also in the middle of a run. -/
theorem ReachableAnyhow.sound {e : Engine} (reachable : e.ReachableAnyhow) {s : Store}
    (running : e.machine.store.Reaches s) : s.Sound := by
  have between : e.machine.store.Sound :=
    reachable.store_invariant (Store.Sound.kept _) (fun _ _ => trivial) Store.Sound.store
      fun reached sound => sound.reaches reached
  exact between.reaches running

/-- In every object the list of the keys and the table of the properties are in step: the list has no
key twice, and its keys are those for which the table has a property. And every array has a hidden
and permanent `length`, at most `2 ^ 32 - 1`, that is above all of its indices. -/
theorem keys_and_lengths {e : Engine} (reachable : e.ReachableAnyhow) {s : Store}
    (running : e.machine.store.Reaches s) (id : ObjectId) :
    (s.object id).properties.keys.Nodup ∧
      (∀ key, key ∈ (s.object id).properties.keys ↔
        ∃ p, (s.object id).properties.table.find? key = some p) ∧
      ((s.object id).kind.isArray = true →
        ∃ (n : Nat) (writable : Bool), n ≤ 4294967295 ∧
          (s.object id).properties.table.find? "length" =
            some (.data (.number (.integer n)) writable false false) ∧
          ∀ key ∈ (s.object id).properties.keys, ∀ index,
            Object.arrayIndex? key = some index → index < n) := by
  have inStep := (s.object id).properties.inStep
  refine ⟨inStep.nodup, inStep.mem_keys_iff, fun array => ?_⟩
  have wellFormed := (reachable.sound running).objects id
  obtain ⟨n, writable, measured⟩ := (Object.wellFormed_iff _).1 wellFormed array
  exact ⟨n, writable, measured.bound, measured.length, measured.above⟩

/-- The keys of the array that a program ends with. -/
private def arrayLeft (e : Engine) (p : Program) : Option (List String) :=
  match e.runProgram p with
  | (.ok (.object id), after) =>
    let left := after.machine.store.object id
    if left.kind.isArray then some left.properties.keys else none
  | _ => none

/-- An array with a hole: an element past its end makes it longer, one is deleted, and a shorter
`length` cuts off the last one. -/
private def writtenArray : Sample "var a = [1, , 3]; a[5] = 6; delete a[0]; a.length = 4; a"
    (fun p => arrayLeft (create { builtins := false }) p == some ["length", "2"]) :=
  .ofSource (by decide +kernel)

/-- What is left of the array are its `length` and one element, in the list and in the table. -/
theorem keys_and_lengths_written :
    let e := create { builtins := false }
    let source := "var a = [1, , 3]; a[5] = 6; delete a[0]; a.length = 4; a"
    ∃ p id, Program.compile source "" false = .ok p ∧
      let properties := ((e.runProgram p).2.machine.store.object id).properties
      properties.keys = ["length", "2"] ∧
        (∀ key, key ∈ ["length", "2"] ↔ ∃ p, properties.table.find? key = some p) ∧
        ∃ (n : Nat) (writable : Bool), n ≤ 4294967295 ∧
          properties.table.find? "length" =
            some (.data (.number (.integer n)) writable false false) ∧ 2 < n := by
  intro e source
  obtain ⟨p, compiled, passed⟩ := writtenArray
  have left := eq_of_beq passed
  unfold arrayLeft at left
  split at left
  next id after ended =>
    obtain ⟨array, keys⟩ := Option.ite_none_right_eq_some.1 left
    have keys := Option.some.inj keys
    have reachable : (e.runProgram p).2.ReachableAnyhow :=
      (Reachable.create { builtins := false }).runWithin loopBound p trivial
    rw [ended] at reachable
    obtain ⟨-, inStep, measured⟩ := keys_and_lengths reachable (.refl _) id
    obtain ⟨n, writable, bound, length, above⟩ := measured array
    rw [keys] at inStep above
    refine ⟨p, id, compiled, ?_⟩
    rw [ended]
    exact ⟨keys, inStep, n, writable, bound, length, above "2" (by simp) 2 (by decide +kernel)⟩
  · cases left

/-- A key denotes an index exactly if it is what a number below `2 ^ 32 - 1` is printed as, also if it
is read into machine words; so different keys denote different indices. There is a word of 32 bits
behind every index, and every array that is well formed, as all in reachable engines are, counts in
such words without ever leaving them. -/
theorem array_indices_exact :
    (∀ (key : String) (index : Nat),
      Object.arrayIndex? key = some index ↔ index < 2 ^ 32 - 1 ∧ key = toString index) ∧
    (∀ key, Object.arrayIndex? key = (Object.arrayIndexWord? key).map UInt32.toNat) ∧
    (∀ key key' : String, key ≠ key' → ∀ index, Object.arrayIndex? key = some index →
      Object.arrayIndex? key' ≠ some index) ∧
    (∀ key w, Object.arrayIndexWord? key = some w → (w + 1).toNat = w.toNat + 1) ∧
    (∀ o : Object, o.WellFormed → o.kind.isArray = true → o.CountsInWords) ∧
    ∀ e : Engine, e.ReachableAnyhow → ∀ s, e.machine.store.Reaches s →
      ∀ id, (s.object id).WellFormed := by
  refine ⟨fun _ _ => Object.arrayIndex?_eq_some_iff, Object.arrayIndex?_eq_map_word, ?_,
    fun _ _ => Object.toNat_succ_of_arrayIndexWord?, fun _ => Object.WellFormed.countsInWords,
    fun _ reachable _ running => (reachable.sound running).objects⟩
  exact fun _ _ differ _ read read' => differ (Object.eq_of_arrayIndex?_eq read read')

/-- The last index that there is brings an array to the largest length. -/
theorem array_indices_exact_last :
    let list := (create {}).machine.store.object WellKnown.arrayPrototype
    let d := Descriptor.ofProperty (.plain .null)
    Object.arrayIndex? "4294967295" = none ∧ Object.arrayIndex? "04294967294" ≠ some 4294967294 ∧
      (list.define "4294967294" d).2 = true ∧
        (list.define "4294967294" d).1.length = 4294967295 := by
  intro list d
  obtain ⟨denotes, -, differ, succ, counts, reachable⟩ := array_indices_exact
  have index := (denotes "4294967294" 4294967294).2 ⟨by decide, by decide +kernel⟩
  have word : Object.arrayIndexWord? "4294967294" = some 4294967294 := by decide +kernel
  have array : list.kind.isArray = true := by decide +kernel
  have empty : list.length = 0 := by decide +kernel
  have success : (list.define "4294967294" d).2 = true := by decide +kernel
  have wellFormed : list.WellFormed := reachable _ (.create {}) _ (.refl _) _
  have length := (counts list wellFormed array).defined _ _ word d
  rw [success, if_pos rfl, empty, succ _ _ word] at length
  exact ⟨by decide +kernel, differ _ _ (by decide) _ index, success, length⟩

/-- `Object.freeze` succeeds on every object, `Object.isFrozen` holds right after, and whatever is
evaluated later, the object keeps its keys in their order, its values and functions, and its flags,
and stays closed. -/
theorem freeze_lasts {e : Engine} (reachable : e.ReachableAnyhow) {m : Machine}
    (running : e.machine.store.Reaches m.store) {o : ObjectId}
    (present : o.index < m.store.objects.size) (services : Services) (receiver : Value)
    (rest : List Value) :
    ∃ after,
      (Library.perform services .objectFreeze receiver (.object o :: rest)).run m =
        (.value (.object o), after) ∧
      (Library.perform services .objectIsFrozen receiver (.object o :: rest)).run after =
        (.value (.boolean true), after) ∧
      (after.store.object o).keys = (m.store.object o).keys ∧
      (∀ key, (after.store.object o).property? key =
        ((m.store.object o).property? key).map Property.frozen) ∧
      ∀ later, after.store.Reaches later →
        (after.store.object o).Alike (later.object o) ∧ (later.object o).extensible = false := by
  have wellFormed := (reachable.sound running).objects o
  obtain ⟨after, run, frozen, -, -, keys, property⟩ :=
    Library.objectFreeze_run receiver rest present wellFormed
  have present' : o.index < after.store.objects.size := by
    have reached := (Library.objectFreeze receiver (.object o :: rest)).steps m
    rw [run] at reached
    exact Nat.lt_of_lt_of_le present reached.size_le
  refine ⟨after, run, ?_, keys, property, fun later reached => ?_⟩
  · change (Outcome.value (Value.boolean (Library.isFrozen (after.store.object o))), after) = _
    -- `Object.isFrozen` asks the store and does not change the machine.
    rw [(Library.isFrozen_iff _).2 frozen]
  · have alike := reached.alike_of_frozen present' frozen
    exact ⟨alike, alike.extensible.trans frozen.closed⟩

/-- The prototype of arrays can be frozen in an engine with the core library. -/
theorem freeze_lasts_arrayPrototype :
    let m := (create {}).machine
    let services : Services := ⟨(create {}).caller, Evaluate.runScript (create {}).caller loopBound⟩
    let frozen := Value.object WellKnown.arrayPrototype
    ∃ after,
      (Library.perform services .objectFreeze .undefined [frozen]).run m =
        (.value frozen, after) ∧
      (Library.perform services .objectIsFrozen .undefined [frozen]).run after =
        (.value (.boolean true), after) ∧
      ∀ later, after.store.Reaches later →
        (after.store.object WellKnown.arrayPrototype).Alike
          (later.object WellKnown.arrayPrototype) := by
  intro m services frozen
  obtain ⟨after, run, isFrozen, -, -, lasts⟩ :=
    freeze_lasts (.create {}) (m := m) (.refl _) (o := WellKnown.arrayPrototype) (by decide +kernel)
      services .undefined []
  exact ⟨after, run, isFrozen, fun later reached => (lasts later reached).1⟩

end Engine

end ScriptEngine
