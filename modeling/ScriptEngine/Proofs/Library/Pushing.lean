import ScriptEngine.Proofs.Engine.Heap
import ScriptEngine.Proofs.Engine.ReadBack
import ScriptEngine.Proofs.Evaluation.CompoundAssignment
import ScriptEngine.Proofs.Text.Decimal

/-!
# Pushing onto arrays

`Array.prototype.push` writes each value under the next index, which raises the `length`, and in the
end writes the `length` once more. An open array that inherits no indices takes all of them
(`pushEach_run`); one that does not take the first one is left as it is (`arrayPush_refused`). Main
result: `push_extends_or_refuses`, for the arrays of every store that a reachable engine can get to.
-/
namespace ScriptEngine

namespace Object

variable {o o' o'' : Object} {n : Nat} {values more : List Value} {value : Value}

/-! ## One more element -/

/-- No array has an element at its end. -/
theorem Measured.absent {writable : Bool} (m : o.Measured n writable) (below : n < maxLength) :
    o.property? (Text.decimal n) = none := by
  refine (Dictionary.find?_eq_none_iff _ _).2 fun mem => ?_
  exact Nat.lt_irrefl n (m.above _ mem n (arrayIndex?_decimal below))

/-- An array with one more element. -/
def pushed (o : Object) (n : Nat) (value : Value) : Object :=
  (o.put (Text.decimal n) (.plain value)).withLength (n + 1)

/-- An open array takes one more element. -/
theorem Measured.define_end (m : o.Measured n true) (array : o.kind.isArray = true)
    (below : n < maxLength) (extensible : o.extensible = true) (value : Value) :
    o.define (Text.decimal n) (.ofProperty (.plain value)) = (o.pushed n value, true) := by
  have read := arrayIndex?_decimal below
  have writable : (o.property? "length").any Property.writable = true := by
    rw [m.length]
    rfl
  have made : o.defineOrdinary? (Text.decimal n) (.ofProperty (.plain value)) =
      some (o.put (Text.decimal n) (.plain value)) := by
    rw [Object.defineOrdinary?, m.absent below]
    exact if_pos extensible
  simp [Object.define, array, ne_length_of_arrayIndex? read, read, Object.defineElement,
    m.length_eq, writable, made, pushed]

/-- A closed object takes no new property. -/
theorem define_refused_of_closed (closed : o.extensible = false) {key : String}
    (absent : o.property? key = none) (other : key ≠ "length") (d : Descriptor) :
    o.define key d = (o, false) := by
  have refused : o.defineOrdinary? key d = none := by
    rw [defineOrdinary?, absent]
    exact if_neg (by simp [closed])
  unfold define defineElement
  simp only [refused, other, if_false, orRefused]
  split
  · rfl
  · split
    · split
      · split <;> rfl
      · rfl
    · rfl

/-- An array with a read-only `length` takes no element at its end. -/
theorem Measured.define_end_refused (m : o.Measured n false) (array : o.kind.isArray = true)
    (below : n < maxLength) (d : Descriptor) : o.define (Text.decimal n) d = (o, false) := by
  have read := arrayIndex?_decimal below
  have length : (o.property? "length").any Property.writable = false := by
    rw [m.length]
    rfl
  simp [Object.define, array, ne_length_of_arrayIndex? read, read, Object.defineElement,
    m.length_eq, length]

/-- One object is another with some values behind its `n` elements: everything else is as it was,
the keys of the values come last and the `length` counts them. -/
structure Extended (o : Object) (n : Nat) (values : List Value) (o' : Object) : Prop where
  shell : o.SameShell o'
  measured : o'.Measured (n + values.length) true
  keys : o'.keys = o.keys ++ (List.range' n values.length).map Text.decimal
  old : ∀ key ∈ o.keys, key ≠ "length" → o'.property? key = o.property? key
  new : ∀ i value, values[i]? = some value →
    o'.property? (Text.decimal (n + i)) = some (.plain value)

theorem Extended.refl (m : o.Measured n true) : o.Extended n [] o where
  shell := .refl o
  measured := m
  keys := (List.append_nil _).symm
  old _ _ _ := rfl
  new := nofun

theorem Measured.extended_pushed (m : o.Measured n true) (below : n < maxLength) (value : Value) :
    o.Extended n [value] (o.pushed n value) := by
  have read := arrayIndex?_decimal below
  have other := ne_length_of_arrayIndex? read
  have length : (o.put (Text.decimal n) (.plain value)).property? "length" =
      some (.data (.number (.integer n)) true false false) := by
    rw [property?_put, if_neg other.symm, m.length]
  have absent : Text.decimal n ∉ o.keys := (Dictionary.find?_eq_none_iff _ _).1 (m.absent below)
  have raised : o.pushed n value = (o.put (Text.decimal n) (.plain value)).put "length"
      (.data (.ofNat (n + 1)) true false false) := by
    rw [pushed, withLength, length]
  exact {
    shell := .trans (.put o _ _) (.withLength _ _)
    measured := m.put_withLength _ read (Nat.le_refl n)
    keys := by
      rw [raised, keys_put_of_mem _ ((mem_keys_iff _ _).2 ⟨_, length⟩)]
      exact Dictionary.keys_insert_of_not_mem _ absent
    old := by
      intro key mem ne
      rw [raised, property?_put, if_neg ne, property?_put, if_neg]
      rintro rfl
      exact absent mem
    new := by
      intro i v there
      obtain ⟨rfl, rfl⟩ : i = 0 ∧ v = value := by
        cases i with
        | zero => exact ⟨rfl, (Option.some.inj there).symm⟩
        | succ i => cases there
      rw [Nat.add_zero, raised, property?_put, if_neg other, property?_put, if_pos rfl] }

/-- Further values come behind those that are there. -/
theorem Extended.trans (first : o.Extended n values o')
    (second : o'.Extended (n + values.length) more o'') (bound : n + values.length ≤ maxLength) :
    o.Extended n (values ++ more) o'' where
  shell := first.shell.trans second.shell
  measured := by
    rw [List.length_append, ← Nat.add_assoc]
    exact second.measured
  keys := by
    rw [second.keys, first.keys, List.append_assoc, List.length_append, ← List.map_append,
      List.range'_append_1]
  old := by
    intro key mem ne
    have still : key ∈ o'.keys := first.keys ▸ List.mem_append_left _ mem
    rw [second.old key still ne, first.old key mem ne]
  new := by
    intro i value there
    rcases Nat.lt_or_ge i values.length with early | late
    · rw [List.getElem?_append_left early] at there
      have found := first.new i value there
      have index := arrayIndex?_decimal (n := n + i) (by omega)
      rw [second.old _ ((mem_keys_iff _ _).2 ⟨_, found⟩) (ne_length_of_arrayIndex? index), found]
    · rw [List.getElem?_append_right late] at there
      have found := second.new _ value there
      rwa [Nat.add_assoc, Nat.add_sub_cancel' late] at found

theorem Extended.rewritten (extended : o.Extended n values o') :
    o.Extended n values
      (o'.put "length" (.data (.ofNat (n + values.length)) true false false)) := by
  have bound := extended.measured.bound
  have there : "length" ∈ o'.keys := (mem_keys_iff _ _).2 ⟨_, extended.measured.length⟩
  exact {
    shell := extended.shell.trans (.put _ _ _)
    measured := by
      rw [ofNat_of_le_maxLength bound]
      exact measured_putLength true there bound extended.measured.above
    keys := by rw [keys_put_of_mem _ there, extended.keys]
    old := fun key mem ne => by rw [property?_put, if_neg ne, extended.old key mem ne]
    new := by
      intro i value given
      have found := extended.new i value given
      have := (List.getElem?_eq_some_iff.1 given).1
      have index := arrayIndex?_decimal (n := n + i) (by omega)
      rw [property?_put, if_neg (ne_length_of_arrayIndex? index), found] }

/-- The `length` of an array may be written again. -/
theorem Measured.define_length (m : o.Measured n true) (array : o.kind.isArray = true) :
    o.define "length" (.ofValue (.ofNat n)) =
      (o.put "length" (.data (.ofNat n) true false false), true) := by
  have number : lengthOf? (.ofNat n) = some n := by
    have bound := m.bound
    rw [ofNat_of_le_maxLength bound, lengthOf?, if_pos (by omega)]
    rfl
  have kept : o.truncate n = (o, true) := by
    rw [Object.truncate, m.length_eq, if_pos (Nat.le_refl n)]
  have made : o.defineOrdinary? "length" (.ofValue (.ofNat n)) =
      some (o.put "length" (.data (.ofNat n) true false false)) := by
    rw [Object.defineOrdinary?, m.length]
    rfl
  simp only [Descriptor.ofValue] at made ⊢
  simp [Object.define, array, Object.defineLength, number, kept, made, orRefused]

end Object

namespace Store

variable (s : Store) (id : ObjectId) {o : Object}

/-! ## One object of a store -/

/-- Putting back the object that is there changes nothing. -/
theorem setObject_object : s.setObject id (s.object id) = s := by
  obtain ⟨objects, environments, log⟩ := s
  simp only [setObject, object, mk.injEq, and_true]
  refine Array.ext (by simp) fun i _ below => ?_
  rw [Array.getElem_setIfInBounds]
  split
  next same =>
    subst same
    simp [Array.getD, below]
  · rfl

/-- Of two objects that are put in one place the second one stays. -/
theorem setObject_setObject (o o' : Object) :
    (s.setObject id o).setObject id o' = s.setObject id o' := by
  simp [setObject]

variable {s} {id}

theorem ancestryUpTo_setObject (prototype : o.prototype = (s.object id).prototype) (bound : Nat)
    (other : ObjectId) :
    (s.setObject id o).ancestryUpTo bound other = s.ancestryUpTo bound other := by
  induction bound generalizing other with
  | zero => rfl
  | succ bound ih =>
    have same : ((s.setObject id o).object other).prototype = (s.object other).prototype := by
      rw [object_setObject]
      split
      next there => rw [there.1, prototype]
      · rfl
    rw [ancestryUpTo, ancestryUpTo, same]
    cases (s.object other).prototype with
    | none => rfl
    | some p => exact congrArg _ (ih p)

/-- What an object inherits from depends on prototypes only. -/
theorem ancestry_setObject (prototype : o.prototype = (s.object id).prototype) :
    (s.setObject id o).ancestry id = s.ancestry id :=
  ancestryUpTo_setObject prototype _ id

/-- No other object that the object inherits from has a property that is named by an index. -/
def InheritsNoIndex (s : Store) (id : ObjectId) : Prop :=
  ∀ p ∈ (s.ancestry id).tail, p ≠ id → ∀ key ∈ (s.object p).keys, Object.arrayIndex? key = none

theorem InheritsNoIndex.setObject (plain : s.InheritsNoIndex id)
    (prototype : o.prototype = (s.object id).prototype) :
    (s.setObject id o).InheritsNoIndex id := by
  intro p mem other key there
  rw [ancestry_setObject prototype] at mem
  rw [object_setObject, if_neg fun same => other same.1] at there
  exact plain p mem other key there

theorem lookupAmong_eq_none {key : String} {ids : List ObjectId}
    (absent : ∀ p ∈ ids, (s.object p).property? key = none) : s.lookupAmong key ids = none := by
  induction ids with
  | nil => rfl
  | cons p rest ih =>
    rw [lookupAmong, absent p List.mem_cons_self]
    exact ih fun q mem => absent q (List.mem_cons_of_mem _ mem)

/-- An index that the object does not have is not found behind it either. -/
theorem InheritsNoIndex.lookup (plain : s.InheritsNoIndex id) {key : String} {index : Nat}
    (read : Object.arrayIndex? key = some index)
    (absent : (s.object id).property? key = none) : s.lookup id key = none := by
  refine lookupAmong_eq_none fun p mem => ?_
  by_cases own : p = id
  · rw [own, absent]
  · have behind : p ∈ (s.ancestry id).tail := by
      rw [ancestry, ancestryUpTo] at mem ⊢
      exact (List.mem_cons.1 mem).resolve_left own
    refine (Dictionary.find?_eq_none_iff _ _).2 fun there => ?_
    rw [plain p behind own key there] at read
    cases read

end Store

namespace Library

open Evaluation Operation

variable {services : Services} {m : Machine} {a : ObjectId} {n : Nat} {values : List Value}

/-! ## Running -/

/-- An array is there. -/
theorem present_of_isArray {s : Store} (array : (s.object a).kind.isArray = true) :
    a.index < s.objects.size := by
  refine Nat.lt_of_not_le fun past => ?_
  rw [s.object_of_size_le past] at array
  cases array

/-- One more element of an open array is written. -/
theorem set_end_run (call : Caller) (measured : (m.store.object a).Measured n true)
    (array : (m.store.object a).kind.isArray = true) (below : n < Object.maxLength)
    (extensible : (m.store.object a).extensible = true) (plain : m.store.InheritsNoIndex a)
    (value : Value) :
    (set call a (Text.decimal n) value (.object a)).run m =
      (.value true,
        { m with store := m.store.setObject a ((m.store.object a).pushed n value) }) := by
  have absent := measured.absent below
  have missing := plain.lookup (Object.arrayIndex?_decimal below) absent
  simp only [Operation.set, setOwn, run_bind, run_ask, andThen_value, missing, absent, run_define,
    Store.define, measured.define_end array below extensible value]

/-- An open array takes all values, one after another. -/
theorem pushEach_run (services : Services) (measured : (m.store.object a).Measured n true)
    (array : (m.store.object a).kind.isArray = true)
    (extensible : (m.store.object a).extensible = true) (plain : m.store.InheritsNoIndex a)
    (bound : n + values.length ≤ Object.maxLength) :
    ∃ o, (m.store.object a).Extended n values o ∧
      (pushEach services a n values).run m =
        (.value (n + values.length), { m with store := m.store.setObject a o }) := by
  induction values generalizing m n with
  | nil =>
    refine ⟨m.store.object a, .refl measured, ?_⟩
    rw [Store.setObject_object]
    rfl
  | cons value rest ih =>
    rw [List.length_cons] at bound
    have below : n < Object.maxLength := by omega
    have first := measured.extended_pushed below value
    let between : Machine :=
      { m with store := m.store.setObject a ((m.store.object a).pushed n value) }
    have object : between.store.object a = (m.store.object a).pushed n value := by
      rw [Store.object_setObject, if_pos ⟨rfl, present_of_isArray array⟩]
    obtain ⟨o, further, run⟩ := ih (m := between) (n := n + 1)
      (object ▸ first.measured) (by rw [object, first.shell.kind, array])
      (by rw [object, first.shell]; exact extensible)
      (plain.setObject first.shell.prototype) (by omega)
    rw [object] at further
    have counted : n + (value :: rest).length = n + 1 + rest.length := by
      rw [List.length_cons]
      omega
    refine ⟨o, first.trans further (by simp; omega), ?_⟩
    rw [pushEach, run_bind, set_end_run _ measured array below extensible plain, andThen_value,
      if_pos rfl, run, Store.setObject_setObject, counted]

theorem lengthOf_run {writable : Bool}
    (measured : (m.store.object a).Measured n writable) :
    (lengthOf services a).run m = (.value n, m) := by
  simp only [lengthOf, run_bind, getOwn_run services.call measured.length, andThen_value,
    toNumber_number, run_pure]
  change (Outcome.value (min Object.maxLength n), m) = _
  rw [Nat.min_eq_right measured.bound]

/-- The `length` is written again when all elements are there. -/
theorem set_length_run (call : Caller) (measured : (m.store.object a).Measured n true)
    (array : (m.store.object a).kind.isArray = true) :
    let rewritten := (m.store.object a).put "length" (.data (.ofNat n) true false false)
    (set call a "length" (.ofNat n) (.object a)).run m =
      (.value true, { m with store := m.store.setObject a rewritten }) := by
  intro rewritten
  simp only [Operation.set, setOwn, run_bind, run_ask, andThen_value, lookup_of_own measured.length,
    measured.length, run_define, Store.define, measured.define_length array, rewritten]

/-- An open array is extended by what is pushed. -/
theorem arrayPush_run (services : Services) (measured : (m.store.object a).Measured n true)
    (array : (m.store.object a).kind.isArray = true)
    (extensible : (m.store.object a).extensible = true) (plain : m.store.InheritsNoIndex a)
    (bound : n + values.length ≤ Object.maxLength) :
    ∃ o, (m.store.object a).Extended n values o ∧
      (arrayPush services (.object a) values).run m =
        (.value (.ofNat (n + values.length)), { m with store := m.store.setObject a o }) := by
  obtain ⟨o, extended, run⟩ := pushEach_run services measured array extensible plain bound
  let pushed : Machine := { m with store := m.store.setObject a o }
  have object : pushed.store.object a = o := by
    rw [Store.object_setObject, if_pos ⟨rfl, present_of_isArray array⟩]
  have rewrite := set_length_run (m := pushed) (a := a) services.call
    (object ▸ extended.measured) (by rw [object, extended.shell.kind, array])
  rw [object] at rewrite
  refine ⟨_, extended.rewritten, ?_⟩
  simp only [arrayPush, toObject, run_bind, run_pure, andThen_value, lengthOf_run measured, run,
    show (Operation.set services.call a "length" (.ofNat (n + values.length)) (.object a)).run
      pushed = _ from rewrite, pushed, Store.setObject_setObject, if_pos]

/-! ## Refusals -/

/-- A write that a definition refuses leaves everything as it was. -/
theorem set_run_refused (call : Caller) {key : String} {value : Value}
    (plain : ∀ getter setter enumerable configurable,
      m.store.lookup a key ≠ some (.accessor getter (some setter) enumerable configurable))
    (own : ∀ p, (m.store.object a).property? key = some p → p.writable = false)
    (refused : (m.store.object a).property? key = none →
      (m.store.object a).define key (.ofProperty (.plain value)) = (m.store.object a, false)) :
    (set call a key value (.object a)).run m = (.value false, m) := by
  have written : (setOwn a key value).run m = (.value false, m) := by
    simp only [setOwn, run_bind, run_ask, andThen_value]
    cases found : (m.store.object a).property? key with
    | none =>
      simp only [run_define, Store.define, refused found, Store.setObject_object]
    | some p =>
      have unwritable := own p found
      cases p with
      | data _ writable => cases unwritable; rfl
      | accessor => rfl
  simp only [Operation.set, run_bind, run_ask, andThen_value]
  split
  · rfl
  · rfl
  next found => exact absurd found (plain _ _ _ _)
  · exact written
  · exact written

/-- An array that does not take the first value is left as it is. -/
theorem arrayPush_refused {writable : Bool} (measured : (m.store.object a).Measured n writable)
    {value : Value} {rest : List Value}
    (refused : (set services.call a (Text.decimal n) value (.object a)).run m = (.value false, m)) :
    (arrayPush services (.object a) (value :: rest)).run m =
      (.raised (.error (.elementAddition n)), m) := by
  simp only [arrayPush, toObject, run_bind, run_pure, andThen_value, lengthOf_run measured,
    pushEach, refused]
  rfl

end Library

namespace Engine

open Library Evaluation

/-- `Array.prototype.push` on any array of a reachable engine, which has a length `n`.

An open array with a writable `length` that inherits no index, and has room for the values below
`2 ^ 32 - 1`, takes them: the outcome is the new length; the keys, the properties and the flags that
it had stay as they were, but for the `length`; the values are plain properties under the next
indices, in order; and nothing else changes.

An array that is frozen, or that is closed, or has a read-only `length`, takes no value, unless it
inherits a setter for its next index: the outcome is a TypeError, and nothing has changed. With a
`length` of `2 ^ 32 - 1` the next key is no index any more. Then a read-only `length` comes too late
to keep the value out, and a closed array must not have that key already. -/
theorem push_extends_or_refuses {e : Engine} (reachable : e.ReachableAnyhow) {m : Machine}
    (running : e.machine.store.Reaches m.store) {a : ObjectId}
    (array : (m.store.object a).kind.isArray = true) (services : Services) (values : List Value) :
    let before := m.store.object a
    let pushing := (Library.perform services .arrayPush (.object a) values).run m
    ∃ n writable, n ≤ 2 ^ 32 - 1 ∧
      before.property? "length" = some (.data (.ofNat n) writable false false) ∧
      (before.extensible = true → writable = true →
        (∀ p ∈ (m.store.ancestry a).tail, ∀ key ∈ (m.store.object p).keys,
          Object.arrayIndex? key = none) →
        n + values.length ≤ 2 ^ 32 - 1 →
        ∃ after : Object,
          pushing = (.value (.ofNat (n + values.length)),
            { m with store := m.store.setObject a after }) ∧
          after.kind = before.kind ∧ after.prototype = before.prototype ∧
          after.extensible = true ∧
          after.keys = before.keys ++ (List.range' n values.length).map Text.decimal ∧
          (∀ key ∈ before.keys, key ≠ "length" → after.property? key = before.property? key) ∧
          (∀ i value, values[i]? = some value →
            after.property? (Text.decimal (n + i)) = some (.data value true true true)) ∧
          after.property? "length" =
            some (.data (.ofNat (n + values.length)) true false false)) ∧
      (values ≠ [] →
        (Library.isFrozen before = true ∨
          before.extensible = false ∧
            (n < 2 ^ 32 - 1 ∨ before.property? (Text.decimal n) = none) ∨
          n < 2 ^ 32 - 1 ∧ writable = false) →
        (∀ getter setter enumerable configurable, m.store.lookup a (Text.decimal n) ≠
          some (.accessor getter (some setter) enumerable configurable)) →
        ∃ cause, cause.kind = .typeError ∧ pushing = (.raised (.error cause), m)) := by
  intro before pushing
  have wellFormed := (reachable.sound running).objects a
  obtain ⟨n, writable, measured⟩ := (Object.wellFormed_iff _).1 wellFormed array
  have number := Object.ofNat_of_le_maxLength measured.bound
  refine ⟨n, writable, measured.bound, number ▸ measured.length, ?_, ?_⟩
  · rintro extensible rfl plain bound
    obtain ⟨after, extended, run⟩ := arrayPush_run services measured array extensible
      (fun p mem _ => plain p mem) bound
    have shell := extended.shell
    refine ⟨after, run, shell.kind, shell.prototype, ?_, extended.keys, extended.old, extended.new,
      ?_⟩
    · rw [shell]
      exact extensible
    · rw [Object.ofNat_of_le_maxLength extended.measured.bound]
      exact extended.measured.length
  · intro some_ closed plain
    obtain ⟨value, rest, rfl⟩ := List.exists_cons_of_ne_nil some_
    refine ⟨.elementAddition n, rfl, arrayPush_refused measured (set_run_refused _ plain ?_ ?_)⟩
    · -- Nothing but a frozen array has a property under the key already.
      intro p found
      rcases closed with frozen | ⟨-, below | absent⟩ | ⟨below, -⟩
      · exact (((isFrozen_iff before).1 frozen).permanent _ p found).2
      · cases (measured.absent below).symm.trans found
      · cases absent.symm.trans found
      · cases (measured.absent below).symm.trans found
    · intro absent
      have other := Text.decimal_ne (show Text.readDecimal? "length" = none by decide) n
      rcases closed with frozen | ⟨closed, -⟩ | ⟨below, rfl⟩
      · have closed := ((isFrozen_iff before).1 frozen).closed
        exact Object.define_refused_of_closed closed absent other _
      · exact Object.define_refused_of_closed closed absent other _
      · exact measured.define_end_refused array below _

/-- Two values are pushed onto an empty array, which is closed then. -/
theorem push_extends_or_refuses_two :
    let m := (create { builtins := false }).machine
    let closed : Machine := { m with store := m.store.preventExtensions WellKnown.arrayPrototype }
    let push := fun values => Library.perform ⟨fun _ _ _ => exhaust, fun _ _ => exhaust⟩ .arrayPush
      (.object WellKnown.arrayPrototype) values
    (∃ after : Object, (push [.null, .undefined]).run m = (.value (.ofNat 2),
        { m with store := m.store.setObject WellKnown.arrayPrototype after }) ∧
      after.keys = ["length", "0", "1"]) ∧
    ∃ cause : Cause, cause.kind = .typeError ∧
      (push [.null]).run closed = (.raised (.error cause), closed) := by
  intro m closed push
  have plain : ∀ p ∈ (m.store.ancestry WellKnown.arrayPrototype).tail,
      ∀ key ∈ (m.store.object p).keys, Object.arrayIndex? key = none := by decide +kernel
  constructor
  · obtain ⟨n, writable, small, length, extends_, -⟩ := push_extends_or_refuses
      (.create { builtins := false }) (.refl m.store) (a := WellKnown.arrayPrototype) rfl
      ⟨fun _ _ _ => exhaust, fun _ _ => exhaust⟩ [.null, .undefined]
    rw [Object.ofNat_of_le_maxLength small] at length
    replace length : some (Property.data (.number (.integer 0)) true false false) = _ := length
    obtain ⟨rfl, rfl⟩ : n = 0 ∧ writable = true := by simpa [eq_comm] using length
    obtain ⟨after, run, -, -, -, keys, -⟩ := extends_ rfl rfl plain (by decide)
    exact ⟨after, run, keys⟩
  · obtain ⟨n, writable, small, length, -, refuses⟩ := push_extends_or_refuses
      (.create { builtins := false }) (m := closed)
      (Store.Step.preventExtensions m.store WellKnown.arrayPrototype).reaches
      (a := WellKnown.arrayPrototype) rfl ⟨fun _ _ _ => exhaust, fun _ _ => exhaust⟩ [.null]
    rw [Object.ofNat_of_le_maxLength small] at length
    replace length : some (Property.data (.number (.integer 0)) true false false) = _ := length
    obtain ⟨rfl, rfl⟩ : n = 0 ∧ writable = true := by simpa [eq_comm] using length
    exact refuses (List.cons_ne_nil _ _) (.inr (.inl ⟨rfl, .inl (by decide)⟩)) nofun

/-- Onto a full array with a read-only `length` the value is put under a key that is no index any
more, before the `length` is found to be read-only. -/
theorem push_onto_full_array :
    let e := create { builtins := false }
    let full : Descriptor := { value := some (.ofNat 4294967295), writable := some false }
    let array := WellKnown.arrayPrototype
    let m : Machine := { e.machine with store := (e.machine.store.define array "length" full).2 }
    let pushing := (Library.perform ⟨fun _ _ _ => exhaust, fun _ _ => exhaust⟩ .arrayPush
      (.object array) [.null]).run m
    e.ReachableAnyhow ∧ e.machine.store.Reaches m.store ∧
      (m.store.object array).kind.isArray = true ∧
      (m.store.object array).property? "length" =
        some (.data (.ofNat 4294967295) false false false) ∧
      (∀ p ∈ (m.store.ancestry array).tail, ∀ key ∈ (m.store.object p).keys,
        Object.arrayIndex? key = none) ∧
      (m.store.object array).keys = ["length"] ∧
      (pushing.2.store.object array).keys = ["length", "4294967295"] := by
  intro e full array m pushing
  exact ⟨.create _, (Store.Step.define e.machine.store array "length" full).reaches, rfl, rfl,
    by decide +kernel, by decide +kernel, by decide +kernel⟩

end Engine

end ScriptEngine
