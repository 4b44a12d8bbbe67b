import ScriptEngine.Machine.WellKnown
import ScriptEngine.Proofs.Store.Arrays
import ScriptEngine.Proofs.Store.Change

/-!
# Refused definitions and frozen objects

A definition that is refused leaves the object as it was, with one exception. Elements that a new
`length` excludes go before the definition of `length` is judged; if the definition is refused
after that, because one of its other parts or a permanent element is in the way, the elements that
went are not put back. Main result: `refused_define_eq_iff` says exactly when that happens.

An object is frozen if it can have no new properties and all that it has are permanent. Main
result: `Reaches.alike_of_frozen` says that evaluation leaves a frozen object as it is, with the
same keys in the same order, the same values or functions behind them, and the same flags.
-/
namespace ScriptEngine

namespace Object

/-! ## Refused definitions -/

/-- An array is longer than `n`, and the first element that this length excludes may be deleted. -/
def Cuttable (o : Object) (n : Nat) : Prop :=
  n < o.length ∧ ∃ first rest p, o.indicesFrom n = first :: rest ∧
    o.property? first = some p ∧ p.configurable = true

/-- A definition takes elements away before it is judged: it gives an array a `length` that the
array can be cut to. -/
structure Cuts (o : Object) (key : String) (d : Descriptor) : Prop where
  array : o.kind.isArray = true
  length : key = "length"
  shorter : ∃ value n, d.value = some value ∧ lengthOf? value = some n ∧ o.Cuttable n

section

variable {o : Object}

/-- An element that can be deleted is gone, whatever the elements after it are. -/
theorem truncate_ne_of_cuttable {n : Nat} (cuttable : o.Cuttable n) : (o.truncate n).1 ≠ o := by
  obtain ⟨shorter, first, rest, p, excluded, found, configurable⟩ := cuttable
  have present : first ∈ o.keys := (mem_keys_iff o first).2 ⟨p, found⟩
  have deleted : o.delete? first = some (o.without first) := by
    refine delete?_eq_some_iff.2 ⟨fun q there => ?_, rfl⟩
    rw [found] at there
    cases there
    exact configurable
  have truncated : (o.truncate n).1 = ((o.without first).deleteEach rest).1 := by
    unfold truncate
    rw [if_neg (Nat.not_le.2 shorter)]
    change (o.deleteEach (o.indicesFrom n)).1 = _
    rw [excluded]
    simp only [deleteEach, deleted]
  -- If nothing had changed, the first element would still be there after all deletions.
  intro eq
  rw [← eq, truncated] at present
  have kept := (mem_keys_deleteEach (o.without first) rest).1 first present
  exact ((mem_keys_without o first first).1 kept).1 rfl

/-- Where the first element is permanent nothing goes, and where there is none nothing has to. -/
theorem truncate_of_not_cuttable {n : Nat} (permanent : ¬ o.Cuttable n) : (o.truncate n).1 = o := by
  unfold truncate
  split
  · rfl
  next longer =>
    change (o.deleteEach (o.indicesFrom n)).1 = o
    cases excluded : o.indicesFrom n with
    | nil => rfl
    | cons first rest =>
      unfold deleteEach
      -- Truncation stops at the first element, because that one is permanent.
      split
      next deleted =>
        obtain ⟨configurable, -⟩ := delete?_eq_some_iff.1 deleted
        have present : first ∈ o.keys :=
          (mem_indicesFrom.1 (excluded ▸ List.mem_cons_self : first ∈ o.indicesFrom n)).1
        obtain ⟨p, found⟩ := (mem_keys_iff o first).1 present
        exact absurd ⟨Nat.not_le.1 longer, first, rest, p, excluded, found, configurable p found⟩
          permanent
      · rfl

private theorem eq_of_orRefused {outcome : Option Object}
    (refused : (o.orRefused outcome).2 = false) : (o.orRefused outcome).1 = o := by
  cases outcome with
  | none => rfl
  | some o' => cases refused

private theorem eq_of_defineElement {index : Nat} {key : String} {d : Descriptor}
    (refused : (o.defineElement index key d).2 = false) :
    (o.defineElement index key d).1 = o := by
  unfold defineElement at refused ⊢
  split at refused
  next past =>
    rw [if_pos past]
    split at refused
    next closed => rw [if_pos closed]
    next opened =>
      rw [if_neg opened]
      split at refused
      · cases refused
      · rfl
  next inside =>
    rw [if_neg inside]
    exact eq_of_orRefused refused

/-- A refused definition of `length` leaves the truncated array. -/
private theorem eq_of_defineLength {value : Value} {n : Nat} {d : Descriptor}
    (given : d.value = some value) (read : lengthOf? value = some n)
    (refused : (o.defineLength d).2 = false) : (o.defineLength d).1 = (o.truncate n).1 := by
  unfold defineLength at refused ⊢
  rw [given] at refused ⊢
  simp only [read] at refused ⊢
  split at refused
  next o' truncated =>
    rw [truncated]
    exact eq_of_orRefused refused
  next o' truncated => rw [truncated]

private theorem eq_of_defineLength_of_not_length {d : Descriptor}
    (uncut : ¬ ∃ value n, d.value = some value ∧ lengthOf? value = some n)
    (refused : (o.defineLength d).2 = false) : (o.defineLength d).1 = o := by
  unfold defineLength at refused ⊢
  split at refused
  · exact eq_of_orRefused refused
  next value given =>
    split at refused
    · rfl
    next n read => exact absurd ⟨value, n, given, read⟩ uncut

/-- A refused definition changes nothing, unless it is one of the `length` of an array that takes
elements away before it is judged. -/
theorem refused_define_eq_iff {key : String} {d : Descriptor}
    (refused : (o.define key d).2 = false) :
    (o.define key d).1 = o ↔ ¬ o.Cuts key d := by
  unfold define at refused ⊢
  split at refused
  next notArray =>
    -- Only arrays have a `length` that takes elements away.
    rw [if_pos notArray]
    refine iff_of_true (eq_of_orRefused refused) fun cuts => ?_
    rw [cuts.array] at notArray
    cases notArray
  next array =>
    rw [if_neg array]
    split at refused
    next isLength =>
      rw [if_pos isLength]
      have isArray : o.kind.isArray = true := by simpa using array
      -- Only a value that is a length brings the elements into it.
      by_cases cut : ∃ value n, d.value = some value ∧ lengthOf? value = some n
      · obtain ⟨value, n, given, read⟩ := cut
        rw [eq_of_defineLength given read refused]
        constructor
        · rintro unchanged ⟨-, -, value', n', given', read', cuttable⟩
          rw [given] at given'
          cases given'
          rw [read] at read'
          cases read'
          exact truncate_ne_of_cuttable cuttable unchanged
        -- Both ways: the array is unchanged just if truncation has left it alone.
        · intro spared
          refine truncate_of_not_cuttable fun cuttable => ?_
          exact spared ⟨isArray, isLength, value, n, given, read, cuttable⟩
      · refine iff_of_true (eq_of_defineLength_of_not_length cut refused) fun cuts => ?_
        obtain ⟨value, n, given, read, -⟩ := cuts.shorter
        exact cut ⟨value, n, given, read⟩
    next other =>
      rw [if_neg other]
      have spared : ¬ o.Cuts key d := fun cuts => other cuts.length
      split at refused
      · exact iff_of_true (eq_of_defineElement refused) spared
      · exact iff_of_true (eq_of_orRefused refused) spared

end

/-- An element of `[1, 2]` becomes permanent, so that the length zero is refused. If it is the first
one, nothing goes; if it is the second one, the first one has gone before that shows. -/
theorem refused_define_eq_iff_permanent :
    let list := array WellKnown.arrayPrototype [some (.ofNat 1), some (.ofNat 2)]
    let permanent : Descriptor := { configurable := some false }
    let empty : Descriptor := { value := some (.ofNat 0) }
    let first := (list.define "0" permanent).1
    let second := (list.define "1" permanent).1
    ((first.define "length" empty).2 = false ∧ ¬ first.Cuts "length" empty ∧
      (first.define "length" empty).1 = first) ∧
    (second.define "length" empty).2 = false ∧ second.Cuts "length" empty ∧
      (second.define "length" empty).1 ≠ second := by
  intro list permanent empty first second
  have zero : lengthOf? (.ofNat 0) = some 0 := by decide
  constructor
  · have refused : (first.define "length" empty).2 = false := by decide
    have excluded : first.indicesFrom 0 = ["0", "1"] := by decide
    have fixed : (first.property? "0").all (!·.configurable) = true := by decide
    have spared : ¬ first.Cuts "length" empty := by
      rintro ⟨-, -, value, n, given, read, -, head, rest, p, excluded', found, configurable⟩
      cases given
      rw [zero] at read
      cases read
      rw [excluded] at excluded'
      cases excluded'
      rw [found, Option.all_some, configurable] at fixed
      cases fixed
    exact ⟨refused, spared, (refused_define_eq_iff refused).2 spared⟩
  · have refused : (second.define "length" empty).2 = false := by decide
    have excluded : second.indicesFrom 0 = ["0", "1"] := by decide
    have found : second.property? "0" = some (.plain (.ofNat 1)) := rfl
    have cuttable : second.Cuttable 0 := ⟨by decide, "0", ["1"], _, excluded, found, rfl⟩
    have cuts : second.Cuts "length" empty := ⟨rfl, rfl, _, 0, rfl, zero, cuttable⟩
    exact ⟨refused, cuts, fun unchanged => (refused_define_eq_iff refused).1 unchanged cuts⟩

/-- The `length` of `[1]` cannot become configurable; asking for that and for the length zero at
once is refused, and removes the element. -/
theorem refused_define_ne :
    let o := array WellKnown.arrayPrototype [some (.ofNat 1)]
    let d : Descriptor := { value := some (.ofNat 0), configurable := some true }
    (o.define "length" d).2 = false ∧ (o.define "length" d).1 ≠ o := by
  intro o d
  refine ⟨by decide, fun eq => ?_⟩
  have before : o.keys = ["length", "0"] := by decide
  have after : (o.define "length" d).1.keys = ["length"] := by decide
  rw [eq, before] at after
  cases after

/-! ## Frozen objects -/

/-- Nothing about an object can change. -/
structure Frozen (o : Object) : Prop where
  closed : o.extensible = false
  permanent : ∀ key p, o.property? key = some p → p.Permanent

/-- Two objects agree in everything but the form that numbers among their values are kept in. -/
structure Alike (o o' : Object) : Prop where
  kind : o'.kind = o.kind
  prototype : o'.prototype = o.prototype
  extensible : o'.extensible = o.extensible
  keys : o'.keys = o.keys
  property : ∀ key p, o.property? key = some p → ∃ q, o'.property? key = some q ∧ p.Alike q

variable {o o' o'' : Object}

theorem Alike.refl (o : Object) : o.Alike o :=
  ⟨rfl, rfl, rfl, rfl, fun _ p found => ⟨p, found, .refl p⟩⟩

theorem Alike.trans (first : o.Alike o') (second : o'.Alike o'') : o.Alike o'' where
  kind := second.kind.trans first.kind
  prototype := second.prototype.trans first.prototype
  extensible := second.extensible.trans first.extensible
  keys := second.keys.trans first.keys
  property := by
    intro key p found
    obtain ⟨q, there, alike⟩ := first.property key p found
    obtain ⟨r, still, alike'⟩ := second.property key q there
    exact ⟨r, still, alike.trans alike'⟩

theorem Alike.frozen (alike : o.Alike o') (frozen : o.Frozen) : o'.Frozen where
  closed := alike.extensible.trans frozen.closed
  permanent := by
    intro key q there
    have present : key ∈ o.keys := alike.keys ▸ (mem_keys_iff o' key).2 ⟨q, there⟩
    obtain ⟨p, found⟩ := (mem_keys_iff o key).1 present
    obtain ⟨q', there', same⟩ := alike.property key p found
    rw [there] at there'
    cases there'
    exact same.permanent (frozen.permanent key p found)

/-- A property that is like the one in its place does not show. -/
theorem Alike.put {key : String} {p q : Property} (found : o.property? key = some p)
    (alike : p.Alike q) : o.Alike (o.put key q) where
  kind := rfl
  prototype := rfl
  extensible := rfl
  keys := keys_put_of_mem q ((mem_keys_iff o key).2 ⟨p, found⟩)
  property := by
    intro key' p' found'
    rw [property?_put]
    split
    next eq =>
      rw [eq, found] at found'
      cases found'
      exact ⟨q, rfl, alike⟩
    · exact ⟨p', found', .refl p'⟩

namespace Frozen

theorem defineOrdinary? (frozen : o.Frozen) {key : String} {d : Descriptor}
    (defined : o.defineOrdinary? key d = some o') : o.Alike o' := by
  obtain ⟨q, rfl, ⟨-, extensible, -⟩ | ⟨p, found, redefined⟩⟩ :=
    defineOrdinary?_eq_some_iff.1 defined
  -- A new property has no place in an object that is closed.
  · rw [frozen.closed] at extensible
    cases extensible
  · exact .put found (Property.redefine?_permanent (frozen.permanent key p found) redefined)

theorem orRefused (frozen : o.Frozen) (key : String) (d : Descriptor) :
    o.Alike (o.orRefused (o.defineOrdinary? key d)).1 := by
  cases defined : o.defineOrdinary? key d with
  | none => exact .refl o
  | some o' => exact frozen.defineOrdinary? defined

theorem truncate (frozen : o.Frozen) (n : Nat) : (o.truncate n).1 = o := by
  refine truncate_of_not_cuttable ?_
  rintro ⟨-, first, rest, p, -, found, configurable⟩
  rw [(frozen.permanent first p found).1] at configurable
  cases configurable

theorem defineLength (frozen : o.Frozen) (d : Descriptor) : o.Alike (o.defineLength d).1 := by
  unfold Object.defineLength
  split
  · exact frozen.orRefused "length" d
  split
  · exact .refl o
  next n _ =>
    -- The first excluded element is permanent, so truncation removes nothing.
    have unchanged := frozen.truncate n
    split
    next truncated =>
      rw [truncated] at unchanged
      cases unchanged
      exact frozen.orRefused "length" d
    next truncated =>
      rw [truncated] at unchanged
      cases unchanged
      exact .refl _

/-- The `length` of a frozen array is not writable, so the array cannot grow. -/
theorem defineElement (frozen : o.Frozen) (index : Nat) (key : String) (d : Descriptor) :
    o.Alike (o.defineElement index key d).1 := by
  have readOnly : (o.property? "length").any Property.writable = false := by
    rw [Option.any_eq_false]
    intro p found
    simp [(frozen.permanent "length" p found).2]
  unfold Object.defineElement
  rw [readOnly]
  split
  · exact .refl o
  · exact frozen.orRefused key d

theorem define (frozen : o.Frozen) (key : String) (d : Descriptor) :
    o.Alike (o.define key d).1 := by
  unfold Object.define
  split
  · exact frozen.orRefused key d
  split
  · exact frozen.defineLength d
  split
  · exact frozen.defineElement _ key d
  · exact frozen.orRefused key d

theorem delete? (frozen : o.Frozen) {key : String} (deleted : o.delete? key = some o') :
    o.Alike o' := by
  obtain ⟨configurable, rfl⟩ := delete?_eq_some_iff.1 deleted
  -- A deletion can only succeed on a key that is not there.
  have absent : key ∉ o.keys := by
    intro present
    obtain ⟨p, found⟩ := (mem_keys_iff o key).1 present
    have := configurable p found
    rw [(frozen.permanent key p found).1] at this
    cases this
  rw [without_of_not_mem absent]
  exact .refl o

/-- No change changes a frozen object. -/
theorem change (frozen : o.Frozen) (changed : o.Change o') : o.Alike o' := by
  cases changed with
  | same => exact .refl o
  | define key d => exact frozen.define key d
  | delete deleted => exact frozen.delete? deleted
  | preventExtensions =>
    exact ⟨rfl, rfl, frozen.closed.symm, rfl, fun _ p found => ⟨p, found, .refl p⟩⟩

end Frozen

end Object

/-- Evaluation leaves a frozen object as it is. -/
theorem Store.Reaches.alike_of_frozen {s t : Store} (reached : s.Reaches t) {id : ObjectId}
    (present : id.index < s.objects.size) (frozen : (s.object id).Frozen) :
    (s.object id).Alike (t.object id) := by
  refine reached.object_invariant (P := (s.object id).Alike) ?_ present (.refl _)
  -- The invariant is that the object is still like the first one, and so still frozen.
  intro o o' change alike
  exact alike.trans ((alike.frozen frozen).change change)

end ScriptEngine
