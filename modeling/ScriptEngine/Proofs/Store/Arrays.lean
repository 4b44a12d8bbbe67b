import ScriptEngine.Machine.Object
import ScriptEngine.Proofs.Store.Dictionary
import ScriptEngine.Proofs.Store.Redefinition

/-!
# The length of arrays

The `length` of an array stays above its indices whatever is done to the array. Main results:
`WellFormed` survives every definition (`wellFormed_define`), every deletion
(`wellFormed_delete?`), and what a host puts in place (`wellFormed_insert`), unless the host
replaces the `length` itself.

A definition of `length` is the delicate one: elements go first, up to one that may not be
deleted, and only then the definition is judged. Whatever is left then is still an array.
-/
namespace ScriptEngine.Object

/-! ### The views of an object after an elementary change -/

@[simp]
theorem property?_put (o : Object) (name : String) (p : Property) (key : String) :
    (o.put name p).property? key = if key = name then some p else o.property? key :=
  o.properties.find?_insert name p key

theorem mem_keys_put (o : Object) (name : String) (p : Property) (key : String) :
    key ∈ (o.put name p).keys ↔ key = name ∨ key ∈ o.keys :=
  o.properties.mem_keys_insert name p key

theorem keys_put_of_mem {o : Object} {name : String} (p : Property) (h : name ∈ o.keys) :
    (o.put name p).keys = o.keys := Dictionary.keys_insert_of_mem p h

theorem mem_keys_iff (o : Object) (key : String) :
    key ∈ o.keys ↔ ∃ p, o.property? key = some p := o.properties.mem_keys_iff key

/-- An object without a property. -/
def without (o : Object) (key : String) : Object :=
  { o with properties := o.properties.erase key }

theorem property?_without (o : Object) (name key : String) :
    (o.without name).property? key = if key = name then none else o.property? key :=
  o.properties.find?_erase name key

theorem mem_keys_without (o : Object) (name key : String) :
    key ∈ (o.without name).keys ↔ key ≠ name ∧ key ∈ o.keys :=
  o.properties.mem_keys_erase name key

theorem without_of_not_mem {o : Object} {key : String} (absent : key ∉ o.keys) :
    o.without key = o := by
  unfold without
  rw [Dictionary.erase_of_not_mem absent]

/-- A deletion succeeds unless the property is permanent, and takes the property away. -/
theorem delete?_eq_some_iff {o o' : Object} {key : String} :
    o.delete? key = some o' ↔
      (∀ p, o.property? key = some p → p.configurable = true) ∧ o' = o.without key := by
  unfold delete?
  cases found : o.property? key with
  | none =>
    -- Deleting what is not there succeeds, and leaves the object as it is.
    have absent : key ∉ o.keys := (o.properties.find?_eq_none_iff key).1 found
    simp only [reduceCtorEq, false_implies, implies_true, true_and, without_of_not_mem absent,
      Option.some.injEq, eq_comm]
  | some p =>
    cases configurable : p.configurable with
    | true => simp [configurable, without, eq_comm (a := o')]
    | false => simp [configurable]

/-- A definition that is allowed puts a property in place: a new one on an object that can have
new ones, or what it makes of the property that was there. -/
theorem defineOrdinary?_eq_some_iff {o o' : Object} {key : String} {d : Descriptor} :
    o.defineOrdinary? key d = some o' ↔
      ∃ p, o' = o.put key p ∧
        ((o.property? key = none ∧ o.extensible = true ∧ p = d.toProperty) ∨
          ∃ current, o.property? key = some current ∧ current.redefine? d = some p) := by
  unfold defineOrdinary?
  cases found : o.property? key with
  | none =>
    cases o.extensible with
    | true => simp [eq_comm (a := o')]
    | false => simp
  | some current =>
    simp only [Option.map_eq_some_iff, reduceCtorEq, false_and, false_or, Option.some.injEq,
      exists_eq_left', and_comm, eq_comm (a := o')]

/-! ### Arrays -/

/-- An object has a hidden and permanent `length`, which is above all of its indices. -/
structure Measured (o : Object) (n : Nat) (writable : Bool) : Prop where
  bound : n ≤ maxLength
  length : o.property? "length" = some (.data (.number (.integer n)) writable false false)
  above : ∀ key ∈ o.keys, ∀ index, arrayIndex? key = some index → index < n

theorem wellFormed_iff (o : Object) :
    o.WellFormed ↔ (o.kind.isArray = true → ∃ n writable, o.Measured n writable) := by
  constructor
  · intro wellFormed array
    obtain ⟨n, writable, bound, length, above⟩ := wellFormed array
    exact ⟨n, writable, bound, length, above⟩
  · intro measured array
    obtain ⟨n, writable, bound, length, above⟩ := measured array
    exact ⟨n, writable, bound, length, above⟩

/-- The `length` may be replaced by any one that is above all indices. -/
theorem measured_putLength {o : Object} {n : Nat} (writable : Bool)
    (there : "length" ∈ o.keys) (bound : n ≤ maxLength)
    (above : ∀ key ∈ o.keys, ∀ index, arrayIndex? key = some index → index < n) :
    (o.put "length" (.data (.number (.integer n)) writable false false)).Measured n writable where
  bound := bound
  length := by rw [property?_put, if_pos rfl]
  above := by
    intro key mem index eq
    rw [keys_put_of_mem _ there] at mem
    exact above key mem index eq

theorem measured_withLength {o : Object} {value : Value} {n : Nat} {writable : Bool}
    (length : o.property? "length" = some (.data value writable false false))
    (bound : n ≤ maxLength)
    (above : ∀ key ∈ o.keys, ∀ index, arrayIndex? key = some index → index < n) :
    (o.withLength n).Measured n writable := by
  unfold Object.withLength
  simp only [length]
  rw [ofNat_of_le_maxLength bound]
  exact measured_putLength writable ((mem_keys_iff o "length").2 ⟨_, length⟩) bound above

theorem arrayIndex?_length : arrayIndex? "length" = none := by decide

theorem arrayIndex?_lt {key : String} {index : Nat} (h : arrayIndex? key = some index) :
    index < maxLength := by
  unfold arrayIndex? at h
  rw [Option.filter_eq_some_iff] at h
  exact of_decide_eq_true h.2

theorem ne_length_of_arrayIndex? {key : String} {index : Nat} (h : arrayIndex? key = some index) :
    key ≠ "length" := by
  rintro rfl
  rw [arrayIndex?_length] at h
  cases h

theorem eq_of_lengthOf? {value : Value} {n : Nat} (h : lengthOf? value = some n) :
    value = .number (.integer n) ∧ n ≤ maxLength := by
  unfold lengthOf? at h
  split at h
  next m =>
    split at h
    next range =>
      cases h
      exact ⟨by rw [Int.toNat_of_nonneg range.1], by omega⟩
    · cases h
  · cases h

namespace Measured

variable {o : Object} {n : Nat} {writable : Bool}

theorem length_eq (m : o.Measured n writable) : o.length = n := by
  have bound : n ≤ 4294967295 := m.bound
  unfold Object.length
  simp only [m.length]
  omega

/-- Another property may be put in place as long as it is not an index past the end. -/
theorem put (m : o.Measured n writable) {key : String} (p : Property) (other : key ≠ "length")
    (below : ∀ index, arrayIndex? key = some index → index < n) :
    (o.put key p).Measured n writable where
  bound := m.bound
  length := by rw [property?_put, if_neg other.symm, m.length]
  above := by
    intro k mem index eq
    -- The new key is below by assumption, the others were below before.
    rcases (mem_keys_put o key p k).1 mem with rfl | mem
    · exact below index eq
    · exact m.above k mem index eq

theorem without (m : o.Measured n writable) {key : String} (other : key ≠ "length") :
    (o.without key).Measured n writable where
  bound := m.bound
  length := by rw [property?_without, if_neg other.symm, m.length]
  above := fun k mem => m.above k ((mem_keys_without o key k).1 mem).2

/-- The `length` of an array cannot be deleted, and another property does not matter to it. -/
theorem delete? (m : o.Measured n writable) {o' : Object} {key : String}
    (deleted : o.delete? key = some o') : o'.Measured n writable := by
  obtain ⟨configurable, rfl⟩ := delete?_eq_some_iff.1 deleted
  refine m.without ?_
  rintro rfl
  cases configurable _ m.length

theorem deleteEach (m : o.Measured n writable) (keys : List String) :
    (o.deleteEach keys).1.Measured n writable := by
  induction keys generalizing o with
  | nil => exact m
  | cons key rest ih =>
    unfold Object.deleteEach
    split
    next deleted => exact ih (m.delete? deleted)
    · exact m

end Measured

/-! ### Truncation -/

/-- The names of the elements from an index on, in the order of the keys. -/
def indicesFrom (o : Object) (n : Nat) : List String :=
  o.keys.filter fun key => (arrayIndex? key).any (n ≤ ·)

theorem mem_indicesFrom {o : Object} {n : Nat} {key : String} :
    key ∈ o.indicesFrom n ↔ key ∈ o.keys ∧ ∃ index, arrayIndex? key = some index ∧ n ≤ index := by
  simp [indicesFrom, Option.any_eq_true]

/-- A deletion of several properties only takes keys away, all of them if it succeeds. -/
theorem mem_keys_deleteEach (o : Object) (names : List String) :
    (∀ key ∈ (o.deleteEach names).1.keys, key ∈ o.keys) ∧
      ((o.deleteEach names).2 = true → ∀ key ∈ names, key ∉ (o.deleteEach names).1.keys) := by
  induction names generalizing o with
  | nil => exact ⟨fun _ mem => mem, fun _ _ mem => by cases mem⟩
  | cons name rest ih =>
    unfold deleteEach
    split
    next o' deleted =>
      obtain ⟨-, rfl⟩ := delete?_eq_some_iff.1 deleted
      obtain ⟨subset, gone⟩ := ih (o.without name)
      refine ⟨fun key mem => ((mem_keys_without o name key).1 (subset key mem)).2, ?_⟩
      intro success key mem present
      -- Later deletions take more keys away, so the first one does not come back.
      rcases List.mem_cons.1 mem with rfl | mem
      · exact ((mem_keys_without o key key).1 (subset key present)).1 rfl
      · exact gone success key mem present
    -- A deletion that fails ends the series, and the series has failed.
    · exact ⟨fun _ mem => mem, by rintro ⟨⟩⟩

/-- A truncated array is an array, and below the new end if nothing was in the way. -/
theorem Measured.truncate {o : Object} {n : Nat} {writable : Bool} (m : o.Measured n writable)
    (n' : Nat) :
    (o.truncate n').1.Measured n writable ∧
      ((o.truncate n').2 = true →
        ∀ key ∈ (o.truncate n').1.keys, ∀ index, arrayIndex? key = some index → index < n') := by
  unfold Object.truncate
  rw [m.length_eq]
  split
  next longer =>
    exact ⟨m, fun _ key mem index eq => Nat.lt_of_lt_of_le (m.above key mem index eq) longer⟩
  · refine ⟨m.deleteEach _, fun success key mem index eq => ?_⟩
    obtain ⟨subset, gone⟩ := mem_keys_deleteEach o (o.indicesFrom n')
    -- An index that is not below the new end is one of those that were deleted.
    by_cases below : index < n'
    · exact below
    · have doomed : key ∈ o.indicesFrom n' :=
        mem_indicesFrom.2 ⟨subset key mem, index, eq, by omega⟩
      exact absurd mem (gone success key doomed)

/-! ### Definitions -/

namespace Measured

variable {o : Object} {n : Nat} {writable : Bool}

/-- Whatever a definition of `length` makes of it is a `length` again, with the value that the
definition gives, if it gives one. -/
theorem defineOrdinary?_length (m : o.Measured n writable) {o' : Object} {d : Descriptor} {n' : Nat}
    (given : d.value.getD (.number (.integer n)) = .number (.integer n')) (bound : n' ≤ maxLength)
    (above : ∀ key ∈ o.keys, ∀ index, arrayIndex? key = some index → index < n')
    (defined : o.defineOrdinary? "length" d = some o') : ∃ writable', o'.Measured n' writable' := by
  obtain ⟨p, rfl, ⟨absent, -⟩ | ⟨current, found, redefined⟩⟩ :=
    defineOrdinary?_eq_some_iff.1 defined
  -- The `length` is there, so it is redefined; a permanent value stays a permanent value.
  · rw [m.length] at absent
    cases absent
  · rw [m.length] at found
    cases found
    obtain ⟨writable', rfl, -⟩ := Property.redefine?_data redefined
    rw [given]
    have there : "length" ∈ o.keys := (mem_keys_iff o "length").2 ⟨_, m.length⟩
    exact ⟨writable', measured_putLength writable' there bound above⟩

/-- A definition of `length` leaves an array. If it is not refused, the `length` is the one that it
gives, if it gives one. -/
theorem defineLength (m : o.Measured n writable) (d : Descriptor) :
    ∃ n' writable', (o.defineLength d).1.Measured n' writable' ∧
      ((o.defineLength d).2 = true → ∀ value ∈ d.value, lengthOf? value = some n') := by
  unfold Object.defineLength
  split
  next valueless =>
    rw [valueless]
    cases defined : o.defineOrdinary? "length" d with
    | none => exact ⟨n, writable, m, nofun⟩
    | some o' =>
      obtain ⟨writable', m'⟩ :=
        m.defineOrdinary?_length (by rw [valueless]; rfl) m.bound m.above defined
      exact ⟨n, writable', m', nofun⟩
  next value given =>
    split
    · exact ⟨n, writable, m, nofun⟩
    next n' read =>
      have reads : ∀ v ∈ d.value, lengthOf? v = some n' := by
        rw [given]
        rintro _ ⟨⟩
        exact read
      obtain ⟨rfl, bound⟩ := eq_of_lengthOf? read
      -- Truncation comes first; what it leaves is an array whether or not it went through.
      obtain ⟨shorter, above⟩ := m.truncate n'
      split
      next o' truncated =>
        -- Only if every excluded element went may the `length` really become `n'`.
        rw [truncated] at shorter above
        cases defined : o'.defineOrdinary? "length" d with
        | none => exact ⟨n, writable, shorter, nofun⟩
        | some o'' =>
          obtain ⟨writable', m'⟩ :=
            shorter.defineOrdinary?_length (by rw [given]; rfl) bound (above rfl) defined
          exact ⟨n', writable', m', fun _ => reads⟩
      next o' truncated =>
        rw [truncated] at shorter
        exact ⟨n, writable, shorter, nofun⟩

/-- A definition of another property, unless it is an index past the end. -/
theorem defineOrdinary? (m : o.Measured n writable) {o' : Object} {key : String} {d : Descriptor}
    (other : key ≠ "length") (below : ∀ index, arrayIndex? key = some index → index < n)
    (defined : o.defineOrdinary? key d = some o') : o'.Measured n writable := by
  obtain ⟨p, rfl, -⟩ := defineOrdinary?_eq_some_iff.1 defined
  exact m.put p other below

/-- An index past the end may be put in place when the `length` rises with it. -/
theorem put_withLength (m : o.Measured n writable) {index : Nat} {key : String} (p : Property)
    (read : arrayIndex? key = some index) (past : n ≤ index) :
    ((o.put key p).withLength (index + 1)).Measured (index + 1) writable := by
  have length : (o.put key p).property? "length" =
      some (.data (.number (.integer n)) writable false false) := by
    rw [property?_put, if_neg (ne_length_of_arrayIndex? read).symm, m.length]
  refine measured_withLength length (arrayIndex?_lt read) fun k mem index' eq => ?_
  -- The new index is just below the new `length`, and the old ones are below the old one.
  rcases (mem_keys_put o key p k).1 mem with rfl | mem
  · rw [read] at eq
    cases eq
    omega
  · have := m.above k mem index' eq
    omega

theorem withLength_put (m : o.Measured n writable) {index : Nat} {key : String} (p : Property)
    (read : arrayIndex? key = some index) (past : n ≤ index) :
    ((o.withLength (index + 1)).put key p).Measured (index + 1) writable := by
  have longer : (o.withLength (index + 1)).Measured (index + 1) writable := by
    refine measured_withLength m.length (arrayIndex?_lt read) fun k mem index' eq => ?_
    have := m.above k mem index' eq
    omega
  refine longer.put p (ne_length_of_arrayIndex? read) fun index' eq => ?_
  rw [read] at eq
  cases eq
  omega

theorem defineElement (m : o.Measured n writable) {index : Nat} {key : String} (d : Descriptor)
    (read : arrayIndex? key = some index) :
    ∃ n' writable', (o.defineElement index key d).1.Measured n' writable' := by
  unfold Object.defineElement
  rw [m.length_eq]
  split
  next past =>
    split
    · exact ⟨n, writable, m⟩
    · split
      next o' defined =>
        obtain ⟨p, rfl, -⟩ := defineOrdinary?_eq_some_iff.1 defined
        exact ⟨index + 1, writable, m.put_withLength p read past⟩
      · exact ⟨n, writable, m⟩
  next inside =>
    cases defined : o.defineOrdinary? key d with
    | none => exact ⟨n, writable, m⟩
    | some o' =>
      refine ⟨n, writable,
        m.defineOrdinary? (ne_length_of_arrayIndex? read) (fun index' eq => ?_) defined⟩
      rw [read] at eq
      cases eq
      omega

end Measured

/-! ### All objects -/

/-- What putting the properties in place that a definition makes does not change, nor deleting
properties, nor counting elements in a `length`. -/
structure KeptByDefinition (d : Descriptor) (P : Object → Prop) : Prop where
  put : ∀ {o : Object} {key : String} {p : Property}, P o →
    (p = d.toProperty ∨
      ∃ current, o.property? key = some current ∧ current.redefine? d = some p) → P (o.put key p)
  count : ∀ {o : Object} (n : Nat), P o → P (o.withLength n)
  delete : ∀ {o o' : Object} {key : String}, P o → o.delete? key = some o' → P o'

namespace KeptByDefinition

variable {d : Descriptor} {P : Object → Prop} (keeps : KeptByDefinition d P) {o : Object}

include keeps

theorem deleteEach (holds : P o) (names : List String) : P (o.deleteEach names).1 := by
  induction names generalizing o with
  | nil => exact holds
  | cons name rest ih =>
    unfold Object.deleteEach
    split
    next deleted => exact ih (keeps.delete holds deleted)
    · exact holds

theorem truncate (holds : P o) (n : Nat) : P (o.truncate n).1 := by
  unfold Object.truncate
  split
  · exact holds
  · exact keeps.deleteEach holds _

theorem defineOrdinary? (holds : P o) {o' : Object} {key : String}
    (defined : o.defineOrdinary? key d = some o') : P o' := by
  obtain ⟨p, rfl, ⟨-, -, new⟩ | changed⟩ := defineOrdinary?_eq_some_iff.1 defined
  · exact keeps.put holds (.inl new)
  · exact keeps.put holds (.inr changed)

theorem orRefused (holds : P o) (key : String) : P (o.orRefused (o.defineOrdinary? key d)).1 := by
  cases defined : o.defineOrdinary? key d with
  | none => exact holds
  | some o' => exact keeps.defineOrdinary? holds defined

theorem defineLength (holds : P o) : P (o.defineLength d).1 := by
  unfold Object.defineLength
  split
  · exact keeps.orRefused holds _
  split
  · exact holds
  next n _ =>
    have shorter := keeps.truncate holds n
    split
    next truncated =>
      rw [truncated] at shorter
      exact keeps.orRefused shorter _
    next truncated =>
      rw [truncated] at shorter
      exact shorter

theorem defineElement (holds : P o) (index : Nat) (key : String) :
    P (o.defineElement index key d).1 := by
  unfold Object.defineElement
  split
  · split
    · exact holds
    · split
      next defined => exact keeps.count _ (keeps.defineOrdinary? holds defined)
      · exact holds
  · exact keeps.orRefused holds key

/-- Whatever the definition does, it is made of these changes. -/
theorem define (holds : P o) (key : String) : P (o.define key d).1 := by
  unfold Object.define
  split
  · exact keeps.orRefused holds key
  split
  · exact keeps.defineLength holds
  split
  · exact keeps.defineElement holds _ key
  · exact keeps.orRefused holds key

end KeptByDefinition

/-- Everything about two objects but their properties agrees. -/
def SameShell (o o' : Object) : Prop := o' = { o with properties := o'.properties }

namespace SameShell

variable {o o' o'' : Object}

theorem refl (o : Object) : o.SameShell o := by rfl

theorem trans (first : o.SameShell o') (second : o'.SameShell o'') : o.SameShell o'' := by
  unfold SameShell at *
  rw [second, first]

theorem put (o : Object) (key : String) (p : Property) : o.SameShell (o.put key p) := by rfl

theorem kind (same : o.SameShell o') : o'.kind = o.kind := by rw [same]

theorem prototype (same : o.SameShell o') : o'.prototype = o.prototype := by rw [same]

theorem withLength (o : Object) (n : Nat) : o.SameShell (o.withLength n) := by
  unfold Object.withLength
  split
  · exact put o _ _
  · exact refl o

theorem delete? {key : String} (deleted : o.delete? key = some o') : o.SameShell o' := by
  obtain ⟨-, rfl⟩ := delete?_eq_some_iff.1 deleted
  rfl

/-- A definition changes nothing but the properties of an object. -/
theorem define (o : Object) (key : String) (d : Descriptor) : o.SameShell (o.define key d).1 := by
  have keeps : KeptByDefinition d o.SameShell :=
    { put := fun same _ => same.trans (put _ _ _)
      count := fun n same => same.trans (withLength _ n)
      delete := fun same deleted => same.trans (delete? deleted) }
  exact keeps.define (refl o) key

theorem insert (o : Object) (key : String) (p : Property) : o.SameShell (o.insert key p) := by
  unfold Object.insert
  split
  · split
    · exact (withLength o _).trans (put _ _ _)
    · exact put o _ _
  · exact put o _ _

end SameShell

theorem wellFormed_of_sameShell {o o' : Object} (same : o.SameShell o')
    (measured : o.kind.isArray = true → ∃ n writable, o'.Measured n writable) : o'.WellFormed :=
  (wellFormed_iff o').2 fun array => measured (same.kind ▸ array)

theorem Measured.define {o : Object} {n : Nat} {writable : Bool} (m : o.Measured n writable)
    (array : o.kind.isArray = true) (key : String) (d : Descriptor) :
    ∃ n' writable', (o.define key d).1.Measured n' writable' := by
  unfold Object.define
  rw [array]
  simp only [Bool.not_true, Bool.false_eq_true, if_false]
  split
  · obtain ⟨n', writable', m', -⟩ := m.defineLength d
    exact ⟨n', writable', m'⟩
  next other =>
    split
    next read => exact m.defineElement d read
    next notIndex =>
      cases defined : o.defineOrdinary? key d with
      | none => exact ⟨n, writable, m⟩
      | some o' =>
        refine ⟨n, writable, m.defineOrdinary? other (fun index eq => ?_) defined⟩
        rw [notIndex] at eq
        cases eq

theorem wellFormed_define {o : Object} (h : o.WellFormed) (key : String) (d : Descriptor) :
    (o.define key d).1.WellFormed :=
  wellFormed_of_sameShell (.define o key d) fun array =>
    let ⟨_, _, m⟩ := (wellFormed_iff o).1 h array
    m.define array key d

theorem wellFormed_delete? {o o' : Object} (h : o.WellFormed) {key : String}
    (deleted : o.delete? key = some o') : o'.WellFormed :=
  wellFormed_of_sameShell (.delete? deleted) fun array =>
    let ⟨n, writable, m⟩ := (wellFormed_iff o).1 h array
    ⟨n, writable, m.delete? deleted⟩

/-- A host may put any property in place but the `length` of an array. -/
theorem wellFormed_insert {o : Object} (h : o.WellFormed) {key : String} (p : Property)
    (allowed : key ≠ "length" ∨ o.kind.isArray = false) : (o.insert key p).WellFormed := by
  refine wellFormed_of_sameShell (.insert o key p) fun array => ?_
  have other : key ≠ "length" := by
    rcases allowed with other | notArray
    · exact other
    · rw [array] at notArray
      cases notArray
  obtain ⟨n, writable, m⟩ := (wellFormed_iff o).1 h array
  -- Here the `length` rises before the element is put in place, other than in a definition.
  unfold Object.insert
  rw [array, m.length_eq]
  split
  next index read =>
    split
    next past =>
      exact ⟨index + 1, writable, m.withLength_put p read (by simpa using past)⟩
    next inside =>
      refine ⟨n, writable, m.put p other fun index' eq => ?_⟩
      rw [read] at eq
      cases eq
      simpa using inside
  next notIndex =>
    refine ⟨n, writable, m.put p other fun index eq => ?_⟩
    rw [notIndex] at eq
    cases eq

end ScriptEngine.Object
