import ScriptEngine.Proofs.Store.Validation

/-!
# What a write does to an object

A write that finds no read-only property and no setter in its way defines a property: it gives an
own one another value, or makes a plain one (`Writes`). Main result: where the definition succeeds,
the property has the value, and the other ones are as they were, except that arrays keep their
`length` above their indices in both directions (`written_of_define`).
-/
namespace ScriptEngine.Object

/-! ### Removing several properties -/

/-- A series of deletions that goes through removes the names and keeps the rest. -/
theorem property?_deleteEach {o o' : Object} {names : List String}
    (deleted : o.deleteEach names = (o', true)) (key : String) :
    o'.property? key = if key ∈ names then none else o.property? key := by
  induction names generalizing o with
  | nil =>
    obtain rfl : o = o' := congrArg Prod.fst deleted
    simp
  | cons name rest ih =>
    unfold deleteEach at deleted
    split at deleted
    next shorter gone =>
      obtain ⟨-, rfl⟩ := delete?_eq_some_iff.1 gone
      rw [ih deleted, property?_without]
      by_cases first : key = name <;> simp [first]
    · cases deleted

/-- An array that could be shortened has lost the elements from the new end on. -/
theorem property?_truncate {o o' : Object} {n length : Nat} {writable : Bool}
    (m : o.Measured length writable) (truncated : o.truncate n = (o', true)) (key : String) :
    o'.property? key =
      if (arrayIndex? key).any (n ≤ ·) then none else o.property? key := by
  unfold truncate at truncated
  rw [m.length_eq] at truncated
  split at truncated
  next short =>
    obtain rfl : o = o' := congrArg Prod.fst truncated
    split
    -- There was nothing from the new end on.
    next past =>
      obtain ⟨index, read, after⟩ := (Option.any_eq_true _ _).1 past
      refine (o.properties.find?_eq_none_iff key).2 fun there => ?_
      have below := m.above key there index read
      have after := of_decide_eq_true after
      omega
    · rfl
  next long =>
    rw [property?_deleteEach truncated]
    by_cases there : key ∈ o.keys
    · simp [there]
    · have absent : o.property? key = none := (o.properties.find?_eq_none_iff key).2 there
      simp [there, absent]

/-! ### Writing -/

/-- The definition that a write asks for, and the property that it is to leave. -/
inductive Writes (o : Object) (key : String) (value : Value) : Descriptor → Property → Prop where
  | again {old : Value} {enumerable configurable : Bool}
    (own : o.property? key = some (.data old true enumerable configurable)) :
    Writes o key value (.ofValue value) (.data value true enumerable configurable)
  | new (absent : o.property? key = none) :
    Writes o key value (.ofProperty (.plain value)) (.plain value)

/-- What a write leaves of an object: the property with the value, and of the others all but what
the `length` of an array rules out. -/
structure Written (o : Object) (key : String) (value : Value) (o' : Object) : Prop where
  here : ∃ enumerable configurable, o'.property? key = some (.data value true enumerable configurable)
  shell : o.SameShell o'
  /-- Without the rules of arrays no other property changes. -/
  ordinary : o.kind.isArray = false → ∀ other, other ≠ key → o'.property? other = o.property? other
  /-- The `length` of an array rises to what an element past the end needs. -/
  element : o.kind.isArray = true → ∀ index, arrayIndex? key = some index →
    ∀ other, other ≠ key → o'.property? other =
      if other = "length" ∧ o.length ≤ index then
        (o.property? "length").map fun p =>
          .data (.number (.integer (index + 1 : Nat))) p.writable p.enumerable p.configurable
      else o.property? other
  /-- A new `length` of an array removes the elements from there on. -/
  length : o.kind.isArray = true → key = "length" →
    ∃ n : Nat, value = .number (.integer n) ∧ ∀ other, other ≠ key → o'.property? other =
      if (arrayIndex? other).any (n ≤ ·) then none else o.property? other
  named : o.kind.isArray = true → key ≠ "length" → arrayIndex? key = none →
    ∀ other, other ≠ key → o'.property? other = o.property? other

namespace Writes

variable {o o' : Object} {key : String} {value : Value} {d : Descriptor} {p : Property}

theorem value_eq (writes : o.Writes key value d p) : d.value = some value := by
  cases writes <;> rfl

theorem defineOrdinary? (writes : o.Writes key value d p)
    (defined : o.defineOrdinary? key d = some o') : o' = o.put key p := by
  obtain ⟨q, rfl, ⟨absent, -, rfl⟩ | ⟨current, found, redefined⟩⟩ :=
    defineOrdinary?_eq_some_iff.1 defined
  · cases writes with
    | again own =>
      rw [own] at absent
      cases absent
    | new => rfl
  · cases writes with
    | again own =>
      rw [own] at found
      cases found
      have plain : (Descriptor.ofValue value).Plain := by
        simp [Descriptor.Plain, Descriptor.isAccessor, Descriptor.ofValue]
      rw [(Property.redefine?_validated plain).2 q redefined]
      rfl
    | new absent =>
      rw [absent] at found
      cases found

theorem here (writes : o.Writes key value d p) :
    ∃ enumerable configurable, p = .data value true enumerable configurable := by
  cases writes
  · exact ⟨_, _, rfl⟩
  · exact ⟨_, _, rfl⟩

end Writes

/-- A property that is put in place leaves the others as they were. -/
private theorem property?_put_of_ne (o : Object) {key other : String} (p : Property)
    (ne : other ≠ key) : (o.put key p).property? other = o.property? other := by
  rw [property?_put, if_neg ne]

theorem eq_of_orRefused_true {o o' : Object} {outcome : Option Object}
    (defined : o.orRefused outcome = (o', true)) : outcome = some o' := by
  cases outcome with
  | none => cases defined
  | some o'' => exact congrArg some (congrArg Prod.fst defined)

section

variable {o o' : Object} {key : String} {value : Value} {d : Descriptor} {p : Property}

/-- A new `length` of an array. -/
private theorem defineLength_writes {n : Nat} {writable : Bool} (m : o.Measured n writable)
    (writes : o.Writes "length" value d p) (defined : o.defineLength d = (o', true)) :
    o'.property? "length" = some (.data value true false false) ∧
      ∃ n' : Nat, value = .number (.integer n') ∧ ∀ other, other ≠ "length" → o'.property? other =
        if (arrayIndex? other).any (n' ≤ ·) then none else o.property? other := by
  cases writes with
  | new absent =>
    rw [m.length] at absent
    cases absent
  | again own =>
    have flags := own
    rw [m.length] at flags
    cases flags
    simp only [defineLength, Descriptor.ofValue] at defined
    split at defined
    · cases defined
    next n' read =>
      obtain ⟨rfl, bound⟩ := eq_of_lengthOf? read
      split at defined
      next shorter truncated =>
        have m' := (m.truncate n').1
        rw [truncated] at m'
        have again : shorter.Writes "length" (.number (.integer n')) (.ofValue _) _ :=
          .again m'.length
        obtain rfl := again.defineOrdinary? (eq_of_orRefused_true defined)
        refine ⟨by simp, n', rfl, fun other ne => ?_⟩
        rw [property?_put_of_ne _ _ ne, property?_truncate m truncated]
      · cases defined

/-- An element of an array. -/
private theorem defineElement_writes {n index : Nat} {writable : Bool} (m : o.Measured n writable)
    (read : arrayIndex? key = some index) (writes : o.Writes key value d p)
    (defined : o.defineElement index key d = (o', true)) :
    o'.property? key = some p ∧ ∀ other, other ≠ key → o'.property? other =
      if other = "length" ∧ o.length ≤ index then
        (o.property? "length").map fun p =>
          .data (.number (.integer (index + 1 : Nat))) p.writable p.enumerable p.configurable
      else o.property? other := by
  have notLength : key ≠ "length" := ne_length_of_arrayIndex? read
  unfold defineElement at defined
  split at defined
  next past =>
    split at defined
    · cases defined
    split at defined
    next longer put =>
      obtain rfl := writes.defineOrdinary? put
      have length : (o.put key p).property? "length" =
          some (.data (.number (.integer n)) writable false false) := by
        rw [property?_put_of_ne _ _ notLength.symm, m.length]
      -- The `length` is put in place after the element.
      obtain rfl : (o.put key p).withLength (index + 1) = o' := congrArg Prod.fst defined
      simp only [withLength, length, ofNat_of_le_maxLength (arrayIndex?_lt read)]
      refine ⟨by rw [property?_put_of_ne _ _ notLength, property?_put, if_pos rfl],
        fun other ne => ?_⟩
      rw [property?_put]
      by_cases counted : other = "length"
      · simp [counted, past, m.length, Property.writable, Property.enumerable,
          Property.configurable]
      · simp [counted, ne]
    · cases defined
  next inside =>
    obtain rfl := writes.defineOrdinary? (eq_of_orRefused_true defined)
    refine ⟨by simp, fun other ne => ?_⟩
    rw [if_neg fun raised => inside raised.2, property?_put_of_ne _ _ ne]

/-- Where the definition that a write asks for succeeds, the object has been written. -/
theorem written_of_define (wellFormed : o.WellFormed) (writes : o.Writes key value d p)
    (defined : o.define key d = (o', true)) : o.Written key value o' := by
  have shell : o.SameShell o' := by
    have shell := SameShell.define o key d
    rwa [defined] at shell
  have ordinary : o.defineOrdinary? key d = some o' → (∃ enumerable configurable,
      o'.property? key = some (.data value true enumerable configurable)) ∧
        ∀ other, other ≠ key → o'.property? other = o.property? other := by
    intro put
    obtain rfl := writes.defineOrdinary? put
    obtain ⟨enumerable, configurable, rfl⟩ := writes.here
    exact ⟨⟨enumerable, configurable, by simp⟩, fun other ne => property?_put_of_ne _ _ ne⟩
  unfold define at defined
  split at defined
  next notArray =>
    have notArray : o.kind.isArray = false := by simpa using notArray
    obtain ⟨here, others⟩ := ordinary (eq_of_orRefused_true defined)
    exact ⟨here, shell, fun _ => others, by simp [notArray], by simp [notArray],
      by simp [notArray]⟩
  next array =>
    have array : o.kind.isArray = true := by simpa using array
    obtain ⟨n, writable, m⟩ := (wellFormed_iff o).1 wellFormed array
    split at defined
    next counted =>
      subst counted
      obtain ⟨here, length⟩ := defineLength_writes m writes defined
      exact ⟨⟨_, _, here⟩, shell, by simp [array], by simp [arrayIndex?_length],
        fun _ _ => length, fun _ other => absurd rfl other⟩
    next notLength =>
      split at defined
      next index read =>
        obtain ⟨here, others⟩ := defineElement_writes m read writes defined
        obtain ⟨enumerable, configurable, rfl⟩ := writes.here
        refine ⟨⟨_, _, here⟩, shell, by simp [array], fun _ index' read' => ?_,
          fun _ same => absurd same notLength, by simp [read]⟩
        rw [read] at read'
        cases read'
        exact others
      next notIndex =>
        obtain ⟨here, others⟩ := ordinary (eq_of_orRefused_true defined)
        exact ⟨here, shell, by simp [array], by simp [notIndex],
          fun _ same => absurd same notLength, fun _ _ _ => others⟩

end

end ScriptEngine.Object
