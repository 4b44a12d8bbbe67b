import ScriptEngine.Machine.Value

/-!
# Redefinitions of properties

What a definition can do to a property that is there. Main result: a permanent property, one that
can be neither removed nor written, comes out of every definition that it allows as it was
(`redefine?_permanent`), where a value counts as it was if it is the same for `Value.same`.
-/
namespace ScriptEngine

/-! ### The same value -/

theorem Number.same_refl (a : Number) : a.same a = true := by simp [Number.same]

/-- Two numbers are the same if they are both no number, or mean the same double. -/
private theorem number_same_iff (a b : Number) :
    a.same b = true ↔
      (a.isNaN = true ∧ b.isNaN = true) ∨ a.toFloat.toBits = b.toFloat.toBits := by
  simp [Number.same]

private theorem toFloat_of_isNaN {a b : Number} (ha : a.isNaN = true) (hb : b.isNaN = true) :
    a.toFloat = b.toFloat := by
  cases a <;> cases ha
  cases b <;> cases hb
  rfl

theorem Number.same_symm {a b : Number} (h : a.same b = true) : b.same a = true := by
  rw [number_same_iff] at h ⊢
  exact h.imp And.symm Eq.symm

theorem Number.same_trans {a b c : Number} (first : a.same b = true) (second : b.same c = true) :
    a.same c = true := by
  rw [number_same_iff] at first second ⊢
  right
  -- That both are no number is a special case of meaning the same double.
  have left : a.toFloat.toBits = b.toFloat.toBits := by
    rcases first with ⟨ha, hb⟩ | eq
    · rw [toFloat_of_isNaN ha hb]
    · exact eq
  have right : b.toFloat.toBits = c.toFloat.toBits := by
    rcases second with ⟨hb, hc⟩ | eq
    · rw [toFloat_of_isNaN hb hc]
    · exact eq
  exact left.trans right

namespace Value

@[simp]
theorem same_refl (v : Value) : v.same v = true := by
  cases v <;> simp [same, Number.same_refl]

theorem same_symm {u v : Value} (h : u.same v = true) : v.same u = true := by
  cases u <;> cases v <;> simp only [same, Bool.false_eq_true] at h ⊢
  case number.number => exact Number.same_symm h
  all_goals simp_all

theorem same_trans {u v w : Value} (first : u.same v = true) (second : v.same w = true) :
    u.same w = true := by
  cases u <;> cases v <;> simp only [same, Bool.false_eq_true] at first <;>
    cases w <;> simp only [same, Bool.false_eq_true] at second ⊢
  case number.number.number => exact Number.same_trans first second
  all_goals simp_all

end Value

namespace Property

/-- Two properties are alike if they agree in everything but the form that a number is kept in. -/
def Alike : Property → Property → Prop
  | .data value writable enumerable configurable,
    .data value' writable' enumerable' configurable' =>
    value.same value' = true ∧ writable' = writable ∧ enumerable' = enumerable ∧
      configurable' = configurable
  | p, q => q = p

/-- A property that nobody can remove, make configurable or give another value. -/
def Permanent (p : Property) : Prop := p.configurable = false ∧ p.writable = false

@[simp]
theorem Alike.refl (p : Property) : p.Alike p := by
  cases p <;> simp [Alike]

theorem Alike.trans {p q r : Property} (first : p.Alike q) (second : q.Alike r) : p.Alike r := by
  cases p <;> cases q <;> simp only [Alike, reduceCtorEq] at first
  case data.data =>
    cases r <;> simp only [Alike, reduceCtorEq] at second ⊢
    obtain ⟨value, rfl, rfl, rfl⟩ := first
    obtain ⟨value', rfl, rfl, rfl⟩ := second
    exact ⟨Value.same_trans value value', rfl, rfl, rfl⟩
  case accessor.accessor =>
    cases first
    exact second

theorem Alike.permanent {p q : Property} (alike : p.Alike q) (permanent : p.Permanent) :
    q.Permanent := by
  cases p <;> cases q <;> simp only [Alike, reduceCtorEq] at alike
  case data.data =>
    obtain ⟨-, rfl, rfl, rfl⟩ := alike
    exact permanent
  case accessor.accessor => exact alike ▸ permanent

/-! ### What a definition leaves -/

/-- A definition that a property which is not configurable allows asks to change neither flag. -/
private theorem redefine?_flags {p q : Property} {d : Descriptor}
    (fixed : p.configurable = false) (redefined : p.redefine? d = some q) :
    d.configurable.getD p.configurable = false ∧
      d.enumerable.getD p.enumerable = p.enumerable := by
  unfold redefine? at redefined
  simp only [fixed, Bool.not_false, Bool.true_and, Bool.or_eq_true, bne_iff_ne, ne_eq] at redefined
  split at redefined
  · cases redefined
  next kept =>
    rw [fixed]
    simpa only [not_or, Bool.not_eq_true, Decidable.not_not] using kept

/-- A value that is not configurable stays a value with its flags; if it is not writable either,
a definition can only repeat it. -/
theorem redefine?_data {value : Value} {writable enumerable : Bool} {d : Descriptor} {q : Property}
    (redefined : (data value writable enumerable false).redefine? d = some q) :
    ∃ writable', q = data (d.value.getD value) writable' enumerable false ∧
      (writable = false → writable' = false ∧ (d.value.getD value).same value = true) := by
  obtain ⟨unconfigurable, sameEnumerable⟩ := redefine?_flags rfl redefined
  simp only [configurable, Property.enumerable] at unconfigurable sameEnumerable
  unfold redefine? at redefined
  simp only [configurable, Property.enumerable, unconfigurable, sameEnumerable] at redefined
  split at redefined
  · cases redefined
  split at redefined
  next generic =>
    -- A definition that says nothing of value and writability has no value to give.
    have valueless : d.value = none := by
      simp only [Descriptor.isGeneric, Descriptor.isData, Bool.and_eq_true, Bool.not_eq_true',
        Bool.or_eq_false_iff, Option.isSome_eq_false_iff, Option.isNone_iff_eq_none] at generic
      exact generic.2.1
    cases redefined
    exact ⟨writable, by simp [withFlags, valueless],
      fun readOnly => ⟨readOnly, by simp [valueless]⟩⟩
  split at redefined
  · simp at redefined
  split at redefined
  · cases redefined
  next allowed =>
    cases redefined
    refine ⟨d.writable.getD writable, rfl, fun readOnly => ?_⟩
    -- The refusal of anything else than a repetition is what `allowed` rules out.
    subst readOnly
    simp only [Bool.not_false, Bool.true_and, Bool.or_eq_true, beq_iff_eq, not_or,
      Bool.not_eq_true, Option.any_eq_false] at allowed
    obtain ⟨notWritable, sameValue⟩ := allowed
    constructor
    · cases given : d.writable with
      | none => rfl
      | some w => cases w <;> simp_all
    · cases given : d.value with
      | none => simp
      | some v => simpa using sameValue v given

/-- A pair of functions that is not configurable stays as it is. -/
theorem redefine?_accessor {getter setter : Option ObjectId} {enumerable : Bool} {d : Descriptor}
    {q : Property} (redefined : (accessor getter setter enumerable false).redefine? d = some q) :
    q = accessor getter setter enumerable false := by
  obtain ⟨unconfigurable, sameEnumerable⟩ := redefine?_flags rfl redefined
  simp only [configurable, Property.enumerable] at unconfigurable sameEnumerable
  unfold redefine? at redefined
  simp only [configurable, Property.enumerable, unconfigurable, sameEnumerable] at redefined
  split at redefined
  · cases redefined
  split at redefined
  · cases redefined
    rfl
  split at redefined
  -- A value instead of the functions would need the property to be configurable.
  · simp at redefined
  split at redefined
  · cases redefined
  next allowed =>
    cases redefined
    simp only [Bool.not_false, Bool.true_and, Bool.or_eq_true, not_or, Bool.not_eq_true,
      Option.any_eq_false, bne_eq_false_iff_eq] at allowed
    obtain ⟨sameGetter, sameSetter⟩ := allowed
    congr 1
    · cases given : d.getter with
      | none => rfl
      | some f => exact sameGetter f given
    · cases given : d.setter with
      | none => rfl
      | some f => exact sameSetter f given

/-- What a definition makes of a permanent property is like what was there. -/
theorem redefine?_permanent {p q : Property} {d : Descriptor} (permanent : p.Permanent)
    (redefined : p.redefine? d = some q) : p.Alike q := by
  obtain ⟨fixed, readOnly⟩ := permanent
  cases p with
  | data value writable enumerable configurable =>
    cases fixed
    obtain ⟨writable', rfl, kept⟩ := redefine?_data redefined
    obtain ⟨stillReadOnly, same⟩ := kept readOnly
    exact ⟨Value.same_symm same, stillReadOnly.trans readOnly.symm, rfl, rfl⟩
  | accessor getter setter enumerable configurable =>
    cases fixed
    exact redefine?_accessor redefined

end Property

end ScriptEngine
