import ScriptEngine.Proofs.Store.Arrays

/-!
# Validation of definitions

Which definitions of a property an object allows, and what property they leave. Main result:
`defineOrdinary?_validated`, about every definition that is not about a value and accessors at
once. It is stated without the order of the checks: `Admits` lists what an object may refuse, and
the property that results has each part that the definition gives, and the others from what was
there (`Object.filling`).
-/
namespace ScriptEngine

namespace Descriptor

/-- A definition is about a value or about accessors, or about neither. -/
def Plain (d : Descriptor) : Prop := ¬(d.isAccessor = true ∧ d.isData = true)

/-- The parts that a definition gives, and for the others those of a second one. -/
def orElse (d rest : Descriptor) : Descriptor where
  value := d.value.or rest.value
  writable := d.writable.or rest.writable
  getter := d.getter.or rest.getter
  setter := d.setter.or rest.setter
  enumerable := d.enumerable.or rest.enumerable
  configurable := d.configurable.or rest.configurable

/-- A definition asks for the other kind of property. -/
def switches (d : Descriptor) : Property → Bool
  | .data .. => d.isAccessor
  | .accessor .. => d.isData

/-- An empty property of the kind that a definition asks for. -/
def blank (d : Descriptor) (enumerable configurable : Bool) : Property :=
  if d.isAccessor then .accessor none none enumerable configurable
  else .data .undefined false enumerable configurable

/-- A property with the parts that a definition gives in the place of its own. -/
def onto (d : Descriptor) : Property → Property
  | .data value writable enumerable configurable =>
    .data (d.value.getD value) (d.writable.getD writable) (d.enumerable.getD enumerable)
      (d.configurable.getD configurable)
  | .accessor getter setter enumerable configurable =>
    .accessor (d.getter.getD getter) (d.setter.getD setter) (d.enumerable.getD enumerable)
      (d.configurable.getD configurable)

theorem isAccessor_eq_false_iff (d : Descriptor) :
    d.isAccessor = false ↔ d.getter = none ∧ d.setter = none := by
  simp [isAccessor]

theorem isData_eq_false_iff (d : Descriptor) :
    d.isData = false ↔ d.value = none ∧ d.writable = none := by
  simp [isData]

/-- A new property is an empty one with the parts that are given. -/
theorem toProperty_eq (d : Descriptor) : d.toProperty = d.onto (d.blank false false) := by
  unfold toProperty blank
  split <;> rfl

theorem switches_blank {d : Descriptor} (plain : d.Plain) (enumerable configurable : Bool) :
    d.switches (d.blank enumerable configurable) = false := by
  unfold blank
  split
  next accessed => simpa [switches, Plain, accessed] using plain
  next valued => simpa [switches] using valued

/-- A definition of the kind of a property completes it part by part. -/
theorem ofProperty_onto {d : Descriptor} {p : Property} (kept : d.switches p = false) :
    ofProperty (d.onto p) = d.orElse (ofProperty p) := by
  cases p with
  | data value writable enumerable configurable =>
    simp [ofProperty, onto, orElse, (d.isAccessor_eq_false_iff).1 kept]
  | accessor getter setter enumerable configurable =>
    simp [ofProperty, onto, orElse, (d.isData_eq_false_iff).1 kept]

end Descriptor

namespace Property

/-- What a property that is not configurable lets a definition ask for. -/
def Tolerates : Property → Descriptor → Prop
  | data value writable enumerable _, d =>
    d.configurable ≠ some true ∧ (∀ e ∈ d.enumerable, e = enumerable) ∧ d.isAccessor = false ∧
      (writable = false → d.writable ≠ some true ∧ ∀ v ∈ d.value, v.same value = true)
  | accessor getter setter enumerable _, d =>
    d.configurable ≠ some true ∧ (∀ e ∈ d.enumerable, e = enumerable) ∧ d.isData = false ∧
      (∀ g ∈ d.getter, g = getter) ∧ ∀ s ∈ d.setter, s = setter

/-- What fills the parts that a definition leaves out: those of the property, unless its kind
changes; then only the flags stay. -/
def filling (p : Property) (d : Descriptor) : Property :=
  if d.switches p then d.blank p.enumerable p.configurable else p

theorem switches_filling (p : Property) {d : Descriptor} (plain : d.Plain) :
    d.switches (p.filling d) = false := by
  unfold filling
  split
  · exact Descriptor.switches_blank plain _ _
  next kept => simpa using kept

/-! ### The checks of a redefinition, by the kind of the property -/

/-- The flags that a definition may not change on a property that is not configurable. -/
private theorem flags_kept_iff {d : Descriptor} {enumerable configurable : Bool} :
    (!configurable && (d.configurable.getD configurable ||
        d.enumerable.getD enumerable != enumerable)) = false ↔
      configurable = true ∨
        (d.configurable ≠ some true ∧ ∀ e ∈ d.enumerable, e = enumerable) := by
  cases configurable <;> cases d.configurable <;> cases d.enumerable <;> simp

private theorem redefine?_data_eq (value : Value) (writable enumerable configurable : Bool)
    {d : Descriptor} (valued : d.isAccessor = false) :
    (data value writable enumerable configurable).redefine? d =
      if !configurable && (d.configurable.getD configurable ||
          d.enumerable.getD enumerable != enumerable) then none
      else if !configurable && !writable &&
          (d.writable == some true || d.value.any (!·.same value)) then none
      else some (d.onto (data value writable enumerable configurable)) := by
  simp only [redefine?, isData, withFlags, Descriptor.isGeneric, valued, Property.enumerable,
    Property.configurable, Descriptor.onto]
  cases about : d.isData with
  | true => simp
  | false =>
    -- Nothing is asked of the value and of its being writable.
    obtain ⟨valueless, unwritten⟩ := (d.isData_eq_false_iff).1 about
    simp [valueless, unwritten]

private theorem redefine?_accessor_eq (getter setter : Option ObjectId)
    (enumerable configurable : Bool) {d : Descriptor} (accessed : d.isData = false) :
    (accessor getter setter enumerable configurable).redefine? d =
      if !configurable && (d.configurable.getD configurable ||
          d.enumerable.getD enumerable != enumerable) then none
      else if !configurable && (d.getter.any (· != getter) || d.setter.any (· != setter)) then none
      else some (d.onto (accessor getter setter enumerable configurable)) := by
  simp only [redefine?, isData, withFlags, Descriptor.isGeneric, accessed, Property.enumerable,
    Property.configurable, Descriptor.onto]
  cases about : d.isAccessor with
  | true => simp
  | false =>
    obtain ⟨getterless, setterless⟩ := (d.isAccessor_eq_false_iff).1 about
    simp [getterless, setterless]

private theorem redefine?_switch_eq {p : Property} {d : Descriptor} (plain : d.Plain)
    (switched : d.switches p = true) :
    p.redefine? d = if p.configurable then some (d.onto (p.filling d)) else none := by
  have kinds : d.isData = !d.isAccessor ∧ p.isData = d.isAccessor := by
    unfold Descriptor.Plain at plain
    cases p <;> simp only [Descriptor.switches] at switched <;> simp_all [isData]
  cases free : p.configurable <;> cases about : d.isAccessor <;>
    simp [redefine?, Descriptor.isGeneric, kinds, free, about, filling, switched,
      Descriptor.blank, Descriptor.onto]

theorem not_tolerates_of_switches {p : Property} {d : Descriptor} (switched : d.switches p = true) :
    ¬p.Tolerates d := by
  cases p <;> simp only [Descriptor.switches] at switched <;> simp [Tolerates, switched]

private theorem value_kept_iff {d : Descriptor} {value : Value} {writable configurable : Bool} :
    (!configurable && !writable && (d.writable == some true || d.value.any (!·.same value))) =
        false ↔
      configurable = true ∨
        (writable = false → d.writable ≠ some true ∧ ∀ v ∈ d.value, v.same value = true) := by
  cases configurable <;> cases writable <;> cases d.value <;> simp

private theorem accessors_kept_iff {d : Descriptor} {getter setter : Option ObjectId}
    {configurable : Bool} :
    (!configurable && (d.getter.any (· != getter) || d.setter.any (· != setter))) = false ↔
      configurable = true ∨ ((∀ g ∈ d.getter, g = getter) ∧ ∀ s ∈ d.setter, s = setter) := by
  cases configurable <;> cases d.getter <;> cases d.setter <;> simp

private theorem isSome_unless {α : Type} (first second : Bool) (a : α) :
    (if first then none else if second then none else some a : Option α).isSome = true ↔
      first = false ∧ second = false := by
  cases first <;> cases second <;> simp

private theorem eq_of_unless {α : Type} {first second : Bool} {a b : α}
    (h : (if first then none else if second then none else some a : Option α) = some b) :
    b = a := by
  cases first <;> cases second <;> simp_all

/-- A definition of the kind of the property is refused only where it asks for a change that a
property which is not configurable does not tolerate. -/
private theorem redefine?_kept {p : Property} {d : Descriptor} (kept : d.switches p = false) :
    ((p.redefine? d).isSome = true ↔ p.configurable = true ∨ p.Tolerates d) ∧
      ∀ q, p.redefine? d = some q → q = d.onto p := by
  cases p with
  | data value writable enumerable configurable =>
    rw [redefine?_data_eq _ _ _ _ kept]
    refine ⟨?_, fun q redefined => eq_of_unless redefined⟩
    rw [isSome_unless, flags_kept_iff, value_kept_iff, ← or_and_left]
    simp only [Property.configurable, Tolerates, and_assoc, show d.isAccessor = false from kept,
      true_and]
  | accessor getter setter enumerable configurable =>
    rw [redefine?_accessor_eq _ _ _ _ kept]
    refine ⟨?_, fun q redefined => eq_of_unless redefined⟩
    rw [isSome_unless, flags_kept_iff, accessors_kept_iff, ← or_and_left]
    simp only [Property.configurable, Tolerates, and_assoc, show d.isData = false from kept,
      true_and]

/-- Which redefinitions a property allows, and what they make of it. -/
theorem redefine?_validated {p : Property} {d : Descriptor} (plain : d.Plain) :
    ((p.redefine? d).isSome = true ↔ p.configurable = true ∨ p.Tolerates d) ∧
      ∀ q, p.redefine? d = some q → q = d.onto (p.filling d) := by
  cases switched : d.switches p with
  | true =>
    rw [redefine?_switch_eq plain switched]
    cases p.configurable <;> simp [not_tolerates_of_switches switched, eq_comm]
  | false =>
    rw [filling, switched]
    exact redefine?_kept switched

end Property

namespace Object

/-- What an object asks of a definition: something new has to be let in, and what is there has to
be configurable or to tolerate the definition. -/
def Admits (o : Object) (key : String) (d : Descriptor) : Prop :=
  match o.property? key with
  | none => o.extensible = true
  | some p => p.configurable = true ∨ p.Tolerates d

/-- What fills the parts that a definition of a property leaves out. -/
def filling (o : Object) (key : String) (d : Descriptor) : Property :=
  match o.property? key with
  | none => d.blank false false
  | some p => p.filling d

theorem switches_filling (o : Object) (key : String) {d : Descriptor} (plain : d.Plain) :
    d.switches (o.filling key d) = false := by
  unfold filling
  split
  · exact Descriptor.switches_blank plain _ _
  · exact Property.switches_filling _ plain

/-- A definition either puts the completed property in place, or is not admitted. -/
theorem defineOrdinary?_eq (o : Object) (key : String) {d : Descriptor} (plain : d.Plain) :
    (o.Admits key d ∧ o.defineOrdinary? key d = some (o.put key (d.onto (o.filling key d)))) ∨
      (¬o.Admits key d ∧ o.defineOrdinary? key d = none) := by
  unfold defineOrdinary? Admits filling
  cases o.property? key with
  | none => cases o.extensible <;> simp [Descriptor.toProperty_eq]
  | some p =>
    obtain ⟨allowed, result⟩ := Property.redefine?_validated (p := p) plain
    simp only
    cases redefined : p.redefine? d with
    | none =>
      rw [redefined] at allowed
      exact .inr ⟨fun admitted => (nomatch allowed.2 admitted), rfl⟩
    | some q =>
      rw [redefined] at allowed
      exact .inl ⟨allowed.1 rfl, by rw [result q redefined]; rfl⟩

/-- A new name comes last, and the others stay where they are. -/
theorem keys_put (o : Object) (key : String) (p : Property) :
    (o.put key p).keys = if key ∈ o.keys then o.keys else o.keys ++ [key] := by
  split
  next present => exact keys_put_of_mem p present
  next absent => exact Dictionary.keys_insert_of_not_mem p absent

/--
The definition of a property is the validation that the language prescribes. It succeeds exactly
if the object admits the definition, and otherwise nothing happens. After a success the property
has each part that was given, and for the others what was there before: the defaults where there
was no property, and the flags alone where the kind changes. It stays in its place or comes last,
and nothing else about the object changes.
-/
theorem defineOrdinary?_validated (o : Object) (key : String) (d : Descriptor) (plain : d.Plain) :
    ((o.orRefused (o.defineOrdinary? key d)).2 = true ↔ o.Admits key d) ∧
      ((o.orRefused (o.defineOrdinary? key d)).2 = false →
        (o.orRefused (o.defineOrdinary? key d)).1 = o) ∧
      ∀ o', o.orRefused (o.defineOrdinary? key d) = (o', true) →
        (∃ p, o'.property? key = some p ∧
          Descriptor.ofProperty p = d.orElse (.ofProperty (o.filling key d))) ∧
        o'.keys = (if key ∈ o.keys then o.keys else o.keys ++ [key]) ∧
        (∀ other, other ≠ key → o'.property? other = o.property? other) ∧
        o'.kind = o.kind ∧ o'.prototype = o.prototype ∧ o'.extensible = o.extensible := by
  rcases o.defineOrdinary?_eq key plain with ⟨admitted, eq⟩ | ⟨refused, eq⟩
  · rw [eq]
    refine ⟨iff_of_true rfl admitted, fun no => absurd no.symm Bool.false_ne_true,
      fun o' defined => ?_⟩
    obtain rfl : o.put key (d.onto (o.filling key d)) = o' := congrArg Prod.fst defined
    refine ⟨⟨d.onto (o.filling key d), by simp, ?_⟩, keys_put o key _, fun other ne => ?_,
      rfl, rfl, rfl⟩
    · exact Descriptor.ofProperty_onto (o.switches_filling key plain)
    · rw [property?_put, if_neg ne]
  · rw [eq]
    exact ⟨iff_of_false Bool.false_ne_true refused, fun _ => rfl,
      fun o' defined => absurd (congrArg Prod.snd defined) Bool.false_ne_true⟩

/-- A constant and a property that may become anything. -/
def constantAndVariable : Object where
  kind := .ordinary
  properties := (Dictionary.singleton "a" (.data (.boolean true) false true false)).insert "b"
    (.plain .null)

/-- The constant may be given its value again but not be made configurable, and the other property
becomes a pair of functions that still shows in enumerations. -/
theorem defineOrdinary?_validated_constant :
    (constantAndVariable.orRefused
        (constantAndVariable.defineOrdinary? "a" { value := some (.boolean true) })).2 = true ∧
      (constantAndVariable.orRefused
        (constantAndVariable.defineOrdinary? "a" { configurable := some true })).2 = false ∧
      ∃ o p, constantAndVariable.orRefused
          (constantAndVariable.defineOrdinary? "b" { getter := some none }) = (o, true) ∧
        o.property? "b" = some p ∧
        Descriptor.ofProperty p = .ofProperty (.accessor none none true true) := by
  have repeated := defineOrdinary?_validated constantAndVariable "a"
    { value := some (.boolean true) } (by simp [Descriptor.Plain, Descriptor.isAccessor])
  have opened := defineOrdinary?_validated constantAndVariable "a" { configurable := some true }
    (by simp [Descriptor.Plain, Descriptor.isAccessor])
  have switched := defineOrdinary?_validated constantAndVariable "b" { getter := some none }
    (by simp [Descriptor.Plain, Descriptor.isData])
  have constant :
      constantAndVariable.property? "a" = some (.data (.boolean true) false true false) := rfl
  refine ⟨repeated.1.2 ?_, ?_, ?_⟩
  · simp [Admits, constant, Property.Tolerates, Property.configurable, Descriptor.isAccessor]
  · rw [← Bool.not_eq_true, opened.1]
    simp [Admits, constant, Property.Tolerates, Property.configurable]
  · obtain ⟨⟨p, there, parts⟩, -⟩ := switched.2.2 _ rfl
    exact ⟨_, p, rfl, there, parts⟩

end Object

end ScriptEngine
