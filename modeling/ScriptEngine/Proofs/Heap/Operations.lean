import ScriptEngine.Operation.Binary
import ScriptEngine.Operation.Reference
import ScriptEngine.Proofs.Heap.Regime

/-!
# Operations on a heap

The operations of the language on values, properties, bindings and references, given values and
references that are there, go through stores that are allowed and give back what is there, as long
as the functions that they call do.
-/
namespace ScriptEngine.Regime

open Evaluation Operation

variable {R : Regime} {s : Store}

theorem failAsking_keeps {α γ : Type} {Q : Store → α → Prop} (question : Store → γ)
    (cause : γ → Cause) : R.Keeps s (do fail (cause (← ask question)) : Evaluation α) Q :=
  .asking fun _ => .fail _

/-! ### Objects -/

theorem setOwn_keeps {id : ObjectId} {key : String} {value : Value} (known : R.Known id)
    (has : R.HasValue s value) : R.Safe s (setOwn id key value) := by
  refine .asking fun _ => ?_
  split
  · exact .define known (.ofValue has)
  · exact .pure trivial
  · exact .define known (.ofProperty has)

theorem defineOrFail_keeps {id : ObjectId} {key : String} {d : Descriptor} (known : R.Known id)
    (has : R.HasDescriptor s d) : R.Safe s (defineOrFail id key d) := by
  refine (Keeps.define known has).bind fun allowed _ _ => ?_
  split
  · exact .fail _
  · exact .pure trivial

theorem newObject_keeps {prototype : ObjectId} (has : R.HasObject s prototype) :
    R.Keeps s (newObject prototype) R.HasObject := by
  refine .allocate trivial fun _ => ⟨?_, nofun, .empty⟩
  rintro _ ⟨⟩
  exact has

/-- A new object without properties that inherits from `Object.prototype`. -/
theorem newPlainObject_keeps : R.Keeps s (newObject WellKnown.objectPrototype) R.HasObject :=
  .given fun allows => newObject_keeps (allows.refers.wellKnown (by decide))

theorem newArray_keeps {places : List (Option Value)}
    (has : ∀ value, some value ∈ places → R.HasValue s value) :
    R.Keeps s (newArray places) R.HasObject := by
  refine .allocate trivial fun allows =>
    ⟨allows.refers.inherits_wellKnown (by decide), nofun, ?_⟩
  refine (Dictionary.Each.singleton "length" (by trivial)).union (.indexed fun p mem => ?_)
  -- A place without a value gets no property.
  obtain ⟨place, there, eq⟩ := List.mem_map.1 mem
  obtain ⟨value, rfl, rfl⟩ := Option.map_eq_some_iff.1 eq
  exact has value there

theorem newArrayOf_keeps {values : List Value} (has : R.HasAll s values) :
    R.Keeps s (newArrayOf values) R.HasObject := by
  refine newArray_keeps fun value mem => ?_
  obtain ⟨_, there, eq⟩ := List.mem_map.1 mem
  cases eq
  exact has value there

theorem toObject_keeps {value : Value} (has : R.HasValue s value) :
    R.Keeps s (toObject value) R.HasObject := by
  unfold toObject
  split
  · exact .pure has
  next text =>
    refine .allocate trivial fun allows =>
      ⟨allows.refers.inherits_wellKnown (by decide), nofun, ?_⟩
    -- The code units of a text are texts.
    refine Dictionary.Each.insert (.indexed fun p mem => ?_) "length" (by trivial)
    obtain ⟨_, _, eq⟩ := List.mem_map.1 mem
    cases eq
    trivial
  · exact newPlainObject_keeps
  · exact newPlainObject_keeps
  · exact failAsking_keeps _ _

/-! ### Bindings -/

section

variable {env : EnvironmentId} {name : String}

theorem createMutable_keeps {deletable : Bool} (has : s.HasEnvironment env)
    (permanent : R.confined → deletable = false) :
    R.Keeps s (createMutable env name deletable) fun t _ => R.confined → t.Fast env name := by
  refine .asking fun allows => ?_
  split
  · exact .create has permanent
  next record =>
    have known := (allows.refers.records record).2
    refine (Keeps.define known (.ofProperty (.data (v := .undefined) trivial ..))).bind
      fun allowed reached _ => ?_
    split
    · exact .fail _
    · exact .pure fun _ => .inl ⟨_, reached.record_object record⟩

theorem createImmutable_keeps {strict : Bool} (has : s.HasEnvironment env) :
    R.Safe s (createImmutable env name strict) := by
  refine .asking fun _ => ?_
  split
  · exact (Keeps.create has fun _ => rfl).safe
  · exact .fail _

/-- Where no binding can be removed, a name that is assigned to must have one. -/
theorem setBinding_keeps {value : Value} {strict : Bool} (has : R.HasValue s value)
    (fast : R.confined → s.Fast env name) : R.Safe s (setBinding env name value strict) := by
  refine .asking fun allows => ?_
  split
  · exact .assign has fast
  next record =>
    refine (setOwn_keeps (allows.refers.records record).2 has).bind fun written _ _ => ?_
    split
    · exact .fail _
    · exact .pure trivial

theorem setInitialBinding_keeps {value : Value} (has : R.HasValue s value) :
    R.Safe s (setInitialBinding env name value) := by
  refine .asking fun _ => ?_
  split
  · exact .setInitial has
  next record => exact setBinding_keeps has fun _ => .inl ⟨_, record⟩

theorem createLexical_keeps {isConst : Bool} (has : s.HasEnvironment env) :
    R.Safe s (createLexical env name isConst) := by
  unfold createLexical
  split
  · exact (createImmutable_keeps has).bind fun _ _ _ => .note trivial
  · exact (createMutable_keeps has fun _ => rfl).bind fun _ _ _ => .note trivial

theorem initializeLexical_keeps {value : Value} (has : R.HasValue s value) :
    R.Safe s (initializeLexical env name value) :=
  (Keeps.note (Q := fun _ _ => True) trivial).bind
    fun _ reached _ => setInitialBinding_keeps (has.mono reached)

theorem getBinding_keeps {strict : Bool} :
    R.Keeps s (getBinding env name strict) R.HasValue := by
  refine .asking fun allows => ?_
  split
  next bindings record =>
    split
    next value read => exact .pure (allows.refers.read record read)
    · exact .fail _
  · refine .asking fun allows => ?_
    split
    next found => exact .pure (allows.refers.lookup found)
    · exact .pure trivial
    · split
      · exact .fail _
      · exact .pure trivial

theorem deleteBinding_keeps : R.Safe s (deleteBinding env name) := by
  refine .asking fun allows => ?_
  split
  · exact Keeps.forget.bind fun _ _ _ => .pure trivial
  next record => exact .delete (allows.refers.records record).2

theorem declare_keeps {deletable : Bool} {value : Value} (has : s.HasEnvironment env)
    (permanent : R.confined → deletable = false) (there : R.HasValue s value) :
    R.Keeps s (declare env name deletable value) fun t _ => R.confined → t.Fast env name :=
  (createMutable_keeps has permanent).bind fun _ reached fast =>
    (setInitialBinding_keeps (there.mono reached)).weaken
      fun _ reached' _ confined => (fast confined).mono reached'

end

/-! ### References -/

theorem resolve_keeps {env : EnvironmentId} {name : String} {strict : Bool} :
    R.Keeps s (resolve env name strict) R.HasReference := by
  refine .ask fun allows => ?_
  cases found : s.resolve env name with
  | none => trivial
  | some holder =>
    have bound := Store.hasBinding_of_resolve found
    exact ⟨Store.present_of_hasBinding bound, fun confined => (allows.lasting confined).fast bound⟩

theorem resolveHere_keeps {name : String} : R.Keeps s (resolveHere name) R.HasReference :=
  .askingControl fun _ _ _ => .askingControl fun _ _ _ => resolve_keeps

theorem deleteReference_keeps {r : Reference} (has : R.HasReference s r) :
    R.Safe s (deleteReference r) := by
  unfold deleteReference
  split
  · exact .pure trivial
  next eq =>
    rw [HasReference, eq] at has
    refine (toObject_keeps has).bind fun id _ there =>
      (Keeps.delete there.2).bind fun deleted _ _ => ?_
    split
    · exact failAsking_keeps _ _
    · exact .pure trivial
  · exact deleteBinding_keeps

/-! ### Calls -/

section

variable {call : Caller} (calls : R.Calls call)

include calls

theorem callValue_keeps {f receiver : Value} {arguments : List Value} (there : R.HasValue s f)
    (has : R.HasValue s receiver) (all : R.HasAll s arguments) :
    R.Keeps s (callValue call f receiver arguments) R.HasValue := by
  unfold callValue
  split
  · refine .asking fun _ => ?_
    split
    · exact calls there has all
    · exact failAsking_keeps _ _
  · exact failAsking_keeps _ _

theorem get_keeps {id : ObjectId} {key : String} {receiver : Value} (has : R.HasValue s receiver) :
    R.Keeps s (get call id key receiver) R.HasValue := by
  refine .asking fun allows => ?_
  split
  · exact .pure trivial
  · exact .pure trivial
  next found => exact .pure (allows.refers.lookup found)
  next getter _ _ _ found =>
    have there : R.HasObject s getter := (allows.refers.lookup found).1 getter rfl
    exact callValue_keeps calls there.value has .nil

theorem getOwn_keeps {id : ObjectId} {key : String} (has : R.HasObject s id) :
    R.Keeps s (getOwn call id key) R.HasValue := get_keeps calls has

theorem getV_keeps {base : Value} {key : String} (has : R.HasValue s base) :
    R.Keeps s (getV call base key) R.HasValue := by
  unfold getV
  split
  · exact get_keeps calls has
  · exact failAsking_keeps _ _
  · exact failAsking_keeps _ _
  next text =>
    split
    next value own =>
      -- A string has a number of code units, and texts of one.
      refine .pure ?_
      unfold stringProperty? at own
      split at own
      · cases own
        trivial
      · obtain ⟨_, _, rfl⟩ := Option.map_eq_some_iff.1 own
        trivial
    · exact get_keeps calls has
  · exact get_keeps calls has
  · exact get_keeps calls has

theorem set_keeps {id : ObjectId} {key : String} {value receiver : Value}
    (has : R.HasValue s value) (there : R.HasValue s receiver) :
    R.Safe s (set call id key value receiver) := by
  refine .asking fun allows => ?_
  split
  · exact .pure trivial
  · exact .pure trivial
  next setter _ _ found =>
    have own : R.HasObject s setter := (allows.refers.lookup found).2 setter rfl
    refine (callValue_keeps calls own.value there ?_).bind fun _ _ _ => .pure trivial
    exact List.forall_mem_singleton.2 has
  all_goals
    cases receiver with
    | object id => exact setOwn_keeps there.2 has
    | _ => exact .pure trivial

theorem putV_keeps {base : Value} {key : String} {value : Value} {strict : Bool}
    (there : R.HasValue s base) (has : R.HasValue s value) :
    R.Safe s (putV call base key value strict) := by
  unfold putV
  split
  · refine (set_keeps calls has there).bind fun written _ _ => ?_
    split
    · exact .fail _
    · exact .pure trivial
  · exact failAsking_keeps _ _
  · exact failAsking_keeps _ _
  · split
    · exact .asking fun _ => .asking fun _ => .fail _
    · exact .pure trivial

/-- The new object inherits from an object that is there. -/
theorem construct_keeps {f : Value} {arguments : List Value} (there : R.HasValue s f)
    (all : R.HasAll s arguments) : R.Keeps s (construct call f arguments) R.HasValue := by
  unfold construct
  split
  · refine .asking fun _ => ?_
    split
    · exact failAsking_keeps _ _
    · refine (getOwn_keeps calls there).bind fun prototype reached has => .given fun allows => ?_
      -- Any object may be in `prototype`; if there is none, the prototype is a well-known one.
      refine (newObject_keeps ?_).bind fun receiver reached' made => ?_
      · split
        · exact has
        · exact allows.refers.wellKnown (by decide)
      have further := reached.trans reached'
      refine (callValue_keeps calls (there.mono further) made.value (all.mono further)).bind
        fun result reached'' ended => ?_
      split
      · exact .pure ended
      · exact .pure (made.mono reached'')
  · exact failAsking_keeps _ _

theorem hasInstance_keeps {f value : Value} (there : R.HasValue s f) :
    R.Safe s (hasInstance call f value) := by
  unfold hasInstance
  split
  · refine .asking fun _ => ?_
    split
    · exact .fail _
    · split
      · refine (getOwn_keeps calls there).bind fun prototype _ _ => ?_
        split
        · exact .ask fun _ => trivial
        · exact .fail _
      · exact .pure trivial
  · exact .fail _

/-! ### Conversions -/

theorem tryMethods_keeps {id : ObjectId} {methods : List String} (has : R.HasObject s id) :
    R.Keeps s (tryMethods call id methods) R.HasValue := by
  induction methods generalizing s with
  | nil => exact .fail _
  | cons name rest ih =>
    refine (getOwn_keeps calls has).bind fun method reached there => .asking fun _ => ?_
    have has := has.mono reached
    split
    · refine (callValue_keeps calls there has.value .nil).bind fun result reached' ended => ?_
      split
      · exact ih (has.mono reached')
      · exact .pure ended
    · exact ih has

theorem toPrimitive_keeps {hint : Hint} {value : Value} (has : R.HasValue s value) :
    R.Keeps s (toPrimitive call hint value) R.HasValue := by
  unfold toPrimitive
  split
  · exact tryMethods_keeps calls has
  · exact .pure has

theorem toNumber_keeps {value : Value} (has : R.HasValue s value) :
    R.Safe s (toNumber call value) := .map (toPrimitive_keeps calls has).safe

theorem toText_keeps {value : Value} (has : R.HasValue s value) : R.Safe s (toText call value) :=
  (toPrimitive_keeps calls has).bind fun _ _ _ => .ask fun _ => trivial

theorem toKey_keeps {value : Value} (has : R.HasValue s value) : R.Safe s (toKey call value) :=
  toText_keeps calls has

theorem toInt32_keeps {value : Value} (has : R.HasValue s value) : R.Safe s (toInt32 call value) :=
  .map (toNumber_keeps calls has)

theorem toUInt32_keeps {value : Value} (has : R.HasValue s value) :
    R.Safe s (toUInt32 call value) := .map (toNumber_keeps calls has)

/-! ### Reading and writing -/

theorem getValue_keeps {r : Reference} (has : R.HasReference s r) :
    R.Keeps s (getValue call r) R.HasValue := by
  unfold getValue
  split
  · exact .fail _
  next eq =>
    rw [HasReference, eq] at has
    exact getV_keeps calls has
  · refine .asking fun allows => ?_
    split
    · exact getBinding_keeps
    next record =>
      refine .asking fun _ => ?_
      split
      · exact .fail _
      · exact getOwn_keeps calls (allows.refers.records record)

theorem putValue_keeps {r : Reference} {value : Value} (there : R.HasReference s r)
    (has : R.HasValue s value) : R.Safe s (putValue call r value) := by
  unfold putValue
  split
  · split
    · exact .fail _
    · exact .given fun allows => putV_keeps calls allows.refers.globalObject has
  next eq =>
    rw [HasReference, eq] at there
    exact putV_keeps calls there has
  next eq =>
    rw [HasReference, eq] at there
    refine .asking fun allows => ?_
    split
    · exact setBinding_keeps has there.2
    next record => exact putV_keeps calls (allows.refers.records record) has

theorem typeOfReference_keeps {r : Reference} (has : R.HasReference s r) :
    R.Safe s (typeOfReference call r) := by
  unfold typeOfReference
  split
  · exact .pure trivial
  · exact (getValue_keeps calls has).bind fun _ _ _ => .ask fun _ => trivial

/-! ### Binary operators -/

section

variable {left right : Value} (hasLeft : R.HasValue s left) (hasRight : R.HasValue s right)

include hasLeft hasRight

theorem looselyEqual_keeps : R.Safe s (looselyEqual call left right) := by
  have unboolean : ∀ {v w : Value}, R.HasValue s v → unboolean v = w → R.HasValue s w := by
    rintro v _ has rfl
    cases v <;> exact has
  unfold looselyEqual
  split
  case h_5 => exact .pure trivial
  all_goals
    next first second =>
    refine (toPrimitive_keeps calls ?_).bind fun _ _ _ => .pure trivial
    first | exact unboolean hasLeft first | exact unboolean hasRight second

theorem less_keeps (leftFirst : Bool) : R.Safe s (less call left right leftFirst) := by
  unfold less
  split
  · refine (toPrimitive_keeps calls hasLeft).bind fun _ reached _ => ?_
    exact (toPrimitive_keeps calls (hasRight.mono reached)).bind fun _ _ _ => .pure trivial
  · refine (toPrimitive_keeps calls hasRight).bind fun _ reached _ => ?_
    exact (toPrimitive_keeps calls (hasLeft.mono reached)).bind fun _ _ _ => .pure trivial

theorem add_keeps : R.Keeps s (add call left right) R.HasValue := by
  refine (toPrimitive_keeps calls hasLeft).bind fun left reached _ => ?_
  refine (toPrimitive_keeps calls (hasRight.mono reached)).bind fun right _ _ => ?_
  unfold addPlain
  split
  · exact .asking fun _ => .asking fun _ => .pure trivial
  · exact .asking fun _ => .asking fun _ => .pure trivial
  · exact .pure trivial

theorem numeric_keeps (operator : Number → Number → Number) :
    R.Keeps s (numeric call operator left right) R.HasValue := by
  refine (toNumber_keeps calls hasLeft).bind fun _ reached _ => ?_
  exact (toNumber_keeps calls (hasRight.mono reached)).bind fun _ _ _ => .pure trivial

theorem bitwise_keeps (operator : Int32 → Int32 → Int32) :
    R.Keeps s (bitwise call operator left right) R.HasValue := by
  refine (toInt32_keeps calls hasLeft).bind fun _ reached _ => ?_
  exact (toInt32_keeps calls (hasRight.mono reached)).bind fun _ _ _ => .pure trivial

omit hasLeft in
theorem toShift_keeps : R.Safe s (toShift call right) :=
  (toUInt32_keeps calls hasRight).bind fun _ _ _ => .pure trivial

theorem shiftLeft_keeps : R.Keeps s (shiftLeft call left right) R.HasValue := by
  refine (toInt32_keeps calls hasLeft).bind fun _ reached _ => ?_
  exact (toShift_keeps calls (hasRight.mono reached)).bind fun _ _ _ => .pure trivial

theorem shiftRight_keeps : R.Keeps s (shiftRight call left right) R.HasValue := by
  refine (toInt32_keeps calls hasLeft).bind fun _ reached _ => ?_
  exact (toShift_keeps calls (hasRight.mono reached)).bind fun _ _ _ => .pure trivial

theorem shiftRightUnsigned_keeps :
    R.Keeps s (shiftRightUnsigned call left right) R.HasValue := by
  refine (toUInt32_keeps calls hasLeft).bind fun _ reached _ => ?_
  exact (toShift_keeps calls (hasRight.mono reached)).bind fun _ _ _ => .pure trivial

omit hasLeft in
theorem instanceOf_keeps : R.Keeps s (instanceOf call left right) R.HasValue := by
  unfold instanceOf
  split
  · exact (hasInstance_keeps calls hasRight).bind fun _ _ _ => .pure trivial
  · exact .fail _

omit hasRight in
theorem isIn_keeps : R.Keeps s (isIn call left right) R.HasValue := by
  unfold isIn
  split
  · exact (toKey_keeps calls hasLeft).bind fun _ _ _ => .asking fun _ => .pure trivial
  · exact .asking fun _ => .asking fun _ => .fail _

theorem applyBinary_keeps (operator : BinaryOperator) :
    R.Keeps s (applyBinary call operator left right) R.HasValue := by
  cases operator with
  | looselyEqual | looselyUnequal =>
    exact .map ((looselyEqual_keeps calls hasLeft hasRight).weaken fun _ _ _ => trivial)
  | strictlyEqual | strictlyUnequal => exact .pure trivial
  | lessThan | greaterThanEqual =>
    exact .map ((less_keeps calls hasLeft hasRight true).weaken fun _ _ _ => trivial)
  | lessThanEqual | greaterThan =>
    exact .map ((less_keeps calls hasRight hasLeft false).weaken fun _ _ _ => trivial)
  | leftShift => exact shiftLeft_keeps calls hasLeft hasRight
  | rightShift => exact shiftRight_keeps calls hasLeft hasRight
  | unsignedRightShift => exact shiftRightUnsigned_keeps calls hasLeft hasRight
  | add => exact add_keeps calls hasLeft hasRight
  | subtract | multiply | divide | modulo => exact numeric_keeps calls hasLeft hasRight _
  | bitwiseOr | bitwiseXor | bitwiseAnd => exact bitwise_keeps calls hasLeft hasRight _
  | isIn => exact isIn_keeps calls hasLeft
  | instanceOf => exact instanceOf_keeps calls hasRight

end

end

end ScriptEngine.Regime
