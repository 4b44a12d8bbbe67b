import ScriptEngine.Operation.Binary
import ScriptEngine.Operation.Reference
import ScriptEngine.Proofs.Evaluation.Contract

/-!
# Operations keep contracts

The operations of the language on values, properties, bindings and references keep every lawful
contract, as long as the functions that they call do.
-/
namespace ScriptEngine.Operation

open Evaluation Contract

section

variable {C : Contract} (lawful : C.Lawful)

include lawful

/-- An error of the engine may be raised, whatever it says. -/
theorem failAsking_keeps {α γ : Type} {Q : α → Prop} (question : Store → γ) (cause : γ → Cause) :
    C.Keeps (do fail (cause (← ask question)) : Evaluation α) Q :=
  .asking fun _ => lawful.fail _

/-! ### Properties -/

theorem setOwn_safe (id : ObjectId) (key : String) (value : Value) :
    C.Safe (setOwn id key value) := by
  refine .asking fun found => ?_
  split
  · exact lawful.define id key _
  · exact .pure trivial
  · exact lawful.define id key _

theorem defineOrFail_safe (id : ObjectId) (key : String) (d : Descriptor) :
    C.Safe (defineOrFail id key d) := by
  refine (lawful.define id key d).bind fun allowed => ?_
  split
  · exact lawful.fail _
  · exact .pure trivial

theorem newObject_safe (prototype : ObjectId) : C.Safe (newObject prototype) :=
  lawful.allocate _ rfl

theorem newArray_safe (places : List (Option Value)) : C.Safe (newArray places) :=
  lawful.allocate _ rfl

theorem newArrayOf_safe (values : List Value) : C.Safe (newArrayOf values) :=
  newArray_safe lawful _

theorem toObject_safe (value : Value) : C.Safe (toObject value) := by
  unfold toObject
  split
  · exact .pure trivial
  · exact lawful.allocate _ rfl
  · exact newObject_safe lawful _
  · exact newObject_safe lawful _
  · exact failAsking_keeps lawful _ _

/-! ### Bindings -/

theorem createMutable_safe (lenient : C.Lenient) (env : EnvironmentId) (name : String)
    (deletable : Bool) : C.Safe (createMutable env name deletable) := by
  refine .asking fun record => ?_
  split
  · exact lenient.create lawful env name _ _
  -- Without a record of its own the environment is an object, and the binding a property.
  · refine (lawful.define _ name _).bind fun allowed => ?_
    split
    · exact lawful.fail _
    · exact .pure trivial

theorem createImmutable_safe (lenient : C.Lenient) (env : EnvironmentId) (name : String)
    (strict : Bool) : C.Safe (createImmutable env name strict) := by
  refine .asking fun record => ?_
  split
  · exact lenient.create lawful env name _ _
  · exact lawful.fail _

theorem setBinding_safe (env : EnvironmentId) (name : String) (value : Value) (strict : Bool) :
    C.Safe (setBinding env name value strict) := by
  refine .asking fun record => ?_
  split
  · exact lawful.assign env name value strict
  · refine (setOwn_safe lawful _ name value).bind fun written => ?_
    split
    · exact lawful.fail _
    · exact .pure trivial

omit lawful in
theorem setInitialBinding_safe (lawful : C.Lawful) (lenient : C.Lenient) (env : EnvironmentId)
    (name : String) (value : Value) : C.Safe (setInitialBinding env name value) := by
  refine .asking fun record => ?_
  split
  · exact lenient.setInitial lawful.error env name value
  · exact setBinding_safe lawful env name value false

theorem createLexical_safe (lenient : C.Lenient) (env : EnvironmentId) (name : String)
    (isConst : Bool) : C.Safe (createLexical env name isConst) := by
  unfold createLexical
  split
  · exact (createImmutable_safe lawful lenient env name true).bind fun _ => lenient.note _
  · exact (createMutable_safe lawful lenient env name false).bind fun _ => lenient.note _

theorem initializeLexical_safe (lenient : C.Lenient) (env : EnvironmentId) (name : String)
    (value : Value) : C.Safe (initializeLexical env name value) :=
  (lenient.note _).bind fun _ => setInitialBinding_safe lawful lenient env name value

theorem getBinding_safe (env : EnvironmentId) (name : String) (strict : Bool) :
    C.Safe (getBinding env name strict) := by
  refine .asking fun record => ?_
  split
  · split
    · exact .pure trivial
    · exact lawful.fail _
  · refine .asking fun found => ?_
    split
    · exact .pure trivial
    · exact .pure trivial
    · split
      · exact lawful.fail _
      · exact .pure trivial

theorem deleteBinding_safe (env : EnvironmentId) (name : String) :
    C.Safe (deleteBinding env name) := by
  refine .asking fun record => ?_
  split
  · exact (lawful.forget env name).bind fun _ => .pure trivial
  · exact lawful.delete _ name

omit lawful in
theorem hasBinding_safe (env : EnvironmentId) (name : String) : C.Safe (hasBinding env name) :=
  .asked _

/-- The environment has got a binding without a value, or it takes the properties of an object for
bindings. -/
def Introduces (env : EnvironmentId) (name : String) (s t : Store) : Prop :=
  (∃ binding : Binding, binding.value = none ∧
    s.editBindings env (·.create name binding) = (.ok (), t)) ∨
    ∃ id, (t.environment env).record = .object id

section

variable {past : List Event} {m : Machine} (store : C.store past m.store) {env : EnvironmentId}
  {name : String}

include store

theorem create_introduces (absent : m.store.hasBinding env name = false) (binding : Binding)
    (fresh : binding.value = none) :
    C.Goes past m (create env name binding fresh) fun _ past' m' =>
      past' = past ∧ Introduces env name m.store m'.store :=
  (lawful.created store absent binding fresh).weaken
    fun _ _ _ _ _ _ made => ⟨made.1, .inl ⟨binding, fresh, made.2⟩⟩

theorem createMutable_introduces (absent : m.store.hasBinding env name = false)
    (deletable : Bool) :
    C.Goes past m (createMutable env name deletable) fun _ past' m' =>
      past' = past ∧ Introduces env name m.store m'.store := by
  refine (Goes.ask (Q := fun record past' m' =>
    record = (m.store.environment env).record ∧ past' = past ∧ m' = m) store
    ⟨rfl, rfl, rfl⟩).bind fun record past' m' _ _ _ asked => ?_
  obtain ⟨eq, rfl, rfl⟩ := asked
  cases record with
  | declarative => exact create_introduces lawful store absent _ rfl
  | object id =>
    have defined : C.Goes past' m'
        (define id name (.ofProperty (.data .undefined true true deletable))) fun _ past m =>
          past = past' ∧ m.store.environment env = m'.store.environment env :=
      .step store (lawful.permits_define id name _ m'.store) ⟨rfl, rfl⟩
    refine defined.bind fun allowed _ _ _ _ store' same => ?_
    obtain ⟨rfl, same⟩ := same
    split
    · exact .raise store' (lawful.error _)
    · exact .pure store' ⟨rfl, .inr ⟨id, same ▸ eq.symm⟩⟩

theorem createImmutable_introduces (absent : m.store.hasBinding env name = false) (strict : Bool) :
    C.Goes past m (createImmutable env name strict) fun _ past' m' =>
      past' = past ∧ Introduces env name m.store m'.store := by
  refine (Goes.ask (Q := fun _ past' m' => past' = past ∧ m' = m) store ⟨rfl, rfl⟩).bind
    fun record past' m' _ _ _ asked => ?_
  obtain ⟨rfl, rfl⟩ := asked
  cases record with
  | declarative => exact create_introduces lawful store absent _ rfl
  | object id => exact .raise store (lawful.error _)

/-- A name that has just come into being may get its first value. -/
theorem introduced_goes (control : C.control m.control) {make : Evaluation Unit}
    (made : C.Goes past m make fun _ past' m' =>
      past' = past ∧ Introduces env name m.store m'.store) (value : Value) :
    C.Goes past m (do make; setInitialBinding env name value) fun _ _ _ => True := by
  refine made.bind fun _ past' m' _ returns store' introduces => ?_
  obtain ⟨rfl, introduces⟩ := introduces
  refine (Goes.ask (Q := fun record past'' m'' =>
    record = (m'.store.environment env).record ∧ past'' = past' ∧ m'' = m') store'
    ⟨rfl, rfl, rfl⟩).bind fun record past'' m'' _ _ _ asked => ?_
  obtain ⟨eq, rfl, rfl⟩ := asked
  cases record with
  | object => exact setBinding_safe lawful env name value false _ _ store' (returns ▸ control)
  | declarative =>
    rcases introduces with ⟨binding, fresh, created⟩ | ⟨id, record⟩
    · exact .editBindings lawful.error store' fun _ initialized =>
        ⟨lawful.introduced fresh created initialized store, trivial⟩
    · rw [record] at eq
      cases eq

/-- A name that is not there yet may be declared. -/
theorem declare_goes (control : C.control m.control) (absent : m.store.hasBinding env name = false)
    (deletable : Bool) (value : Value) :
    C.Goes past m (declare env name deletable value) fun _ _ _ => True :=
  introduced_goes lawful store control (createMutable_introduces lawful store absent deletable)
    value

end

/-! ### References -/

omit lawful in
theorem resolve_safe (env : EnvironmentId) (name : String) (strict : Bool) :
    C.Safe (resolve env name strict) := .asked _

omit lawful in
theorem resolveHere_safe (name : String) : C.Safe (resolveHere name) :=
  .askingControl fun _ => .askingControl fun _ => resolve_safe _ name _

theorem deleteReference_safe (r : Reference) : C.Safe (deleteReference r) := by
  unfold deleteReference
  split
  · exact .pure trivial
  · refine (toObject_safe lawful _).bind fun id => ?_
    refine (lawful.delete id r.name).bind fun deleted => ?_
    split
    · exact failAsking_keeps lawful _ _
    · exact .pure trivial
  · exact deleteBinding_safe lawful _ r.name

end

section

variable {C : Contract} (lawful : C.Lawful) {call : Caller} (calls : C.Calls call)

include lawful calls

/-! ### Calls -/

theorem callValue_safe (f receiver : Value) (arguments : List Value) :
    C.Safe (callValue call f receiver arguments) := by
  unfold callValue
  split
  · refine .asking fun callable => ?_
    split
    · exact calls _ receiver arguments
    · exact failAsking_keeps lawful _ _
  · exact failAsking_keeps lawful _ _

theorem get_safe (id : ObjectId) (key : String) (receiver : Value) :
    C.Safe (get call id key receiver) := by
  refine .asking fun found => ?_
  split
  · exact .pure trivial
  · exact .pure trivial
  · exact .pure trivial
  · exact callValue_safe lawful calls _ receiver []

theorem getOwn_safe (id : ObjectId) (key : String) : C.Safe (getOwn call id key) :=
  get_safe lawful calls id key _

theorem getV_safe (base : Value) (key : String) : C.Safe (getV call base key) := by
  unfold getV
  split
  · exact get_safe lawful calls _ key _
  · exact failAsking_keeps lawful _ _
  · exact failAsking_keeps lawful _ _
  · split
    · exact .pure trivial
    · exact get_safe lawful calls _ key _
  · exact get_safe lawful calls _ key _
  · exact get_safe lawful calls _ key _

theorem set_safe (id : ObjectId) (key : String) (value receiver : Value) :
    C.Safe (set call id key value receiver) := by
  refine .asking fun found => ?_
  split
  · exact .pure trivial
  · exact .pure trivial
  · exact (callValue_safe lawful calls _ receiver [value]).bind fun _ => .pure trivial
  · split
    · exact setOwn_safe lawful _ key value
    · exact .pure trivial
  · split
    · exact setOwn_safe lawful _ key value
    · exact .pure trivial

theorem putV_safe (base : Value) (key : String) (value : Value) (strict : Bool) :
    C.Safe (putV call base key value strict) := by
  unfold putV
  split
  · refine (set_safe lawful calls _ key value _).bind fun written => ?_
    split
    · exact lawful.fail _
    · exact .pure trivial
  · exact failAsking_keeps lawful _ _
  · exact failAsking_keeps lawful _ _
  · split
    · exact .asking fun _ => .asking fun _ => lawful.fail _
    · exact .pure trivial

theorem construct_safe (f : Value) (arguments : List Value) :
    C.Safe (construct call f arguments) := by
  unfold construct
  split
  · refine .asking fun constructs => ?_
    split
    · exact failAsking_keeps lawful _ _
    · refine (getOwn_safe lawful calls _ "prototype").bind fun prototype => ?_
      -- The new object counts unless the function returns one of its own.
      refine (newObject_safe lawful _).bind fun receiver => ?_
      refine (callValue_safe lawful calls _ _ arguments).bind fun result => ?_
      split <;> exact .pure trivial
  · exact failAsking_keeps lawful _ _

theorem hasInstance_safe (f value : Value) : C.Safe (hasInstance call f value) := by
  unfold hasInstance
  split
  · refine .asking fun callable => ?_
    split
    · exact lawful.fail _
    · split
      · refine (getOwn_safe lawful calls _ "prototype").bind fun prototype => ?_
        split
        · exact .asked _
        · exact lawful.fail _
      · exact .pure trivial
  · exact lawful.fail _

/-! ### Conversions -/

theorem tryMethods_safe (id : ObjectId) (methods : List String) :
    C.Safe (tryMethods call id methods) := by
  induction methods with
  | nil => exact lawful.fail _
  | cons name rest ih =>
    -- A method that gives an object back is passed over, like one that is not there.
    refine (getOwn_safe lawful calls id name).bind fun method => .asking fun callable => ?_
    split
    · refine (callValue_safe lawful calls method _ []).bind fun result => ?_
      split
      · exact ih
      · exact .pure trivial
    · exact ih

theorem toPrimitive_safe (hint : Hint) (value : Value) : C.Safe (toPrimitive call hint value) := by
  unfold toPrimitive
  split
  · exact tryMethods_safe lawful calls _ _
  · exact .pure trivial

theorem toNumber_safe (value : Value) : C.Safe (toNumber call value) :=
  (toPrimitive_safe lawful calls .number value).map

theorem toText_safe (value : Value) : C.Safe (toText call value) :=
  (toPrimitive_safe lawful calls .string value).bind fun _ => .asked _

theorem toKey_safe (value : Value) : C.Safe (toKey call value) := toText_safe lawful calls value

theorem toInt32_safe (value : Value) : C.Safe (toInt32 call value) :=
  (toNumber_safe lawful calls value).map

theorem toUInt32_safe (value : Value) : C.Safe (toUInt32 call value) :=
  (toNumber_safe lawful calls value).map

/-! ### Reading and writing -/

theorem getValue_safe (r : Reference) : C.Safe (getValue call r) := by
  unfold getValue
  split
  · exact lawful.fail _
  · exact getV_safe lawful calls _ r.name
  · refine .asking fun record => ?_
    split
    · exact getBinding_safe lawful _ r.name r.strict
    -- An object environment may have lost the name since the reference was made.
    · refine .asking fun bound => ?_
      split
      · exact lawful.fail _
      · exact getOwn_safe lawful calls _ r.name

theorem putValue_safe (r : Reference) (value : Value) : C.Safe (putValue call r value) := by
  unfold putValue
  split
  · split
    · exact lawful.fail _
    · exact putV_safe lawful calls _ r.name value false
  · exact putV_safe lawful calls _ r.name value r.strict
  · refine .asking fun record => ?_
    split
    · exact setBinding_safe lawful _ r.name value r.strict
    · exact putV_safe lawful calls _ r.name value r.strict

theorem typeOfReference_safe (r : Reference) : C.Safe (typeOfReference call r) := by
  unfold typeOfReference
  split
  · exact .pure trivial
  · exact (getValue_safe lawful calls r).bind fun _ => .asked _

/-! ### Binary operators -/

theorem looselyEqual_safe (left right : Value) : C.Safe (looselyEqual call left right) := by
  unfold looselyEqual
  split
  · exact (toPrimitive_safe lawful calls _ _).bind fun _ => .pure trivial
  · exact (toPrimitive_safe lawful calls _ _).bind fun _ => .pure trivial
  · exact (toPrimitive_safe lawful calls _ _).bind fun _ => .pure trivial
  · exact (toPrimitive_safe lawful calls _ _).bind fun _ => .pure trivial
  · exact .pure trivial

theorem less_safe (left right : Value) (leftFirst : Bool) :
    C.Safe (less call left right leftFirst) := by
  unfold less
  split <;>
    exact (toPrimitive_safe lawful calls _ _).bind fun _ =>
      (toPrimitive_safe lawful calls _ _).bind fun _ => .pure trivial

omit lawful calls in
theorem addPlain_safe (left right : Value) : C.Safe (addPlain left right) := by
  unfold addPlain
  split
  · exact .asking fun _ => .asking fun _ => .pure trivial
  · exact .asking fun _ => .asking fun _ => .pure trivial
  · exact .pure trivial

theorem add_safe (left right : Value) : C.Safe (add call left right) :=
  (toPrimitive_safe lawful calls _ _).bind fun _ =>
    (toPrimitive_safe lawful calls _ _).bind fun _ => addPlain_safe _ _

theorem numeric_safe (operator : Number → Number → Number) (left right : Value) :
    C.Safe (numeric call operator left right) :=
  (toNumber_safe lawful calls left).bind fun _ =>
    (toNumber_safe lawful calls right).bind fun _ => .pure trivial

theorem bitwise_safe (operator : Int32 → Int32 → Int32) (left right : Value) :
    C.Safe (bitwise call operator left right) :=
  (toInt32_safe lawful calls left).bind fun _ =>
    (toInt32_safe lawful calls right).bind fun _ => .pure trivial

theorem toShift_safe (value : Value) : C.Safe (toShift call value) :=
  (toUInt32_safe lawful calls value).bind fun _ => .pure trivial

theorem shiftLeft_safe (left right : Value) : C.Safe (shiftLeft call left right) :=
  (toInt32_safe lawful calls left).bind fun _ =>
    (toShift_safe lawful calls right).bind fun _ => .pure trivial

theorem shiftRight_safe (left right : Value) : C.Safe (shiftRight call left right) :=
  (toInt32_safe lawful calls left).bind fun _ =>
    (toShift_safe lawful calls right).bind fun _ => .pure trivial

theorem shiftRightUnsigned_safe (left right : Value) :
    C.Safe (shiftRightUnsigned call left right) :=
  (toUInt32_safe lawful calls left).bind fun _ =>
    (toShift_safe lawful calls right).bind fun _ => .pure trivial

theorem instanceOf_safe (left right : Value) : C.Safe (instanceOf call left right) := by
  unfold instanceOf
  split
  · exact (hasInstance_safe lawful calls right left).bind fun _ => .pure trivial
  · exact lawful.fail _

theorem isIn_safe (left right : Value) : C.Safe (isIn call left right) := by
  unfold isIn
  split
  · exact (toKey_safe lawful calls left).bind fun _ => .asking fun _ => .pure trivial
  · exact .asking fun _ => .asking fun _ => lawful.fail _

theorem applyBinary_safe (operator : BinaryOperator) (left right : Value) :
    C.Safe (applyBinary call operator left right) := by
  cases operator with
  | looselyEqual | looselyUnequal => exact (looselyEqual_safe lawful calls left right).map
  | strictlyEqual | strictlyUnequal => exact .pure trivial
  | lessThan | greaterThanEqual => exact (less_safe lawful calls left right true).map
  | lessThanEqual | greaterThan => exact (less_safe lawful calls right left false).map
  | leftShift => exact shiftLeft_safe lawful calls left right
  | rightShift => exact shiftRight_safe lawful calls left right
  | unsignedRightShift => exact shiftRightUnsigned_safe lawful calls left right
  | add => exact add_safe lawful calls left right
  | subtract | multiply | divide | modulo => exact numeric_safe lawful calls _ left right
  | bitwiseOr | bitwiseXor | bitwiseAnd => exact bitwise_safe lawful calls _ left right
  | isIn => exact isIn_safe lawful calls left right
  | instanceOf => exact instanceOf_safe lawful calls left right

end

end ScriptEngine.Operation
