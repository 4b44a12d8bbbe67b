import ScriptEngine.Evaluate.Declaration
import ScriptEngine.Operation.Access
import ScriptEngine.Operation.Binary
import ScriptEngine.Operation.Reference
import ScriptEngine.Proofs.Evaluation.Run

/-!
# Relations that evaluations keep

Some things can be said of all that the engine does just because of what it is put together of: what
does a single thing is related to itself, and evaluations one after the other are related where
their parts are. Whatever relation that is (`Evaluation.Congruence`), the operations on values and
environments are related to themselves, given calls of functions that are related. A property of
single evaluations is a relation in which the second one does not count.
-/
namespace ScriptEngine

/-- A relation between evaluations that holds of everything that does a single thing, and that is
kept where evaluations follow each other. -/
structure Evaluation.Congruence where
  Holds {α : Type} : Evaluation α → Evaluation α → Prop
  ending {α : Type} (outcome : Outcome α) : Holds (.ending outcome) (.ending outcome)
  ask {α : Type} (question : Store → α) : Holds (.ask question) (.ask question)
  askDepth : Holds (.askControl (·.depth)) (.askControl (·.depth))
  note (event : Event) : Holds (.note event) (.note event)
  noteIf (reason : Store → Bool) (event : Event) :
    Holds (.noteIf reason event) (.noteIf reason event)
  compiling : Holds .compiling .compiling
  step {α : Type} (change : Store → α × Store) (h : ∀ s : Store, s.Step (change s).2) :
    Holds (.step change h) (.step change h)
  editBindings (env : EnvironmentId) (edit : Bindings → Except Cause Bindings)
    (step : ∀ s t : Store, s.editBindings env edit = (.ok (), t) → s.Step t) :
    Holds (.editBindings env edit step) (.editBindings env edit step)
  bind {α β : Type} {x y : Evaluation α} {f g : α → Evaluation β} :
    Holds x y → (∀ a, Holds (f a) (g a)) → Holds (x >>= f) (y >>= g)
  reporting {α : Type} {x y : Evaluation α} : Holds x y → Holds (.reporting x) (.reporting y)

namespace Evaluation.Congruence

/-- The evaluation is related to itself. -/
abbrev Covers {α : Type} (R : Congruence) (x : Evaluation α) : Prop := R.Holds x x

/-- The calls of all functions are related. -/
def Callers (R : Congruence) (call call' : Caller) : Prop :=
  ∀ f receiver arguments, R.Holds (call f receiver arguments) (call' f receiver arguments)

namespace Holds

variable {R : Congruence} {α β σ : Type} {x y : Evaluation α} {f g : α → Evaluation β}

protected theorem pure (a : α) : R.Covers (pure a) := R.ending _

protected theorem raise (r : Raised) : R.Holds (raise r : Evaluation α) (raise r) := R.ending _

protected theorem fail (cause : Cause) : R.Holds (fail cause : Evaluation α) (fail cause) :=
  .raise _

protected theorem bind (first : R.Holds x y) (second : ∀ a, R.Holds (f a) (g a)) :
    R.Holds (x >>= f) (y >>= g) := R.bind first second

/-- The store may be asked anything on the way. -/
theorem asking {question : Store → α} (second : ∀ a, R.Holds (f a) (g a)) :
    R.Holds (Evaluation.ask question >>= f) (Evaluation.ask question >>= g) :=
  .bind (R.ask question) second

/-- What is made of a value without evaluating anything further. -/
protected theorem map {h : α → β} (inside : R.Holds x y) : R.Holds (h <$> x) (h <$> y) :=
  .bind inside fun _ => .pure _

/-- As `map`, for a value that is given a name. -/
theorem returning {h : α → β} (inside : R.Holds x y) :
    R.Holds (x >>= fun a => pure (h a)) (y >>= fun a => pure (h a)) :=
  .bind inside fun _ => .pure _

/-- As `map`, where the store is asked about the value. -/
theorem questioning {question : α → Store → β} (inside : R.Holds x y) :
    R.Holds (x >>= fun a => Evaluation.ask (question a))
      (y >>= fun a => Evaluation.ask (question a)) :=
  .bind inside fun _ => R.ask _

protected theorem allocate (o : Object) (h : o.WellFormed) : R.Covers (allocate o h) := R.step _ _

protected theorem define (id : ObjectId) (key : String) (d : Descriptor) :
    R.Covers (define id key d) := R.step _ _

protected theorem openEnvironment (outer : Option EnvironmentId) :
    R.Covers (openEnvironment outer) := R.step _ _

protected theorem forM {each each' : σ → Evaluation Unit} {items : List σ}
    (related : ∀ a ∈ items, R.Holds (each a) (each' a)) :
    R.Holds (items.forM each) (items.forM each') := by
  induction items with
  | nil => exact .pure ()
  | cons a rest ih =>
    obtain ⟨now, later⟩ := List.forall_mem_cons.1 related
    exact .bind now fun _ => ih later

end Holds

end Evaluation.Congruence

open Evaluation Congruence

/-! ## Operations without calls -/

namespace Operation

variable {R : Congruence}

/-! ### Objects -/

theorem defineOrFail_related (id : ObjectId) (key : String) (d : Descriptor) :
    R.Covers (defineOrFail id key d) := by
  refine .bind (.define _ _ _) fun defined => ?_
  cases defined with
  | true => exact .pure ()
  | false => exact .fail _

theorem setOwn_related (id : ObjectId) (key : String) (value : Value) :
    R.Covers (setOwn id key value) := by
  refine .asking fun own => ?_
  match own with
  | some (.data _ true ..) | none => exact .define _ _ _
  | some (.data _ false ..) | some (.accessor ..) => exact .pure _

theorem newObject_related (prototype : ObjectId) : R.Covers (newObject prototype) := .allocate _ _

theorem newArray_related (places : List (Option Value)) : R.Covers (newArray places) :=
  .allocate _ _

theorem toObject_related (value : Value) : R.Covers (toObject value) := by
  cases value with
  | object => exact .pure _
  | string text => exact .allocate _ (Object.wellFormed_of_not_array rfl)
  | boolean | number => exact newObject_related _
  | undefined | null => exact .asking fun _ => .fail _

/-! ### Bindings -/

theorem create_related (env : EnvironmentId) (name : String) (binding : Binding)
    (fresh : binding.value = none) : R.Covers (create env name binding fresh) :=
  .bind (R.noteIf _ _) fun _ => R.editBindings _ _ _

theorem createMutable_related (env : EnvironmentId) (name : String) (deletable : Bool) :
    R.Covers (createMutable env name deletable) := by
  refine .asking fun record => ?_
  cases record with
  | declarative => exact create_related env name _ _
  | object id =>
    refine .bind (.define _ _ _) fun defined => ?_
    cases defined with
    | true => exact .pure ()
    | false => exact .fail _

theorem createImmutable_related (env : EnvironmentId) (name : String) (strict : Bool) :
    R.Covers (createImmutable env name strict) := by
  refine .asking fun record => ?_
  cases record with
  | declarative => exact create_related env name _ _
  | object id => exact .fail _

theorem setBinding_related (env : EnvironmentId) (name : String) (value : Value) (strict : Bool) :
    R.Covers (setBinding env name value strict) := by
  refine .asking fun record => ?_
  cases record with
  | declarative => exact R.editBindings _ _ _
  | object id =>
    refine .bind (setOwn_related id name value) fun written => ?_
    split
    · exact .fail _
    · exact .pure ()

theorem setInitialBinding_related (env : EnvironmentId) (name : String) (value : Value) :
    R.Covers (setInitialBinding env name value) := by
  refine .asking fun record => ?_
  cases record with
  | declarative => exact R.editBindings _ _ _
  | object id => exact setBinding_related env name value false

theorem createLexical_related (env : EnvironmentId) (name : String) (isConst : Bool) :
    R.Covers (createLexical env name isConst) := by
  cases isConst with
  | true => exact .bind (createImmutable_related env name true) fun _ => R.note _
  | false => exact .bind (createMutable_related env name false) fun _ => R.note _

theorem initializeLexical_related (env : EnvironmentId) (name : String) (value : Value) :
    R.Covers (initializeLexical env name value) :=
  .bind (R.note _) fun _ => setInitialBinding_related env name value

theorem getBinding_related (env : EnvironmentId) (name : String) (strict : Bool) :
    R.Covers (getBinding env name strict) := by
  refine .asking fun record => ?_
  cases record with
  | declarative bindings =>
    dsimp only
    cases bindings.read name with
    | ok value => exact .pure value
    | error cause => exact .fail cause
  | object id =>
    refine .asking fun found => ?_
    match found with
    | some (.data ..) | some (.accessor ..) => exact .pure _
    | none =>
      cases strict with
      | true => exact .fail _
      | false => exact .pure _

theorem deleteBinding_related (env : EnvironmentId) (name : String) :
    R.Covers (deleteBinding env name) := by
  refine .asking fun record => ?_
  cases record with
  | declarative => exact .bind (R.editBindings _ _ _) fun _ => .pure _
  | object id => exact R.step _ _

theorem declare_related (env : EnvironmentId) (name : String) (deletable : Bool) (value : Value) :
    R.Covers (declare env name deletable value) :=
  .bind (createMutable_related env name deletable)
    fun _ => setInitialBinding_related env name value

theorem deleteReference_related (r : Reference) : R.Covers (deleteReference r) := by
  obtain ⟨base, name, strict⟩ := r
  cases base with
  | unresolvable => exact .pure _
  | property base =>
    refine .bind (toObject_related base) fun id => .bind (R.step _ _) fun deleted => ?_
    dsimp only
    split
    · exact .asking fun _ => .fail _
    · exact .pure _
  | environment env => exact deleteBinding_related env name

end Operation

/-! ## Operations with calls -/

namespace Operation

variable {R : Congruence} {call call' : Caller} (calls : R.Callers call call')

include calls

/-! ### Properties and calls -/

theorem callValue_related (f receiver : Value) (arguments : List Value) :
    R.Holds (callValue call f receiver arguments) (callValue call' f receiver arguments) := by
  cases f with
  | object id =>
    refine .asking fun callable => ?_
    cases callable with
    | true => exact calls id receiver arguments
    | false => exact .asking fun _ => .fail _
  | _ => exact .asking fun _ => .fail _

theorem get_related (id : ObjectId) (key : String) (receiver : Value) :
    R.Holds (get call id key receiver) (get call' id key receiver) := by
  refine .asking fun found => ?_
  match found with
  | none | some (.accessor none ..) | some (.data ..) => exact .pure _
  | some (.accessor (some getter) ..) => exact callValue_related calls _ _ _

theorem getOwn_related (id : ObjectId) (key : String) :
    R.Holds (getOwn call id key) (getOwn call' id key) := get_related calls id key (.object id)

theorem getV_related (base : Value) (key : String) :
    R.Holds (getV call base key) (getV call' base key) := by
  cases base with
  | object id => exact get_related calls id key _
  | undefined | null => exact .asking fun _ => .fail _
  | boolean | number => exact get_related calls _ key _
  | string text =>
    unfold getV
    dsimp only
    split
    · exact .pure _
    · exact get_related calls _ key _

theorem set_related (id : ObjectId) (key : String) (value receiver : Value) :
    R.Holds (set call id key value receiver) (set call' id key value receiver) := by
  refine .asking fun found => ?_
  match found with
  | some (.data _ false ..) | some (.accessor _ none ..) => exact .pure _
  | some (.accessor _ (some setter) ..) => exact .returning (callValue_related calls _ _ _)
  | some (.data _ true ..) | none =>
    cases receiver with
    | object receiver => exact setOwn_related receiver key value
    | _ => exact .pure _

theorem putV_related (base : Value) (key : String) (value : Value) (strict : Bool) :
    R.Holds (putV call base key value strict) (putV call' base key value strict) := by
  cases base with
  | object id =>
    refine .bind (set_related calls id key value _) fun written => ?_
    split
    · exact .fail _
    · exact .pure ()
  | undefined | null => exact .asking fun _ => .fail _
  | boolean | number | string =>
    cases strict with
    | true => exact .asking fun _ => .asking fun _ => .fail _
    | false => exact .pure ()

theorem construct_related (f : Value) (arguments : List Value) :
    R.Holds (construct call f arguments) (construct call' f arguments) := by
  cases f with
  | object id =>
    refine .asking fun constructor => ?_
    cases constructor with
    | true =>
      refine .bind (getOwn_related calls id "prototype") fun prototype => ?_
      refine .bind (newObject_related _) fun receiver => ?_
      refine .bind (callValue_related calls _ _ arguments) fun result => ?_
      cases result <;> exact .pure _
    | false => exact .asking fun _ => .fail _
  | _ => exact .asking fun _ => .fail _

theorem hasInstance_related (f value : Value) :
    R.Holds (hasInstance call f value) (hasInstance call' f value) := by
  cases f with
  | object id =>
    refine .asking fun callable => ?_
    cases callable with
    | true =>
      cases value with
      | object =>
        refine .bind (getOwn_related calls id "prototype") fun prototype => ?_
        cases prototype with
        | object => exact R.ask _
        | _ => exact .fail _
      | _ => exact .pure _
    | false => exact .fail _
  | _ => exact .fail _

/-! ### Conversions -/

theorem tryMethods_related (id : ObjectId) (names : List String) :
    R.Holds (tryMethods call id names) (tryMethods call' id names) := by
  induction names with
  | nil => exact .fail _
  | cons name rest ih =>
    refine .bind (getOwn_related calls id name) fun method => .asking fun callable => ?_
    cases callable with
    | true =>
      refine .bind (callValue_related calls method _ []) fun result => ?_
      cases result with
      | object => exact ih
      | _ => exact .pure _
    | false => exact ih

theorem toPrimitive_related (hint : Hint) (value : Value) :
    R.Holds (toPrimitive call hint value) (toPrimitive call' hint value) := by
  cases value with
  | object id => exact tryMethods_related calls id hint.methods
  | _ => exact .pure _

theorem toNumber_related (value : Value) : R.Holds (toNumber call value) (toNumber call' value) :=
  .map (toPrimitive_related calls .number value)

theorem toText_related (value : Value) : R.Holds (toText call value) (toText call' value) :=
  .questioning (toPrimitive_related calls .string value)

theorem toKey_related (value : Value) : R.Holds (toKey call value) (toKey call' value) :=
  toText_related calls value

theorem toInt32_related (value : Value) : R.Holds (toInt32 call value) (toInt32 call' value) :=
  .map (toNumber_related calls value)

theorem toUInt32_related (value : Value) : R.Holds (toUInt32 call value) (toUInt32 call' value) :=
  .map (toNumber_related calls value)

/-! ### References -/

theorem getValue_related (r : Reference) : R.Holds (getValue call r) (getValue call' r) := by
  obtain ⟨base, name, strict⟩ := r
  cases base with
  | unresolvable => exact .fail _
  | property base => exact getV_related calls base name
  | environment env =>
    refine .asking fun record => ?_
    cases record with
    | declarative => exact getBinding_related env name strict
    | object id =>
      have reads := getOwn_related calls id name
      cases strict with
      | false => exact reads
      | true =>
        refine .asking fun known => ?_
        cases known with
        | true => exact reads
        | false => exact .fail _

theorem putValue_related (r : Reference) (value : Value) :
    R.Holds (putValue call r value) (putValue call' r value) := by
  obtain ⟨base, name, strict⟩ := r
  cases base with
  | unresolvable =>
    cases strict with
    | true => exact .fail _
    | false => exact putV_related calls (.object WellKnown.globalObject) name value false
  | property base => exact putV_related calls base name value strict
  | environment env =>
    refine .asking fun record => ?_
    cases record with
    | declarative => exact setBinding_related env name value strict
    | object id => exact putV_related calls _ name value strict

theorem typeOfReference_related (r : Reference) :
    R.Holds (typeOfReference call r) (typeOfReference call' r) := by
  unfold typeOfReference
  split
  · exact .pure _
  · exact .questioning (getValue_related calls r)

/-! ### Binary operators -/

theorem looselyEqual_related (left right : Value) :
    R.Holds (looselyEqual call left right) (looselyEqual call' left right) := by
  unfold looselyEqual
  split
  · exact .returning (toPrimitive_related calls _ _)
  · exact .returning (toPrimitive_related calls _ _)
  · exact .returning (toPrimitive_related calls _ _)
  · exact .returning (toPrimitive_related calls _ _)
  · exact .pure _

theorem less_related (left right : Value) (leftFirst : Bool) :
    R.Holds (less call left right leftFirst) (less call' left right leftFirst) := by
  have converts := toPrimitive_related calls .number
  cases leftFirst with
  | true => exact .bind (converts left) fun _ => .returning (converts right)
  | false => exact .bind (converts right) fun _ => .returning (converts left)

omit calls in
theorem addPlain_related (left right : Value) : R.Covers (addPlain left right) := by
  unfold addPlain
  split
  · exact .asking fun _ => .asking fun _ => .pure _
  · exact .asking fun _ => .asking fun _ => .pure _
  · exact .pure _

theorem add_related (left right : Value) :
    R.Holds (add call left right) (add call' left right) :=
  .bind (toPrimitive_related calls _ left) fun _ =>
    .bind (toPrimitive_related calls _ right) fun _ => addPlain_related _ _

theorem numeric_related (operator : Number → Number → Number) (left right : Value) :
    R.Holds (numeric call operator left right) (numeric call' operator left right) :=
  .bind (toNumber_related calls left) fun _ => .returning (toNumber_related calls right)

theorem bitwise_related (operator : Int32 → Int32 → Int32) (left right : Value) :
    R.Holds (bitwise call operator left right) (bitwise call' operator left right) :=
  .bind (toInt32_related calls left) fun _ => .returning (toInt32_related calls right)

theorem toShift_related (value : Value) : R.Holds (toShift call value) (toShift call' value) :=
  .returning (toUInt32_related calls value)

theorem instanceOf_related (left right : Value) :
    R.Holds (instanceOf call left right) (instanceOf call' left right) := by
  unfold instanceOf
  split
  · exact .returning (hasInstance_related calls right left)
  · exact .fail _

theorem isIn_related (left right : Value) :
    R.Holds (isIn call left right) (isIn call' left right) := by
  cases right with
  | object id => exact .bind (toKey_related calls left) fun _ => .asking fun _ => .pure _
  | _ => exact .asking fun _ => .asking fun _ => .fail _

theorem applyBinary_related (operator : BinaryOperator) (left right : Value) :
    R.Holds (applyBinary call operator left right) (applyBinary call' operator left right) := by
  have shifts := toShift_related calls right
  cases operator with
  | looselyEqual | looselyUnequal => exact .map (looselyEqual_related calls left right)
  | strictlyEqual | strictlyUnequal => exact .pure _
  | lessThan | greaterThanEqual => exact .map (less_related calls left right true)
  | lessThanEqual | greaterThan => exact .map (less_related calls right left false)
  | leftShift | rightShift => exact .bind (toInt32_related calls left) fun _ => .returning shifts
  | unsignedRightShift => exact .bind (toUInt32_related calls left) fun _ => .returning shifts
  | add => exact add_related calls left right
  | subtract | multiply | divide | modulo => exact numeric_related calls _ left right
  | bitwiseOr | bitwiseXor | bitwiseAnd => exact bitwise_related calls _ left right
  | isIn => exact isIn_related calls left right
  | instanceOf => exact instanceOf_related calls left right

end Operation

/-! ## Functions and declarations -/

namespace Evaluate

open Operation

variable {R : Congruence}

theorem newFunction_related (code : FunctionCode) (env : EnvironmentId) (name : String) :
    R.Covers (newFunction code env name) :=
  .bind (.allocate _ _) fun _ => .bind (.allocate _ _) fun _ => .returning (.define _ _ _)

theorem caught_related (r : Raised) : R.Covers (caught r) := by
  cases r with
  | thrown value => exact .pure value
  | error cause => exact .returning (.allocate _ _)
  | fault fault => exact .raise _

theorem declareLexical_related (env : EnvironmentId) (scope : Scope) :
    R.Covers (declareLexical env scope) :=
  .forM fun lexical _ => createLexical_related env lexical.name lexical.isConst

theorem declareOnce_related (env : EnvironmentId) (deletable : Bool) (name : String) :
    R.Covers (declareOnce env deletable name) := by
  refine .asking fun there => ?_
  cases there with
  | true => exact .pure ()
  | false => exact declare_related env name deletable _

theorem bindFunction_related (env : EnvironmentId) (deletable : Bool) (name : String)
    (f : ObjectId) : R.Covers (bindFunction env deletable name f) := by
  refine .asking fun there => ?_
  cases there with
  | true => exact setBinding_related env name _ false
  | false => exact declare_related env name deletable _

theorem declareInside_related (varScope : EnvironmentId) (deletable : Bool) (scope : Scope) :
    R.Covers (declareInside varScope deletable scope) := by
  have lexical : R.Covers (lexicalScope varScope scope) := by
    unfold lexicalScope
    split
    · exact .pure _
    · exact .bind (.openEnvironment _) fun env => .returning (declareLexical_related env scope)
  refine .bind lexical fun env => .returning (.forM fun code _ => ?_)
  exact .bind (newFunction_related code env _) fun f => bindFunction_related varScope deletable _ f

theorem declareBlock_related (env : EnvironmentId) (scope : Scope) :
    R.Covers (declareBlock env scope) := by
  refine .bind (declareLexical_related env scope) fun _ => .forM fun code _ => ?_
  refine .bind (newFunction_related code env _) fun f => .asking fun there => ?_
  cases there with
  | true => exact setInitialBinding_related env _ _
  | false =>
    exact .bind (createMutable_related env _ false) fun _ => setInitialBinding_related env _ _

/-! ### Functions that are called -/

theorem assignParameters_related (env : EnvironmentId) (parameters : List Identifier)
    (arguments : List Value) : R.Covers (assignParameters env parameters arguments) := by
  induction parameters generalizing arguments with
  | nil => exact .pure ()
  | cons parameter rest ih =>
    exact .bind (setBinding_related env parameter.name _ false) fun _ => ih arguments.tail

theorem newArguments_related (f : ObjectId) (arguments : List Value) (strict : Bool) :
    R.Covers (newArguments f arguments strict) :=
  .allocate _ (Object.wellFormed_of_not_array rfl)

theorem declareVariables_related (f : ObjectId) (code : FunctionCode) (env : EnvironmentId)
    (arguments : List Value) : R.Covers (declareVariables f code env arguments) := by
  have once := fun name => declareOnce_related (R := R) env false name
  unfold declareVariables
  extract_lets _ declareRest
  have rest : ∀ object, R.Covers (declareRest object) := by
    intro object
    refine .bind (.forM fun parameter _ => once parameter.name) fun _ => ?_
    refine .bind (assignParameters_related env code.parameters arguments) fun _ => ?_
    cases object with
    | none => exact .forM fun name _ => once name
    | some object =>
      have bound : R.Covers (do
          setInitialBinding env "arguments" (.object object)
          code.scope.varNames.forM (declareOnce env false)) :=
        .bind (setInitialBinding_related env _ _) fun _ => .forM fun name _ => once name
      cases code.strict with
      | true => exact .bind (createImmutable_related env _ false) fun _ => bound
      | false => exact .bind (createMutable_related env _ false) fun _ => bound
  cases bindsArguments code with
  | true => exact .bind (.map (newArguments_related f arguments code.strict)) rest
  | false => exact .bind (.pure none) rest

theorem declareCall_related (f : ObjectId) (code : FunctionCode) (env : EnvironmentId)
    (arguments : List Value) : R.Covers (declareCall f code env arguments) :=
  .bind (declareVariables_related f code env arguments)
    fun _ => declareInside_related env false code.scope

/-! ### Scripts -/

theorem failOnDeclared_related (env : EnvironmentId) (names : List String) :
    R.Covers (failOnDeclared env names) := by
  refine .forM fun name _ => .asking fun there => ?_
  cases there with
  | true => exact .fail _
  | false => exact .pure ()

theorem checkGlobalFunction_related (code : FunctionCode) : R.Covers (checkGlobalFunction code) :=
  by
  refine .asking fun declarable => ?_
  cases declarable with
  | true => exact .pure ()
  | false => exact .fail _

theorem declareGlobalFunction_related (env : EnvironmentId) (code : FunctionCode) :
    R.Covers (declareGlobalFunction env code) :=
  .bind (newFunction_related code env _) fun _ => .asking fun _ => defineOrFail_related _ _ _

theorem declareGlobalVariable_related (name : String) : R.Covers (declareGlobalVariable name) := by
  refine .asking fun there => ?_
  cases there with
  | true => exact .pure ()
  | false => exact createMutable_related _ name false

theorem declareGlobal_related (env : EnvironmentId) (scope : Scope) :
    R.Covers (declareGlobal env scope) := by
  refine .bind (.forM fun lexical _ => ?_) fun _ => ?_
  · refine .asking fun bound => .asking fun restricted => ?_
    cases bound || restricted with
    | true => exact .fail _
    | false => exact .pure ()
  refine .bind (failOnDeclared_related env _) fun _ => ?_
  refine .bind (.forM fun code _ => checkGlobalFunction_related code) fun _ => ?_
  refine .bind (.forM fun code _ => declareGlobalFunction_related env code) fun _ => ?_
  refine .bind (.forM fun name _ => declareGlobalVariable_related name) fun _ => ?_
  exact declareLexical_related env scope

theorem declareScript_related (env : EnvironmentId) (scope : Scope) :
    R.Covers (declareScript env scope) := by
  unfold declareScript
  split
  · exact .returning (declareGlobal_related env scope)
  · exact .bind (.forM fun name _ => declareOnce_related env true name)
      fun _ => declareInside_related env true scope

end Evaluate

end ScriptEngine
