import ScriptEngine.Engine.Engine
import ScriptEngine.Proofs.Evaluation.Run

/-!
# Loose equality

The operator `==` on two primitive values runs nothing: a boolean stands for its number, a number is
compared with a text as a number, and all else is compared as `===` does. Main results: the order of
two primitive values does not matter (`looselyEqualPlain_comm`), values of one type are compared as
`===` does (`looselyEqualPlain_of_type_eq`), and `undefined` and `null` are equal to themselves and
each other only (`looselyEqualPlain_of_isNullish`). An object that is compared with a number, a text
or a boolean becomes a primitive value first, on either side (`looselyEqual_object_left`,
`looselyEqual_object_right`). All of it together is `looselyEqual_laws`. That the comparison is the one
of the language, which converts a side and starts over, is `looselyEqual_run_eq`.
-/
namespace ScriptEngine

/-! ## Equality of numbers -/

namespace Binary64

open Float.Model (UnpackedFloat)

/-- What a double is to another one, seen from the other one. -/
theorem compare_swap (a b : UnpackedFloat) : a.compare b = (b.compare a).map Ordering.swap := by
  have magnitudes (e e' : Int) (m m' : Nat) :
      (compare e e').then (compare m m') = ((compare e' e).then (compare m' m)).swap := by
    rw [Ordering.swap_then, ← Std.OrientedCmp.eq_swap, ← Std.OrientedCmp.eq_swap]
  -- Exponents and mantissas only matter between two finite doubles of the same sign.
  rcases a with ⟨_ | _⟩ | _ | _ | ⟨_ | _, m, e⟩ <;>
    rcases b with ⟨_ | _⟩ | _ | _ | ⟨_ | _, m', e'⟩ <;> first
      | rfl
      | exact congrArg some (magnitudes e e' m m')
      | exact congrArg (fun order => some order.swap) (magnitudes e e' m m')

theorem beq_comm (x y : Float) : (x == y) = (y == x) := by
  change (x.toModel.unpack.compare y.toModel.unpack == some .eq) =
    (y.toModel.unpack.compare x.toModel.unpack == some .eq)
  rw [compare_swap]
  cases y.toModel.unpack.compare x.toModel.unpack with
  | none => rfl
  | some order => cases order <;> rfl

end Binary64

theorem Number.equal_comm (a b : Number) : a.equal b = b.equal a := by
  cases a <;> cases b <;> first
    | rfl
    | exact Binary64.beq_comm _ _
    | exact Bool.beq_comm

/-! ## Types -/

/-- The types of the language. -/
inductive ValueType where
  | undefined
  | null
  | boolean
  | string
  | number
  | object
deriving DecidableEq

def Value.type : Value → ValueType
  | .undefined => .undefined
  | .null => .null
  | .boolean _ => .boolean
  | .string _ => .string
  | .number _ => .number
  | .object _ => .object

/-- A number, a text or a boolean: what an object is converted for when it is compared. -/
def ValueType.IsScalar (type : ValueType) : Prop :=
  type = .number ∨ type = .string ∨ type = .boolean

namespace Operation

open Evaluation

/-! ## Primitive values -/

theorem isObject_unboolean (value : Value) : (unboolean value).isObject = value.isObject := by
  cases value <;> rfl

theorem looselyEqualPlain_comm (a b : Value) : looselyEqualPlain a b = looselyEqualPlain b a := by
  cases a <;> cases b <;> first
    | rfl
    | exact Number.equal_comm _ _
    | exact Bool.beq_comm

/-- Two booleans are equal if their numbers are. -/
theorem equal_plainNumber_boolean (a b : Bool) :
    (plainNumber (.boolean a)).equal (plainNumber (.boolean b)) = (a == b) := by
  cases a <;> cases b <;> rfl

/-- Nothing is converted between values of one type. -/
theorem looselyEqualPlain_of_type_eq {a b : Value} (same : a.type = b.type) :
    looselyEqualPlain (unboolean a) (unboolean b) = a.strictlyEqual b := by
  cases a <;> cases b <;> first
    | rfl
    | exact equal_plainNumber_boolean _ _
    | cases same

/-- `undefined` and `null` are never converted. -/
theorem looselyEqualPlain_of_isNullish {a b : Value} (nullish : a.isNullish ∨ b.isNullish) :
    looselyEqualPlain (unboolean a) (unboolean b) = true ↔ a.isNullish ∧ b.isNullish := by
  cases a <;> cases b <;>
    simp_all [Value.isNullish, unboolean, looselyEqualPlain, Value.strictlyEqual]

variable (call : Caller) (m : Machine)

/-- Primitive values are compared without running anything. -/
theorem looselyEqual_run_of_primitive {a b : Value} (left : a.isObject = false)
    (right : b.isObject = false) :
    (looselyEqual call a b).run m =
      (.value (looselyEqualPlain (unboolean a) (unboolean b)), m) := by
  rw [← isObject_unboolean] at left right
  unfold looselyEqual
  -- The two matches with an object do not apply.
  generalize unboolean a = a at *
  generalize unboolean b = b at *
  cases a <;> cases b <;> first
    | rfl
    | exact Bool.noConfusion left
    | exact Bool.noConfusion right

/-! ## Objects -/

/-- The methods of an object are tried until one gives a primitive value. -/
theorem isObject_of_tryMethods {o : ObjectId} {names : List String} {m after : Machine} {q : Value}
    (ended : (tryMethods call o names).run m = (.value q, after)) : q.isObject = false := by
  induction names generalizing m with
  | nil => cases ended
  | cons name rest ih =>
    rw [tryMethods] at ended
    obtain ⟨method, read, -, ended⟩ := bind_eq_value ended
    obtain ⟨callable, asked, -, ended⟩ := bind_eq_value ended
    split at ended
    · obtain ⟨result, returned, -, ended⟩ := bind_eq_value ended
      split at ended
      · exact ih ended
      next primitive =>
        cases ended
        simpa using primitive
    · exact ih ended

theorem isObject_of_toPrimitive {hint : Hint} {value q : Value} {m after : Machine}
    (ended : (toPrimitive call hint value).run m = (.value q, after)) : q.isObject = false := by
  cases value with
  | object o => exact isObject_of_tryMethods call ended
  | _ =>
    cases ended
    rfl

/-- Two evaluations go on in the same way if they do so on every primitive value. -/
theorem run_toPrimitive_bind_congr {α : Type} {hint : Hint} {value : Value}
    {f g : Value → Evaluation α} {m : Machine}
    (alike : ∀ q after, q.isObject = false → (f q).run after = (g q).run after) :
    (toPrimitive call hint value >>= f).run m = (toPrimitive call hint value >>= g).run m := by
  rw [run_bind, run_bind]
  cases ended : (toPrimitive call hint value).run m with
  | mk outcome after =>
    cases outcome with
    | value q => exact alike q after (isObject_of_toPrimitive call ended)
    | raised | exhausted => rfl

section

variable {p : Value} (scalar : p.type.IsScalar) (o : ObjectId)

include scalar

theorem isObject_of_isScalar : p.isObject = false := by
  cases p <;> first
    | rfl
    | simp [ValueType.IsScalar, Value.type] at scalar

/-- An object on the left is converted, and then compared. -/
theorem looselyEqual_object_left :
    (looselyEqual call (.object o) p).run m =
      (toPrimitive call .default (.object o) >>= fun q => looselyEqual call q p).run m := by
  have converts : looselyEqual call (.object o) p =
      toPrimitive call .default (.object o) >>= fun q =>
        pure (looselyEqualPlain (unboolean q) (unboolean p)) := by
    cases p <;> first
      | rfl
      | simp [ValueType.IsScalar, Value.type] at scalar
  rw [converts]
  apply run_toPrimitive_bind_congr
  intro q after primitive
  rw [looselyEqual_run_of_primitive call after primitive (isObject_of_isScalar scalar)]
  rfl

/-- An object on the right is converted as well, and its value compared from either side. -/
theorem looselyEqual_object_right :
    (looselyEqual call p (.object o)).run m =
      (toPrimitive call .default (.object o) >>= fun q => looselyEqual call q p).run m := by
  have converts : looselyEqual call p (.object o) =
      toPrimitive call .default (.object o) >>= fun q =>
        pure (looselyEqualPlain (unboolean p) (unboolean q)) := by
    cases p <;> first
      | rfl
      | simp [ValueType.IsScalar, Value.type] at scalar
  rw [converts]
  apply run_toPrimitive_bind_congr
  intro q after primitive
  rw [looselyEqual_run_of_primitive call after primitive (isObject_of_isScalar scalar),
    looselyEqualPlain_comm]
  rfl

end

/-! ## The comparison as it is described -/

/-- One step of the comparison as the language describes it: it converts one side and compares
again. -/
def looselyEqualStep (again : Value → Value → Evaluation Bool) (a b : Value) : Evaluation Bool :=
  match a, b with
  | .undefined, .null | .null, .undefined => return true
  | .number _, .string _ | .string _, .number _ => do
    let x ← toNumber call a
    let y ← toNumber call b
    return x.equal y
  | .boolean _, _ => do again (.number (← toNumber call a)) b
  | _, .boolean _ => do again a (.number (← toNumber call b))
  | .number _, .object _ | .string _, .object _ => do again a (← toPrimitive call .default b)
  | .object _, .number _ | .object _, .string _ => do again (← toPrimitive call .default a) b
  | _, _ => return a.strictlyEqual b

/-- Every comparison is one such step that goes on with comparisons. -/
theorem looselyEqual_run_eq (a b : Value) :
    (looselyEqual call a b).run m = (looselyEqualStep call (looselyEqual call) a b).run m := by
  -- What a scalar is compared with last is primitive, so the sides may be exchanged.
  have exchanged : ∀ {p : Value} {o : ObjectId}, p.type.IsScalar →
      (looselyEqual call p (.object o)).run m =
        (toPrimitive call .default (.object o) >>= fun q => looselyEqual call p q).run m := by
    intro p o scalar
    rw [looselyEqual_object_right call m scalar]
    apply run_toPrimitive_bind_congr
    intro q after primitive
    have other := isObject_of_isScalar scalar
    rw [looselyEqual_run_of_primitive call after primitive other,
      looselyEqual_run_of_primitive call after other primitive, looselyEqualPlain_comm]
  cases a with
  | object o =>
    cases b with
    | number => exact looselyEqual_object_left call m (.inl rfl) o
    | string => exact looselyEqual_object_left call m (.inr (.inl rfl)) o
    | _ => rfl
  | number =>
    cases b with
    | object => exact exchanged (.inl rfl)
    | _ => rfl
  | string =>
    cases b with
    | object => exact exchanged (.inr (.inl rfl))
    | _ => rfl
  | _ => cases b <;> rfl

/-- Comparing two primitive values with `==` always has an answer and changes nothing. The answer
is the same in either order; it is that of `===` for values of one type, and says of `undefined` and
`null` that they are equal to themselves and each other only. Comparing an object with a number, a
text or a boolean, in either order, is converting the object to a primitive value and comparing
that. -/
theorem looselyEqual_laws :
    (∀ a b : Value, a.isObject = false → b.isObject = false →
      ∃ answer : Bool,
        (∀ (call : Caller) (m : Machine), (looselyEqual call a b).run m = (.value answer, m)) ∧
        (∀ (call : Caller) (m : Machine), (looselyEqual call b a).run m = (.value answer, m)) ∧
        (a.type = b.type → answer = a.strictlyEqual b) ∧
        (a.isNullish ∨ b.isNullish → (answer = true ↔ a.isNullish ∧ b.isNullish))) ∧
    ∀ (o : ObjectId) (p : Value), p.type.IsScalar → ∀ (call : Caller) (m : Machine),
      let converted := toPrimitive call .default (.object o) >>= fun q => looselyEqual call q p
      (looselyEqual call (.object o) p).run m = converted.run m ∧
        (looselyEqual call p (.object o)).run m = converted.run m ∧
        ∀ q after, (toPrimitive call .default (.object o)).run m = (.value q, after) →
          q.isObject = false ∧ converted.run m = (looselyEqual call q p).run after := by
  constructor
  · intro a b left right
    refine ⟨looselyEqualPlain (unboolean a) (unboolean b), fun call m => ?_, fun call m => ?_,
      looselyEqualPlain_of_type_eq, looselyEqualPlain_of_isNullish⟩
    · exact looselyEqual_run_of_primitive call m left right
    · rw [looselyEqual_run_of_primitive call m right left, looselyEqualPlain_comm]
  · intro o p scalar call m converted
    refine ⟨looselyEqual_object_left call m scalar o, looselyEqual_object_right call m scalar o,
      fun q after ended => ⟨isObject_of_toPrimitive call ended, ?_⟩⟩
    simp only [converted, run_bind, ended, andThen_value]

/-- Whether an outcome is a text. -/
def isTextOutcome (text : String) : Outcome Value → Bool
  | .value (.string other) => other == text
  | _ => false

theorem eq_of_isTextOutcome {text : String} {outcome : Outcome Value}
    (same : isTextOutcome text outcome = true) : outcome = .value (.string text) := by
  unfold isTextOutcome at same
  split at same
  next other => rw [eq_of_beq same]
  · cases same

/-- An empty array becomes the empty text, and is equal to `false` for its number. -/
theorem looselyEqual_empty_array :
    let e := Engine.create {}
    let list : Value := .object WellKnown.arrayPrototype
    (∃ after,
      (toPrimitive e.caller .default list).run e.machine = (.value (.string ""), after) ∧
        (looselyEqual e.caller list (.boolean false)).run e.machine = (.value true, after) ∧
        (looselyEqual e.caller (.boolean false) list).run e.machine = (.value true, after)) ∧
      ∀ call m, (looselyEqual call .undefined .null).run m = (.value true, m) := by
  intro e list
  obtain ⟨primitives, objects⟩ := looselyEqual_laws
  constructor
  · obtain ⟨left, right, rest⟩ := objects WellKnown.arrayPrototype (.boolean false)
      (.inr (.inr rfl)) e.caller e.machine
    have text : isTextOutcome "" ((toPrimitive e.caller .default list).run e.machine).1 = true := by
      decide +kernel
    have becomes := eq_of_isTextOutcome text
    cases ended : (toPrimitive e.caller .default list).run e.machine with
    | mk outcome after =>
      rw [ended] at becomes
      obtain rfl : outcome = .value (.string "") := becomes
      have equal := (rest _ _ ended).2.trans (show _ = (Outcome.value true, after) from rfl)
      exact ⟨after, rfl, left.trans equal, right.trans equal⟩
  · intro call m
    obtain ⟨answer, forth, -, -, nullish⟩ := primitives .undefined .null rfl rfl
    rw [forth, (nullish (.inl rfl)).2 ⟨rfl, rfl⟩]

end Operation

end ScriptEngine
