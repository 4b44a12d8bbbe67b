import ScriptEngine.Operation.Binary
import ScriptEngine.Proofs.Text.Units

/-!
# The order of strings

The four operators that compare are all made of one question, whether a value is less than another,
which is asked with the operands in either order and can be left without an answer. Of two strings
it always has one, and no conversion runs for it, so the operators are those of an order.

Main result: on strings `<` is a strict total order, whose equality is `===`, and `>`, `<=` and `>=`
are what it makes of them (`strings_ordered`). The order is that of the code units and the equality
that of the stored bytes; the two fit because no two texts have the same units.
-/
namespace ScriptEngine.Operation

open Evaluation

/-- The operator has this answer for two strings, and nothing runs or changes on the way to it. -/
def Answers (operator : BinaryOperator) (a b : String) (answer : Bool) : Prop :=
  ∀ call, applyBinary call operator (.string a) (.string b) = pure (.boolean answer)

theorem Answers.unique {operator : BinaryOperator} {a b : String} {answer answer' : Bool}
    (first : Answers operator a b answer) (second : Answers operator a b answer') :
    answer = answer' := by
  -- Running the operator anywhere at all tells the answers apart.
  let call : Caller := fun _ _ _ => exhaust
  let m : Machine := ⟨⟨#[], #[], #[]⟩, ⟨[], 0, 0⟩⟩
  have same : Outcome.value (Value.boolean answer) = .value (.boolean answer') :=
    congrArg (fun x => (x.run m).1) ((first call).symm.trans (second call))
  exact Value.boolean.inj (Outcome.value.inj same)

section

variable (a b : String)

/-! ## The question -/

/-- Between strings the question has an answer, in whichever order the operands are converted. -/
theorem less_string (call : Caller) (leftFirst : Bool) :
    less call (.string a) (.string b) leftFirst = pure (some (Text.less a b)) := by
  cases leftFirst <;> rfl

theorem answers_lessThan : Answers .lessThan a b (Text.less a b) := by
  intro call
  simp [applyBinary, less_string]

theorem answers_greaterThan : Answers .greaterThan a b (Text.less b a) := by
  intro call
  simp [applyBinary, less_string]

/-- What is at most another string is what the other one is not less than. -/
theorem answers_lessThanEqual : Answers .lessThanEqual a b (!Text.less b a) := by
  intro call
  cases answer : Text.less b a <;> simp [applyBinary, less_string, answer]

theorem answers_greaterThanEqual : Answers .greaterThanEqual a b (!Text.less a b) := by
  intro call
  cases answer : Text.less a b <;> simp [applyBinary, less_string, answer]

theorem answers_strictlyEqual : Answers .strictlyEqual a b (a == b) := fun _ => rfl

theorem answers_lessThan_true_iff :
    Answers .lessThan a b true ↔ Text.units a < Text.units b := by
  rw [← Text.less_iff_lt]
  constructor
  · exact fun holds => (answers_lessThan a b).unique holds
  · exact fun less => less ▸ answers_lessThan a b

/-! ## The order -/

/-- Of two strings one is less than the other, or they are equal. -/
theorem count_true_eq_one : [Text.less a b, a == b, Text.less b a].count true = 1 := by
  rw [Text.beq_eq_decide, Text.less_eq_decide, Text.less_eq_decide]
  -- All three answers are about the units now, of which the order is known to be total.
  rcases lt_trichotomy (Text.units a) (Text.units b) with less | same | greater
  · simp [less, less.ne, less.asymm]
  · simp [same]
  · simp [greater, greater.ne', greater.asymm]

end

/-- Two strings always compare, without anything running for it: exactly one of `a < b`, `a === b`
and `b < a` holds, `a > b` is `b < a`, and `a <= b` and `a >= b` are the negations of `b < a` and
`a < b`. Here `<` is the lexicographic order of the 16-bit code units, while `===` compares the
bytes that the strings are stored as. The order is transitive, and the empty string comes first. -/
theorem strings_ordered :
    (∀ a b : String, ∃ below equal above : Bool,
      Answers .lessThan a b below ∧ Answers .strictlyEqual a b equal ∧
        Answers .lessThan b a above ∧ [below, equal, above].count true = 1 ∧
      Answers .greaterThan a b above ∧ Answers .lessThanEqual a b (!above) ∧
        Answers .greaterThanEqual a b (!below) ∧
      (below = true ↔ Text.units a < Text.units b) ∧
        (equal = true ↔ a.toUTF8 = b.toUTF8)) ∧
    (∀ a b c : String, Answers .lessThan a b true → Answers .lessThan b c true →
      Answers .lessThan a c true) ∧
    ∀ a : String, a ≠ "" → Answers .lessThan "" a true := by
  refine ⟨fun a b => ?_, fun a b c first second => ?_, fun a other => ?_⟩
  · refine ⟨Text.less a b, a == b, Text.less b a, answers_lessThan a b, answers_strictlyEqual a b,
      answers_lessThan b a, count_true_eq_one a b, answers_greaterThan a b,
      answers_lessThanEqual a b, answers_greaterThanEqual a b, Text.less_iff_lt, ?_⟩
    rw [beq_iff_eq]
    exact String.toByteArray_inj.symm
  · rw [answers_lessThan_true_iff] at first second ⊢
    exact first.trans second
  · rw [answers_lessThan_true_iff]
    obtain ⟨unit, rest, eq⟩ := List.exists_cons_of_ne_nil (mt Text.units_eq_nil_iff.1 other)
    rw [eq]
    exact List.nil_lt_cons unit rest

/-- A character beyond the basic plane comes before the last ones of the plane, since its units are
surrogates. -/
theorem strings_ordered_surrogates :
    "" ≠ "a" ∧ Answers .lessThan "" "a" true ∧ Answers .lessThan "a" "😀" true ∧
      Answers .lessThan "😀" "\uFFFF" true ∧ Answers .lessThan "a" "\uFFFF" true := by
  obtain ⟨compared, transitive, least⟩ := strings_ordered
  have first : Answers .lessThan "a" "😀" true :=
    (answers_lessThan_true_iff _ _).2 (Text.less_iff_lt.1 (by decide))
  have second : Answers .lessThan "😀" "\uFFFF" true :=
    (answers_lessThan_true_iff _ _).2 (Text.less_iff_lt.1 (by decide))
  exact ⟨by decide, least "a" (by decide), first, second, transitive _ _ _ first second⟩

end ScriptEngine.Operation
