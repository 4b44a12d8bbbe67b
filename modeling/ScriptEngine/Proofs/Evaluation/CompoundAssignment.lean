import ScriptEngine.Evaluate.Expression
import ScriptEngine.Proofs.Evaluation.Run

/-!
# Compound assignments to names

`x op= e` finds the place of `x` once and reads and writes through it; `x = x op e` finds it a
second time for the operand. Nothing runs in between, so both times find the same place, and from
there on the two do the same: they read, evaluate `e`, apply the operator and write to the place
that was found first, whatever `e` and the conversions have done to the binding since. The operand
of the expanded form is no function, so it takes no name from the assignment.

Main result: an assignment and its expanded form are one evaluation, and so are `--x` and `x -= 1`
(`evaluate_compound_eq_expanded`).
-/
namespace ScriptEngine

open Evaluation

namespace Operation

variable {β : Type} (call : Caller)

/-- A name that is looked up twice in a row is found in the same place. -/
theorem resolveHere_resolveHere (name : String) (f : Reference → Reference → Evaluation β) :
    (do let first ← resolveHere name; let second ← resolveHere name; f first second) =
      (do let place ← resolveHere name; f place place) := by
  ext m : 2 <;> rfl

/-- A number is its own conversion, which runs nothing. -/
theorem toNumber_number (n : Number) : toNumber call (.number n) = pure n := by
  simp only [toNumber, toPrimitive, map_pure, plainNumber]

/-- The difference of a value and a number converts the value only. -/
theorem subtract_number (left : Value) (n : Number) :
    applyBinary call .subtract left (.number n) =
      (fun old => Value.number (old.sub n)) <$> toNumber call left := by
  simp only [applyBinary, numeric, toNumber_number, pure_bind, map_eq_pure_bind]

end Operation

namespace Evaluate

open Operation

variable (call : Caller)

/-- An assignment of an operation on the name itself, in steps. Only a function would take the
name. -/
theorem evaluate_assign_binary (x : String) (operator : BinaryOperator) (e : Expression)
    (span inner at₁ at₂ : Span) :
    evaluate call (.assign span none (.identifier ⟨x, at₁⟩)
      (.binary inner operator (.identifier ⟨x, at₂⟩) e)) = (do
        let place ← resolveHere x
        let second ← resolveHere x
        let old ← getValue call second
        let operand ← evaluate call e
        let value ← applyBinary call operator old operand
        putValue call place value
        return value) := by
  simp only [evaluate, assignTo, reference, namedAfter, named, binary, bind_assoc]

/-- The compound assignment is the assignment of the operation. -/
theorem evaluate_assign_operator (x : String) (operator : BinaryOperator) (e : Expression)
    (span span' inner at₁ at₂ at₃ : Span) :
    evaluate call (.assign span (some operator) (.identifier ⟨x, at₁⟩) e) =
      evaluate call (.assign span' none (.identifier ⟨x, at₂⟩)
        (.binary inner operator (.identifier ⟨x, at₃⟩) e)) := by
  rw [evaluate_assign_binary, resolveHere_resolveHere x fun place second => do
    let old ← getValue call second
    let operand ← evaluate call e
    let value ← applyBinary call operator old operand
    putValue call place value
    return value]
  simp only [evaluate, assignCompound, reference]

/-- `--` before a place is `-= 1`. The value that is written is the value of the expression, and the
number one needs no conversion. -/
theorem evaluate_decrement (target : Expression) (span span' one : Span) :
    evaluate call (.update span .decrement true target) =
      evaluate call (.assign span' (some .subtract) target (.literal one (.integer 1))) := by
  have literal : literalValue (.integer 1) = .number (.integer 1) := rfl
  simp only [evaluate, update, assignCompound, literal, pure_bind, subtract_number, bind_map_left,
    UpdateOperator.apply, ↓reduceIte]

/-- For every name, whatever it is bound to, a compound assignment is the same evaluation as the
assignment that spells the operation out, from every machine and for whoever runs the calls: it ends
in the same way and leaves the same machine. So is `--x` the same as `x -= 1`. -/
theorem evaluate_compound_eq_expanded (x : String) (span span' inner at₁ at₂ at₃ one : Span) :
    (∀ (operator : BinaryOperator) (e : Expression),
      evaluate call (.assign span (some operator) (.identifier ⟨x, at₁⟩) e) =
        evaluate call (.assign span' none (.identifier ⟨x, at₂⟩)
          (.binary inner operator (.identifier ⟨x, at₃⟩) e))) ∧
    evaluate call (.update span .decrement true (.identifier ⟨x, at₁⟩)) =
      evaluate call (.assign span' (some .subtract) (.identifier ⟨x, at₂⟩)
        (.literal one (.integer 1))) := by
  refine ⟨fun operator e => evaluate_assign_operator call x operator e .., ?_⟩
  -- Where the name stands in the source is not seen by the evaluation.
  rw [evaluate_decrement call (.identifier ⟨x, at₁⟩) span span' one]
  simp only [evaluate, reference]

end Evaluate

end ScriptEngine
