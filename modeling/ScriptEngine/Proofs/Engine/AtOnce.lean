import ScriptEngine.Proofs.Congruence.Frames
import ScriptEngine.Proofs.Engine.Reachable

/-!
# References that a script leaves

A statement of a script that is just a name or a property access leaves its reference unread. The
reference is read before the next statement runs; that of the last one is read when the frame of the
script is gone already, by whoever runs the script. It makes no difference: a script runs like one
whose statements are all executed like those of a block, each of which reads what it is about by
itself. Reading a reference does not depend on the frames, even if it runs a getter, and what it
raises becomes the same thrown value.

Main result: `execution_eq_atOnce`.
-/
namespace ScriptEngine

open Evaluation Operation Evaluate

/-! ### Completions -/

namespace Completion

variable {α β : Type}

/-- Ends in the same way, with another value. -/
def map (f : α → β) : Completion α → Completion β
  | normal value => normal (value.map f)
  | returns value => returns (f value)
  | throws value => throws (f value)
  | breaks label value => breaks label (value.map f)
  | continues label value => continues label (value.map f)

@[simp]
theorem departure?_map (f : α → β) (completion : Completion α) :
    (completion.map f).departure? = completion.departure? := by
  cases completion <;> rfl

@[simp]
theorem isNormal_map (f : α → β) (completion : Completion α) :
    (completion.map f).isNormal = completion.isNormal := by
  cases completion <;> rfl

@[simp]
theorem value?_map (f : α → β) (completion : Completion α) :
    (completion.map f).value? = completion.value?.map f := by
  cases completion <;> rfl

end Completion

/-- The value that is left; a reference does not count. -/
def Remainder.known : Remainder → Value
  | .value known => known
  | .reference _ => .undefined

namespace Evaluate

variable (call : Caller) (bound : Nat)

/-! ### Statements one by one -/

/-- The statements of a script, each executed like one of a block: a name or a property access is
read at once. -/
def executeEach (last : Option Value) : List Statement → Evaluation Ending
  | [] => return .normal last
  | statement :: rest => do
    let ending ← execute call bound [] statement
    if ending.isNormal then executeEach (ending.value?.or last) rest else return ending

/-- Reads what was left, if that is a reference. -/
def readLeft : Option Remainder → Evaluation (Option Value)
  | some (.reference r) => some <$> getValue call r
  | some (.value value) => return some value
  | none => return none

/-- Reads what a script that has ended normally has left. -/
def readEnding : Completion Remainder → Evaluation Ending
  | .normal last => .normal <$> readLeft call last
  | departed => return departed.map Remainder.known

theorem readLeft_value (value : Option Value) :
    readLeft call (value.map .value) = pure value := by
  cases value <;> rfl

theorem readEnding_value (ending : Ending) : readEnding call (ending.map .value) = pure ending := by
  cases ending with
  | normal value => cases value <;> rfl
  | returns | throws => rfl
  | breaks _ value | continues _ value => cases value <;> rfl

theorem readRemainder_eq (last : Option Remainder) :
    readRemainder call last = Option.map .value <$> readLeft call last := by
  match last with
  | some (.reference r) =>
    simp only [readRemainder, readLeft, map_eq_pure_bind, bind_assoc, pure_bind, Option.map_some]
  | some (.value _) | none => rfl

/-- The value of an expression that denotes a place is what its reference reads. -/
theorem evaluate_of_isReference {e : Expression} (place : e.isReference = true) :
    evaluate call e = reference call e >>= getValue call := by
  cases e with
  | identifier | member | index => simp only [evaluate, reference]
  | _ => cases place

theorem execute_expression (labels : List String) (span : Span) (e : Expression) :
    execute call bound labels (.expression span e) =
      (fun value => .normal (some value)) <$> evaluate call e := by
  unfold execute
  rfl

/-- A statement of a script is executed like any other, or leaves a reference which the other one
reads. -/
theorem executeOutermost_cases (statement : Statement) :
    executeOutermost call bound statement =
        Completion.map .value <$> execute call bound [] statement ∨
      ∃ e : Expression,
        executeOutermost call bound statement =
          (fun r => .normal (some (.reference r))) <$> reference call e ∧
        execute call bound [] statement =
          (fun value => .normal (some value)) <$> (reference call e >>= getValue call) := by
  cases statement with
  | expression span e =>
    cases place : e.isReference with
    | true =>
      refine .inr ⟨e, ?_, ?_⟩
      · simp only [executeOutermost, place, if_true, map_eq_pure_bind]
      · rw [execute_expression, evaluate_of_isReference call place]
    | false =>
      left
      simp only [executeOutermost, execute_expression, place, map_eq_pure_bind, bind_assoc,
        pure_bind, Bool.false_eq_true, if_false, Completion.map, Option.map_some]
  | _ =>
    left
    simp only [executeOutermost, map_eq_pure_bind]
    congr 1
    funext ending
    cases ending <;> rfl

/-- Reading what a script has left at the end of it, and what is left in between where the next
statement needs it, comes to the same as reading everything at once. The induction is on the
statements; what is left before the first of them may still have to be read. -/
theorem executeScript_readEnding (last : Option Remainder) (statements : List Statement) :
    executeScript call bound last statements >>= readEnding call =
      readLeft call last >>= fun value => executeEach call bound value statements := by
  induction statements generalizing last with
  | nil => simp only [executeScript, executeEach, pure_bind, readEnding, map_eq_pure_bind]
  | cons statement rest ih =>
    simp only [executeScript, executeEach, readRemainder_eq, bind_assoc, map_eq_pure_bind, pure_bind]
    congr 1
    funext value
    rcases executeOutermost_cases call bound statement with same | ⟨e, outermost, inside⟩
    · rw [same]
      simp only [map_eq_pure_bind, bind_assoc, pure_bind, Completion.isNormal_map,
        Completion.value?_map]
      congr 1
      funext ending
      cases ending.isNormal with
      | true =>
        rw [if_pos rfl, if_pos rfl, ih, ← Option.map_or, readLeft_value, pure_bind]
      | false =>
        rw [if_neg Bool.false_ne_true, if_neg Bool.false_ne_true, pure_bind, readEnding_value]
    · rw [outermost, inside]
      simp only [map_eq_pure_bind, bind_assoc, pure_bind, Completion.isNormal,
        Completion.departure?, Completion.value?, Option.isNone_none, if_true, Option.some_or, ih,
        readLeft]

theorem readEnding_unframed {call : Caller} (calls : call.Unframed)
    (completion : Completion Remainder) : Unframed (readEnding call completion) := by
  cases completion with
  | normal last =>
    match last with
    | some (.reference r) => exact .map (.map (getValue_unframed calls r))
    | some (.value _) | none => exact .ending _
  | _ => exact .ending _

end Evaluate

namespace Engine

variable {α β : Type} (call : Caller) (bound : Nat)

/-- What the run of the statements of a script comes to, if every remainder has been read. -/
def concluded : Except Raised Ending → Evaluation Ending
  | .ok ending =>
    match ending.departure? with
    | none => return ending
    | some departure => raise (.fault (.escapedProgram departure))
  | .error raised => return .throws (← caught raised)

/-- Runs a script in the global environment. Each of its statements is executed like one of a block,
so that no reference is left. -/
def executionAtOnce (script : ScriptTree) : Evaluation Ending := do
  let result ← attempt .script do
    let lexical ← declareScript WellKnown.globalEnvironment script.scope
    withFrame ⟨lexical, WellKnown.globalEnvironment, .object WellKnown.globalObject,
      script.scope.strict, none⟩ (executeEach call bound none script.body)
  concluded result

/-- What the run of the statements of a script comes to, where a reference may be left. -/
def concludedLater : Except Raised (Completion Remainder) → Evaluation Ending
  | .ok ending =>
    match ending.departure? with
    | none => settled call ending
    | some departure => raise (.fault (.escapedProgram departure))
  | .error raised => return .throws (← caught raised)

theorem execution_eq (script : ScriptTree) :
    execution call bound script = (do
      let result ← attempt .script do
        let lexical ← declareScript WellKnown.globalEnvironment script.scope
        withFrame ⟨lexical, WellKnown.globalEnvironment, .object WellKnown.globalObject,
          script.scope.strict, none⟩ (executeScript call bound none script.body)
      concludedLater call result) := by
  simp only [execution, runScript, bind_assoc]
  congr 1
  funext result
  cases result with
  | ok ending =>
    dsimp only [concludedLater]
    cases ending.departure? with
    | none => exact pure_bind ending _
    | some departure => rfl
  | error raised => simp only [concludedLater, bind_assoc, pure_bind, settled]

/-- A reference that is left is read in an attempt of its own, and what it raises becomes the same
thrown value there. -/
theorem run_concludedLater (completion : Completion Remainder) (m : Machine) :
    (attempt .script (readEnding call completion) >>= concluded).run m =
      (concludedLater call (.ok completion)).run m := by
  cases completion with
  | normal last =>
    match last with
    | none | some (.value _) => rfl
    | some (.reference r) =>
      change andThen concluded (attemptRun (andThen _ (andThen _ ((getValue call r).run m)))) =
        andThen _ (attemptRun ((getValue call r).run m))
      obtain ⟨outcome, after⟩ := (getValue call r).run m
      cases outcome <;> rfl
  | _ => rfl

/-- Reading what the statements of a script have left in their attempt, or after it, comes to the
same. -/
theorem run_attempt_readEnding (x : Evaluation (Completion Remainder)) (m : Machine) :
    (attempt .script (x >>= readEnding call) >>= concluded).run m =
      (attempt .script x >>= concludedLater call).run m := by
  change andThen concluded (attemptRun (andThen (readEnding call) (x.run m))) =
    andThen (concludedLater call) (attemptRun (x.run m))
  obtain ⟨outcome, after⟩ := x.run m
  cases outcome with
  | value completion => exact run_concludedLater call completion after
  | raised _ | exhausted => rfl

/-- Attempts of evaluations that run alike run alike. -/
private theorem run_attempt_congr {x y : Evaluation α} {f : Except Raised α → Evaluation β}
    (alike : ∀ m, x.run m = y.run m) (m : Machine) :
    (attempt .script x >>= f).run m = (attempt .script y >>= f).run m :=
  congrArg (fun result => andThen f (attemptRun result)) (alike m)

/-- Whatever program runs on an engine, and however long its loops may go on: it ends in the same
way, with the same value, and leaves the same engine as if each of its statements read at once what
it is about. -/
theorem execution_eq_atOnce (e : Engine) (bound : Nat) (script : ScriptTree) :
    e.perform (execution (e.callerWithin bound) bound script) =
      e.perform (executionAtOnce (e.callerWithin bound) bound script) := by
  have calls : (e.callerWithin bound).Unframed := invoke_unframed bound e.config.maxCallDepth
  generalize e.callerWithin bound = call at calls
  have run : (execution call bound script).run e.machine =
      (executionAtOnce call bound script).run e.machine := by
    have each : executeEach call bound none script.body =
        executeScript call bound none script.body >>= readEnding call := by
      rw [executeScript_readEnding]
      rfl
    rw [execution_eq, executionAtOnce, each, ← run_attempt_readEnding]
    refine run_attempt_congr (fun m => ?_) e.machine
    -- What is left at the end is read after the frame of the script is left, or before.
    rw [bind_assoc]
    exact run_bind_congr (fun lexical m =>
      (Unframed.run_withFrame_bind (readEnding_unframed calls) _ m).symm) _ m
  unfold perform
  rw [run]

end Engine

end ScriptEngine
