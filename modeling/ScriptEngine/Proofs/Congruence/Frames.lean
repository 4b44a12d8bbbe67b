import ScriptEngine.Proofs.Congruence.Statements

/-!
# What does not depend on where it runs

Code finds its names and its `this` in the innermost frame. What does not ask for these, except in
frames that it enters itself, goes in the same way in whatever frames it runs, and also where there
are none. What is put together of such parts is of this kind, and so are the operations on values
and environments, as long as the functions that run on the way are.

A function of a script runs in a frame of its own, in the environment that it was made in, and a
native function gets its `this` and its arguments. So no function that runs learns anything of the
code that calls it (`invoke_unframed`).
-/
namespace ScriptEngine

/-- In whatever frames it runs, the evaluation goes in the same way; only the number of calls in
progress and its limit may matter. -/
def Evaluation.Unframed {α : Type} (x : Evaluation α) : Prop :=
  ∀ (s : Store) (c c' : Control), c.depth = c'.depth → c.limit = c'.limit →
    Outcome.Agree (x.run ⟨s, c⟩) (x.run ⟨s, c'⟩)

namespace Evaluation.Unframed

variable {α β : Type} {x : Evaluation α} {f : α → Evaluation β}

protected theorem ending (outcome : Outcome α) : Unframed (ending outcome) :=
  fun _ _ _ _ _ => ⟨rfl, rfl⟩

/-- Two parts go on from the same store, and the control state comes back as it was. -/
protected theorem bind (first : Unframed x) (second : ∀ a, Unframed (f a)) :
    Unframed (x >>= f) := by
  intro s c c' depth limit
  have agree := first s c c' depth limit
  have returns := x.returns ⟨s, c⟩
  have returns' := x.returns ⟨s, c'⟩
  rw [run_bind, run_bind]
  revert agree returns returns'
  obtain ⟨outcome, t, d⟩ := x.run ⟨s, c⟩
  obtain ⟨outcome', t', d'⟩ := x.run ⟨s, c'⟩
  rintro ⟨same, stores⟩ returns returns'
  cases same
  cases stores
  cases returns
  cases returns'
  cases outcome with
  | value a => exact second a t c c' depth limit
  | raised _ | exhausted => exact ⟨rfl, rfl⟩

protected theorem map {g : α → β} (h : Unframed x) : Unframed (g <$> x) :=
  .bind h fun _ => .ending _

protected theorem attempt {why : Attempt} (h : Unframed x) : Unframed (attempt why x) := by
  intro s c c' depth limit
  have agree := h s c c' depth limit
  change Outcome.Agree (attemptRun (x.run ⟨s, c⟩)) (attemptRun (x.run ⟨s, c'⟩))
  revert agree
  obtain ⟨outcome, after⟩ := x.run ⟨s, c⟩
  obtain ⟨outcome', after'⟩ := x.run ⟨s, c'⟩
  rintro ⟨same, stores⟩
  cases same
  cases outcome <;> exact ⟨rfl, stores⟩

protected theorem enteringCall (h : Unframed x) : Unframed (enteringCall x) := by
  intro s c c' depth limit
  have refusal : Bracket.call.refusal c = Bracket.call.refusal c' := by
    simp only [Bracket.call, depth, limit]
  have inside := h s (Bracket.call.enter c) (Bracket.call.enter c')
    (congrArg (· + 1) depth) limit
  simp only [enteringCall, bracket, ← refusal]
  cases Bracket.call.refusal c with
  | some _ => exact ⟨rfl, rfl⟩
  | none => exact inside

/-- In a frame that it enters, an evaluation may ask for whatever it likes. -/
protected theorem withFrame (frame : Frame) (x : Evaluation α) : Unframed (withFrame frame x) :=
  fun s _ _ depth limit => x.near s _ _ (Control.beside_push depth limit frame)

/-- An evaluation in a frame leaves the control state that it came from. -/
theorem run_withFrame (frame : Frame) (x : Evaluation α) (m : Machine) :
    (withFrame frame x).run m =
      ((x.run ⟨m.store, m.control.push frame⟩).1,
        ⟨(x.run ⟨m.store, m.control.push frame⟩).2.store, m.control⟩) := by
  have returns := x.returns ⟨m.store, m.control.push frame⟩
  refine Prod.ext rfl ?_
  change (⟨_, (x.run ⟨m.store, m.control.push frame⟩).2.control.pop⟩ : Machine) = _
  rw [returns]
  rfl

/-- What does not depend on the frames may as well be done after a frame is left. -/
theorem run_withFrame_bind (unframed : ∀ a, Unframed (f a)) (frame : Frame) (m : Machine) :
    (Evaluation.withFrame frame (x >>= f)).run m =
      (Evaluation.withFrame frame x >>= f).run m := by
  rw [run_bind, run_withFrame, run_withFrame, run_bind]
  have returns := x.returns ⟨m.store, m.control.push frame⟩
  revert returns
  obtain ⟨outcome, s, c⟩ := x.run ⟨m.store, m.control.push frame⟩
  intro returns
  obtain rfl : c = m.control.push frame := returns
  cases outcome with
  | value a =>
    -- What comes after the value runs in the frame on the one side, and outside on the other.
    obtain ⟨ended, left⟩ := unframed a s (m.control.push frame) m.control rfl rfl
    have returns := (f a).returns ⟨s, m.control⟩
    rw [andThen_value, andThen_value, ended, left]
    exact Prod.ext rfl (congrArg (Machine.mk _) returns.symm)
  | raised _ | exhausted => rfl

end Evaluation.Unframed

open Evaluation Congruence Operation

/-- That the first of two evaluations does not depend on the frames. How many calls are in progress
has nothing to do with these, and neither has what is done to the store. -/
def Evaluation.unframed : Congruence where
  Holds x _ := x.Unframed
  ending := .ending
  ask _ := fun _ _ _ _ _ => ⟨rfl, rfl⟩
  askDepth := fun _ _ _ depth _ => ⟨congrArg Outcome.value depth, rfl⟩
  note _ := fun _ _ _ _ _ => ⟨rfl, rfl⟩
  noteIf _ _ := fun _ _ _ _ _ => ⟨rfl, rfl⟩
  compiling := fun _ _ _ _ _ => ⟨rfl, rfl⟩
  step _ _ := fun _ _ _ _ _ => ⟨rfl, rfl⟩
  editBindings _ _ _ := fun _ _ _ _ _ => ⟨rfl, rfl⟩
  bind := .bind
  reporting inside := inside

/-- No call of a function depends on the frames. -/
def Caller.Unframed (call : Caller) : Prop := Evaluation.unframed.Callers call call

namespace Evaluate

theorem getValue_unframed {call : Caller} (calls : call.Unframed) (r : Reference) :
    (getValue call r).Unframed := getValue_related calls r

/-- The statements of a function run in its frame, and may ask for what they like. -/
theorem runFunction_unframed (call : Caller) (bound : Nat) (f : ObjectId) (code : FunctionCode)
    (closure : EnvironmentId) (receiver : Value) (arguments : List Value) :
    (runFunction call bound f code closure receiver arguments).Unframed := by
  have begins : Evaluation.unframed.Covers (receiverFor code.strict receiver) :=
    receiverFor_related _ _
  have opens : Evaluation.unframed.Covers (openScope closure) := .openEnvironment _
  have ends : ∀ ending, Evaluation.unframed.Covers (callResultOf ending) := callResultOf_related
  exact .bind begins fun _ => .bind opens fun _ => .bind (.withFrame _ _) ends

/-- And so do the statements of a script. -/
theorem runScript_unframed (call : Caller) (bound : Nat) (tree : ScriptTree)
    (env : EnvironmentId) : (runScript call bound tree env).Unframed := by
  have declares : Evaluation.unframed.Covers (declareScript env tree.scope) :=
    declareScript_related _ _
  have catches : ∀ raised, Evaluation.unframed.Covers (caught raised) := caught_related
  refine .bind (.attempt (.bind declares fun _ => .withFrame _ _)) fun result => ?_
  cases result with
  | ok ending =>
    dsimp only
    cases ending.departure? with
    | none => exact .ending _
    | some departure => exact .ending _
  | error raised => exact .bind (catches raised) fun _ => .ending _

/-- The induction is on the number of further calls: those that a call makes have one less. -/
theorem invoke_unframed (bound remaining : Nat) : (invoke bound remaining).Unframed := by
  induction remaining with
  | zero => exact fun _ _ _ => .ending _
  | succ remaining ih =>
    intro f receiver arguments
    refine Unframed.enteringCall (.bind (Evaluation.unframed.ask _) fun kind => ?_)
    cases kind with
    | script code closure => exact runFunction_unframed _ bound f code closure receiver arguments
    | native code =>
      let services : Services := ⟨invoke bound remaining, runScript (invoke bound remaining) bound⟩
      have calls : Evaluation.unframed.Callers services.call services.call := ih
      have compiles := Library.function_related calls
        (fun tree => runScript_unframed _ bound tree _) receiver arguments
      exact Library.perform_related calls code.behaviour receiver arguments fun _ => compiles
    | _ => exact .bind (Evaluation.unframed.ask _) fun _ => .ending _

end Evaluate

end ScriptEngine
