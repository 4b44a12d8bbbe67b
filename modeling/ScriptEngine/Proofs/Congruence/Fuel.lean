import ScriptEngine.Engine.Engine
import ScriptEngine.Proofs.Congruence.Statements
import ScriptEngine.Proofs.Engine.Control

/-!
# Evaluations that are given less time

Loops get a number of rounds and calls a number of further calls. An evaluation that is given less
of them than another one approximates it: it is exhausted, or the two run alike. What is
approximated part by part is approximated as a whole, whatever has been raised is handled alike, and
what is exhausted is not handled at all; so this is a relation that all evaluations keep.

A call that may be followed by a certain number of further calls, and whose loops get a certain
number of rounds, approximates one that gets more of both: a call leaves room for one call less, and
where the machine allows no more calls in progress than that, the number of further calls never
makes a difference. So it is for whole scripts.
-/
namespace ScriptEngine

/-- Wherever no more than `room` further calls can be in progress, the first evaluation is exhausted
or runs like the second. -/
def Evaluation.Approximates {α : Type} (room : Nat) (x y : Evaluation α) : Prop :=
  ∀ m : Machine, m.control.limit ≤ m.control.depth + room →
    (x.run m).1 = .exhausted ∨ x.run m = y.run m

namespace Evaluation.Approximates

variable {α β σ : Type} {room : Nat} {x x' : Evaluation α} {f f' : α → Evaluation β}

protected theorem refl (x : Evaluation α) : Approximates room x x := fun _ _ => .inr rfl

theorem bind (first : Approximates room x x') (second : ∀ a, Approximates room (f a) (f' a)) :
    Approximates room (x >>= f) (x' >>= f') := by
  intro m within
  have returns := x.returns m
  have begun := first m within
  rw [run_bind, run_bind]
  cases eq : x.run m with
  | mk outcome after =>
    rw [eq] at returns begun
    rcases begun with ended | same
    -- What is exhausted at first is exhausted as a whole.
    · cases ended
      exact .inl rfl
    -- Otherwise both go on in one machine, in which no more calls are in progress than before.
    · rw [← same]
      cases outcome with
      | value a =>
        rw [← returns] at within
        exact second a after within
      | raised r => exact .inr rfl
      | exhausted => exact .inl rfl

/-- Two evaluations that begin alike. -/
theorem next (second : ∀ a, Approximates room (f a) (f' a)) :
    Approximates room (x >>= f) (x >>= f') := bind (.refl x) second

/-- Two evaluations that go on alike. -/
theorem first (before : Approximates room x x') : Approximates room (x >>= f) (x' >>= f) :=
  bind before fun _ => .refl _

theorem attempt {why : Attempt} (inside : Approximates room x x') :
    Approximates room (attempt why x) (attempt why x') := by
  intro m within
  change (attemptRun (x.run m)).1 = .exhausted ∨ attemptRun (x.run m) = attemptRun (x'.run m)
  refine (inside m within).imp (fun ended => ?_) fun same => congrArg attemptRun same
  revert ended
  obtain ⟨outcome, after⟩ := x.run m
  rintro ⟨⟩
  rfl

/-- Inside of a call there is room for one call less. -/
theorem bracket {inner : Nat} {b : Bracket} (fits : room ≤ b.calls + inner)
    (inside : Approximates inner x x') : Approximates room (bracket b x) (bracket b x') := by
  intro m within
  -- Both evaluations are refused, or both go on in the same machine.
  cases free : b.refusal m.control with
  | some cause =>
    right
    rw [run_bracket_refused free, run_bracket_refused free]
  | none =>
    have entered : (b.entered m).control.limit ≤ (b.entered m).control.depth + inner := by
      have depth := b.depth m.control
      have limit := b.limit m.control
      simp only [Bracket.entered]
      omega
    rw [run_bracket free, run_bracket free]
    exact (inside (b.entered m) entered).imp id fun same => by rw [same]

theorem withFrame {frame : Frame} (inside : Approximates room x x') :
    Approximates room (withFrame frame x) (withFrame frame x') :=
  bracket (Nat.le_add_left room _) inside

/-- A loop that gets fewer rounds is exhausted before the other one goes on. -/
theorem iterate {bound bound' : Nat} {body body' : σ → Evaluation (Round σ α)}
    (fewer : bound ≤ bound') (round : ∀ state, Approximates room (body state) (body' state))
    (state : σ) : Approximates room (iterate bound body state) (iterate bound' body' state) := by
  induction bound generalizing bound' state with
  -- Without a round the loop is exhausted at once, whatever the other one does.
  | zero => exact fun _ _ => .inl rfl
  | succ bound ih =>
    obtain ⟨bound', rfl⟩ : ∃ n, bound' = n + 1 := ⟨bound' - 1, by omega⟩
    rw [iterate_succ, iterate_succ]
    refine bind (round state) fun decided => ?_
    cases decided with
    | again state => exact ih (Nat.le_of_succ_le_succ fewer) state
    | done a => exact .refl _

end Evaluation.Approximates

open Evaluation Congruence Operation Evaluate

/-! ## Statements that handle what is raised -/

namespace Evaluate

variable {room : Nat} {y y' : Evaluation Ending}
  {handler handler' : Option (Raised → Evaluation Ending)}
  {finalizer finalizer' : Option (Evaluation Ending)}

/-- Handlers that do alike with whatever was raised. -/
abbrev HandlersApproximate (room : Nat) (handle handle' : Raised → Evaluation Ending) : Prop :=
  ∀ raised, Approximates room (handle raised) (handle' raised)

theorem tryCatch_approximates (block : Approximates room y y')
    (handles : Option.Rel (HandlersApproximate room) handler handler') :
    Approximates room (tryCatch y handler) (tryCatch y' handler') := by
  refine .bind (.attempt block) fun result => ?_
  cases handles with
  | none => exact .refl _
  | some handles =>
    cases result with
    | ok ending => exact .refl _
    | error raised =>
      dsimp only
      split
      · exact .refl _
      · exact handles raised

theorem tryStatement_approximates (block : Approximates room y y')
    (handles : Option.Rel (HandlersApproximate room) handler handler')
    (finishes : Option.Rel (Approximates room) finalizer finalizer') :
    Approximates room (tryStatement y handler finalizer)
      (tryStatement y' handler' finalizer') := by
  have attempted := tryCatch_approximates block handles
  cases finishes with
  | none => exact .first attempted
  | some finishes =>
    refine .bind (.attempt attempted) fun result => ?_
    -- After a fault the clause does not run; after anything else it does, in both.
    match result with
    | .error (.fault _) => exact .refl _
    | .ok _ | .error (.thrown _) | .error (.error _) => exact .first finishes

end Evaluate

/-- Whatever evaluations are put together of, less time for it makes an approximation. -/
def Evaluation.approximation (room : Nat) : FullCongruence where
  Holds := Approximates room
  ending _ := .refl _
  ask _ := .refl _
  askDepth := .refl _
  note _ := .refl _
  noteIf _ _ := .refl _
  compiling := .refl _
  step _ _ := .refl _
  editBindings _ _ _ := .refl _
  bind := .bind
  reporting inside := inside
  askControl _ _ := .refl _
  withScope _ := .bracket (Nat.le_add_left room _)
  withFrame _ := .withFrame
  iterate := .iterate
  attempt block handles finishes := by
    unfold execute
    exact tryStatement_approximates block handles finishes

/-! ## Calls and scripts -/

namespace Evaluate

variable {room : Nat}

section

variable {call call' : Caller} (calls : (approximation room).Callers call call')
  {bound bound' : Nat} (fewer : bound ≤ bound')

include calls

theorem readRemainder_approximates (last : Option Remainder) :
    Approximates room (readRemainder call last) (readRemainder call' last) := by
  match last with
  | some (.reference r) => exact .first (getValue_related calls r)
  | none | some (.value _) => exact .refl _

include fewer

theorem executeOutermost_approximates (statement : Statement) :
    Approximates room (executeOutermost call bound statement)
      (executeOutermost call' bound' statement) := by
  unfold executeOutermost
  split
  next e =>
    split
    · exact .first (reference_related calls e)
    · exact .first (evaluate_related calls e)
  · exact .first (execute_related calls fewer [] statement)

theorem executeScript_approximates (last : Option Remainder) (statements : List Statement) :
    Approximates room (executeScript call bound last statements)
      (executeScript call' bound' last statements) := by
  induction statements generalizing last with
  | nil => exact .refl _
  | cons statement rest ih =>
    refine .bind (readRemainder_approximates calls last) fun last => ?_
    refine .bind (executeOutermost_approximates calls fewer statement) fun ending => ?_
    split
    · exact ih _
    · exact .refl _

theorem runScript_approximates (tree : ScriptTree) (env : EnvironmentId) :
    Approximates room (runScript call bound tree env) (runScript call' bound' tree env) :=
  .first (.attempt (.next fun _ =>
    .withFrame (executeScript_approximates calls fewer none tree.body)))

end

/-- The induction is on the room for calls: where there is none, no call runs, whatever time it is
given, and a call that runs leaves room for one call less to those that it makes. -/
theorem invoke_approximates {bound bound' : Nat} (fewer : bound ≤ bound')
    {remaining remaining' : Nat} (enough : room ≤ remaining) (enough' : room ≤ remaining') :
    (approximation room).Callers (invoke bound remaining) (invoke bound' remaining') := by
  induction room generalizing remaining remaining' with
  | zero =>
    intro f receiver arguments m full
    right
    rw [invoke_at_limit bound remaining f receiver arguments full,
      invoke_at_limit bound' remaining' f receiver arguments full]
  | succ room ih =>
    obtain ⟨remaining, rfl⟩ : ∃ n, remaining = n + 1 := ⟨remaining - 1, by omega⟩
    obtain ⟨remaining', rfl⟩ : ∃ n, remaining' = n + 1 := ⟨remaining' - 1, by omega⟩
    have calls := ih (Nat.le_of_succ_le_succ enough) (Nat.le_of_succ_le_succ enough')
    intro f receiver arguments
    have inside := applyFunction_related calls fewer f receiver arguments
      (Library.function_related calls (fun tree => runScript_approximates calls fewer tree _)
        receiver arguments)
    exact Approximates.bracket (Nat.le_of_eq (Nat.add_comm room 1)) inside

end Evaluate

namespace Engine

variable {room : Nat} {call call' : Caller} (calls : (approximation room).Callers call call')

include calls

theorem settled_approximates (completion : Completion Remainder) :
    Approximates room (settled call completion) (settled call' completion) := by
  unfold settled
  split
  next r => exact .first (.attempt (getValue_related calls r))
  · exact .refl _
  · exact .refl _
  · exact .refl _

theorem readablePart_approximates (value : Value) (key : String) :
    Approximates room (readablePart call value key) (readablePart call' value key) := by
  refine .bind (.attempt (getV_related calls value key)) fun part => ?_
  match part with
  | .ok .undefined | .error _ => exact .refl _
  | .ok .null | .ok (.boolean _) | .ok (.number _) | .ok (.string _) | .ok (.object _) =>
    exact .first (.attempt (toText_related calls _))

theorem description_approximates (value : Value) :
    Approximates room (description call value) (description call' value) := by
  cases value with
  | object id =>
    exact .bind (readablePart_approximates calls _ "name")
      fun _ => .first (readablePart_approximates calls _ "message")
  | _ => exact .refl _

theorem scriptValue_approximates {bound bound' : Nat} (fewer : bound ≤ bound') (tree : ScriptTree) :
    Approximates room (scriptValue call bound tree) (scriptValue call' bound' tree) := by
  refine .bind (.bind (runScript_approximates calls fewer tree _) fun completion =>
    settled_approximates calls completion) fun completion => ?_
  cases completion with
  | throws value => exact .first (description_approximates calls value)
  | _ => exact .refl _

end Engine

end ScriptEngine
