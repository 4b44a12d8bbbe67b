import ScriptEngine.Evaluate.Statement
import ScriptEngine.Proofs.Evaluation.Run

/-!
# Two forms of one loop

A loop with a head that has nothing but a test declares no names, so each of its rounds runs where
the loop itself does, and what is left of a round is that of a `while` loop. Between two rounds the
control state is the one at the start, since every evaluation brings it back; this is the invariant
that ties the environment that the rounds hand on to the one that names are looked up in.

Main result: the two loops run alike from every machine (`execute_while_run_eq_for`).
-/
namespace ScriptEngine

theorem Control.withLexical_lexical (c : Control) : c.withLexical c.lexical = c := by
  obtain ⟨frames, depth, limit⟩ := c
  cases frames <;> rfl

namespace Evaluation

variable {α β σ τ : Type}

/-- To enter the scope that the code runs in already makes no difference. -/
theorem run_withScope_lexical (x : Evaluation α) (m : Machine) :
    (withScope m.control.lexical x).run m = x.run m := by
  have entered : (Bracket.scope m.control.lexical).entered m = m := by
    change (⟨m.store, m.control.withLexical m.control.lexical⟩ : Machine) = m
    rw [Control.withLexical_lexical]
  have run : (withScope m.control.lexical x).run m =
      ((x.run ((Bracket.scope m.control.lexical).entered m)).1,
        (Bracket.scope m.control.lexical).left m
          (x.run ((Bracket.scope m.control.lexical).entered m)).2) := rfl
  rw [run, entered]
  refine congrArg (Prod.mk (x.run m).1) ?_
  change (⟨(x.run m).2.store, (x.run m).2.control.withLexical m.control.lexical⟩ : Machine) = _
  rw [← x.returns m, Control.withLexical_lexical]

/-- What runs in a scope in two parts may leave it in between. -/
theorem run_withScope_bind (env : EnvironmentId) (x : Evaluation α) (f : α → Evaluation β)
    (m : Machine) :
    (withScope env (x >>= f)).run m = (withScope env x >>= fun a => withScope env (f a)).run m := by
  have whole : (withScope env (x >>= f)).run m =
      ((andThen f (x.run ((Bracket.scope env).entered m))).1, (Bracket.scope env).left m
        (andThen f (x.run ((Bracket.scope env).entered m))).2) := rfl
  have first : (withScope env x).run m = ((x.run ((Bracket.scope env).entered m)).1,
      (Bracket.scope env).left m (x.run ((Bracket.scope env).entered m)).2) := rfl
  have returns := x.returns ((Bracket.scope env).entered m)
  rw [run_bind, whole, first]
  revert returns
  obtain ⟨outcome, after⟩ := x.run ((Bracket.scope env).entered m)
  cases outcome with
  | raised _ | exhausted => exact fun _ => rfl
  | value a =>
    intro returns
    have back := (Bracket.scope env).control_left returns
    have again : (Bracket.scope env).entered ((Bracket.scope env).left m after) = after := by
      change (⟨after.store, _⟩ : Machine) = after
      rw [back, ← show after.control = (Bracket.scope env).enter m.control from returns]
    have second : (withScope env (f a)).run ((Bracket.scope env).left m after) =
        (((f a).run ((Bracket.scope env).entered ((Bracket.scope env).left m after))).1,
          (Bracket.scope env).left ((Bracket.scope env).left m after)
            ((f a).run ((Bracket.scope env).entered ((Bracket.scope env).left m after))).2) := rfl
    rw [andThen_value, andThen_value, second, again]
    refine congrArg (Prod.mk _) ?_
    rw [Bracket.left, Bracket.left, back]

/-- What follows on a value may be replaced by what runs alike with the same control state, which is
the one that it runs with. -/
theorem run_bind_congr_of_control {x : Evaluation α} {f g : α → Evaluation β} {m : Machine}
    (alike : ∀ a after, after.control = m.control → (f a).run after = (g a).run after) :
    (x >>= f).run m = (x >>= g).run m := by
  rw [run_bind, run_bind]
  have returns := x.returns m
  revert returns
  obtain ⟨outcome, after⟩ := x.run m
  cases outcome with
  | value a => exact alike a after
  | raised _ | exhausted => exact fun _ => rfl

/-- The same round with another view of its state. -/
def Round.map (view : σ → τ) : Round σ α → Round τ α
  | .again state => .again (view state)
  | .done a => .done a

/-- Two loops whose rounds run alike from one control state, up to a view of what they hand on, run
alike from it. -/
theorem run_iterate_of_rounds (view : σ → τ) {first : σ → Evaluation (Round σ α)}
    {second : τ → Evaluation (Round τ α)} {c : Control}
    (alike : ∀ state m, m.control = c →
      (second (view state)).run m = (Round.map view <$> first state).run m)
    (bound : Nat) (state : σ) {m : Machine} (here : m.control = c) :
    (iterate bound second (view state)).run m = (iterate bound first state).run m := by
  induction bound generalizing state m with
  | zero => rfl
  | succ bound ih =>
    rw [iterate_succ, iterate_succ, run_bind, alike state m here, ← run_bind, map_eq_pure_bind,
      bind_assoc]
    refine run_bind_congr_of_control fun decided after same => ?_
    cases decided with
    | again state => exact ih state (same.trans here)
    | done => rfl

end Evaluation

namespace Evaluate

open Evaluation

/-- How a loop goes on after a round, under another view of what its rounds hand on. -/
theorem map_afterRound {σ τ : Type} (view : σ → τ) (labels : List String) (last : Value)
    (ending : Ending) (next : Value → Evaluation (Round σ Ending)) :
    Round.map view <$> afterRound labels last ending next =
      afterRound labels last ending fun last => Round.map view <$> next last := by
  unfold afterRound
  split
  · rfl
  · rw [map_pure]
    rfl

/-- A loop that declares no names has its next round where it has the last one. -/
theorem run_nextScope_nil (m : Machine) :
    (nextScope []).run m = (.value m.control.lexical, m) := rfl

/-- The rounds of a loop that declares no names and has no update are those of a `while` loop. -/
theorem forRounds_run_eq_whileLoop (bound : Nat) (labels : List String) (test : Evaluation Value)
    (body : Evaluation Ending) (m : Machine) :
    (forRounds bound labels [] (some test) none body).run m =
      (whileLoop bound labels test body).run m := by
  unfold forRounds whileLoop
  rw [run_bind, run_nextScope_nil, andThen_value]
  refine run_iterate_of_rounds (fun last => (m.control.lexical, last)) ?_ bound _ rfl
  intro last start here
  rw [← here, run_bind, run_withScope_lexical, ← run_bind, map_bind]
  dsimp only
  rw [map_eq_pure_bind, bind_assoc]
  refine run_bind_congr_of_control fun value tested same => ?_
  rw [pure_bind]
  split
  · rw [← same, run_bind, run_withScope_lexical, ← run_bind, map_bind]
    refine run_bind_congr_of_control fun ending after same => ?_
    rw [map_afterRound]
    unfold afterRound
    split
    -- The next round begins in the scope that this one has been in.
    · rw [← same, run_bind, run_withScope_lexical, run_nextScope_nil]
      rfl
    · rfl
  · rfl

/-- A `while` statement and the `for` statement with the same test and body, and nothing else in its
head, run alike: for every time that loops are given they end in the same way, with the same value
and target or raising the same, and leave the same machine, or neither ends in that time. -/
theorem execute_while_run_eq_for (call : Caller) (bound : Nat) (labels : List String)
    (test : Expression) (body : Statement) (span span' : Span) (scope : Scope) (m : Machine) :
    (execute call bound labels (.whileLoop span test body)).run m =
      (execute call bound labels (.forLoop span' none (some test) none body scope)).run m := by
  have rounds := forRounds_run_eq_whileLoop bound labels (evaluate call test)
    (execute call bound [] body) m
  unfold execute forLoop
  exact congrArg (andThen _) rounds.symm

end Evaluate

end ScriptEngine
