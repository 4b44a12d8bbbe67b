import ScriptEngine.Evaluate.Call
import ScriptEngine.Proofs.Evaluation.Run

/-!
# Evaluations that do the same

From some machine on, one evaluation may do just what another one does: it goes through the same
moments, has the same incidents and ends in the same way (`Alike`). What has a value without doing
anything (`Has`) may be left out of a sequence. A native function does what its behaviour is, one
call further in (`invoke_native_alike`).
-/
namespace ScriptEngine

namespace Evaluation

variable {α β : Type} {x y z : Evaluation α} {f : α → Evaluation β} {m : Machine} {a : α} {b : β}

/-- The evaluation has a value, and does nothing else. -/
structure Has (x : Evaluation α) (m : Machine) (a : α) : Prop where
  run : x.run m = (.value a, m)
  moments : x.moments m = []
  incidents : x.incidents m = []

/-- From a machine on, two evaluations go through the same moments and end in the same way, with
the same incidents. -/
structure Alike (x y : Evaluation α) (m : Machine) : Prop where
  run : x.run m = y.run m
  moments : x.moments m = y.moments m
  incidents : x.incidents m = y.incidents m

theorem has_pure (a : α) (m : Machine) : (pure a : Evaluation α).Has m a := ⟨rfl, rfl, rfl⟩

theorem has_ask (question : Store → α) (m : Machine) : (ask question).Has m (question m.store) :=
  ⟨rfl, rfl, rfl⟩

/-- What has a value is left out. -/
theorem Has.alike (has : x.Has m a) : (x >>= f).Alike (f a) m where
  run := by rw [run_bind, has.run, andThen_value]
  moments := by rw [moments_bind has.run, has.moments, List.nil_append]
  incidents := by rw [incidents_bind has.run, has.incidents, List.nil_append]

namespace Alike

theorem refl (x : Evaluation α) (m : Machine) : x.Alike x m := ⟨rfl, rfl, rfl⟩

theorem trans (first : x.Alike y m) (second : y.Alike z m) : x.Alike z m :=
  ⟨first.run.trans second.run, first.moments.trans second.moments,
    first.incidents.trans second.incidents⟩

theorem has (alike : x.Alike y m) (has : y.Has m a) : x.Has m a :=
  ⟨alike.run.trans has.run, alike.moments.trans has.moments, alike.incidents.trans has.incidents⟩

/-- What follows does the same after either of them. -/
theorem bind (alike : x.Alike y m) (f : α → Evaluation β) : (x >>= f).Alike (y >>= f) m where
  run := by rw [run_bind, alike.run, run_bind]
  moments := by
    change x.moments m ++ momentsAfter f (x.run m) = y.moments m ++ momentsAfter f (y.run m)
    rw [alike.run, alike.moments]
  incidents := by
    change x.incidents m ++ incidentsAfter f (x.run m) = y.incidents m ++ incidentsAfter f (y.run m)
    rw [alike.run, alike.incidents]

theorem bracket {b : Bracket} (alike : x.Alike y (b.entered m)) :
    (Evaluation.bracket b x).Alike (Evaluation.bracket b y) m := by
  constructor <;> simp only [Evaluation.bracket, alike.run, alike.moments, alike.incidents]

end Alike

theorem Has.bind (first : x.Has m a) (second : (f a).Has m b) : (x >>= f).Has m b :=
  first.alike.has second

end Evaluation

namespace Evaluate

open Evaluation

/-- Evaluates one call further in, with one call less to go. -/
def oneDeeper {α : Type} (body : Nat → Evaluation α) : Nat → Evaluation α
  | 0 => fail .callDepth
  | remaining + 1 => enteringCall (body remaining)

variable {m : Machine} {bound : Nat}

/-- A native function does what it is there for one call further in. -/
theorem invoke_native_alike {id : ObjectId} {code : NativeCode} {arguments : List Value}
    {receiver : Value} {body : Nat → Evaluation Value}
    (native : (m.store.object id).kind = .native code)
    (does : ∀ remaining, (Library.perform
        ⟨invoke bound remaining, runScript (invoke bound remaining) bound⟩ code.behaviour receiver
        arguments).Alike (body remaining) (Bracket.call.entered m)) (remaining : Nat) :
    (invoke bound remaining id receiver arguments).Alike (oneDeeper body remaining) m := by
  cases remaining with
  | zero => exact .refl _ m
  | succ remaining =>
    have native : ((Bracket.call.entered m).store.object id).kind = .native code := native
    refine Alike.bracket (Alike.trans (has_ask _ _).alike ?_)
    rw [native]
    exact does remaining

/-- A failure one call further in, or there is no room for the call. Nothing has changed. -/
theorem oneDeeper_fail (cause : Cause) (remaining : Nat) (m : Machine) :
    ∃ reason, (reason = cause ∨ reason = .callDepth) ∧
      (oneDeeper (fun _ => (fail cause : Evaluation Value)) remaining).run m =
        (.raised (.error reason), m) := by
  cases remaining with
  | zero => exact ⟨.callDepth, .inr rfl, rfl⟩
  | succ remaining =>
    rw [oneDeeper, enteringCall]
    by_cases full : m.control.limit ≤ m.control.depth
    · refine ⟨.callDepth, .inr rfl, ?_⟩
      exact run_bracket_refused (b := .call) (if_pos full) _
    · refine ⟨cause, .inl rfl, ?_⟩
      exact run_bracket (b := .call) (if_neg full) _

end Evaluate

end ScriptEngine
