import ScriptEngine.Evaluate.Script
import ScriptEngine.Library.Perform

/-!
# Calls

How functions run. Every call counts against the limit of the machine, and the calls that it makes
in turn are the calls of a machine with one call less to go; so the recursion ends where the limit
is reached. Loops get `bound` rounds.
-/
namespace ScriptEngine.Evaluate

open Evaluation

/-- What a function does once it has been called. -/
def applyFunction (call : Caller) (bound : Nat) : Caller := fun f receiver arguments => do
  match ← ask fun s => (s.object f).kind with
  | .script code closure => runFunction call bound f code closure receiver arguments
  | .native code =>
    Library.perform ⟨call, runScript call bound⟩ code.behaviour receiver arguments
  | _ => fail (.notCallable (← ask (·.plainText (.object f))))

/-- Runs a function in a machine in which `remaining` more calls can be in progress at a time. -/
def invoke (bound : Nat) : Nat → Caller
  | 0 => fun _ _ _ => fail .callDepth
  | remaining + 1 => fun f receiver arguments =>
    enteringCall (applyFunction (invoke bound remaining) bound f receiver arguments)

end ScriptEngine.Evaluate
