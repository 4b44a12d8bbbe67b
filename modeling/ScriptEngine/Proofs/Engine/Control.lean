import ScriptEngine.Proofs.Engine.Reachable
import ScriptEngine.Proofs.Evaluation.Run
import ScriptEngine.Proofs.Tree.Accepted

/-!
# The control state

Between two evaluations of a host nothing is running, and every evaluation leaves the control state
as it found it: the frames, the environments and the `this` of each, and the number of calls in
progress. What runs inside of functions that have been called and have not returned (`InProgress`)
runs in a machine that has counted just these, and finds room for them.

Main result: `control_restored`.
-/
namespace ScriptEngine

/-- Whatever its outcome, the evaluation comes back to the control state that it started in, and at
every moment in between the calls in progress have been counted and are not too many. -/
structure Evaluation.RestoresControl {α : Type} (x : Evaluation α) : Prop where
  restored : ∀ m, (x.run m).2.control = m.control
  counted : ∀ m, ∀ moment ∈ x.moments m,
    moment.machine.control.depth = m.control.depth + moment.calls
  bounded : ∀ m, m.control.depth ≤ m.control.limit → ∀ moment ∈ x.moments m,
    moment.machine.control.depth ≤ m.control.limit

theorem Evaluation.restoresControl {α : Type} (x : Evaluation α) : x.RestoresControl where
  restored := x.returns
  counted m moment mem := ((x.passage m).counts moment mem).depth
  bounded m room moment mem := ((x.passage m).counts moment mem).room room

open Evaluation Evaluate

/-! ## Calls in progress -/

/-- The machine in which one more call is in progress. -/
def Machine.called (m : Machine) : Machine :=
  ⟨m.store, { m.control with depth := m.control.depth + 1 }⟩

namespace Evaluation

variable {α β : Type}

/-- The evaluation goes as another one does with one more call in progress, and comes back from it. -/
structure RunsCalled (x inside : Evaluation α) (m : Machine) : Prop where
  run : x.run m = ((inside.run m.called).1, ⟨(inside.run m.called).2.store, m.control⟩)
  moments : x.moments m = ⟨m.called, 1, none⟩ :: (inside.moments m.called).map (·.inside 1) ++
    [⟨⟨(inside.run m.called).2.store, m.control⟩, 0, none⟩]

/-- The run of an evaluation comes to a part of it when just so many functions have been called that
have not returned. Only a function that there is room for is called. -/
inductive InProgress {β : Type} (part : Evaluation β) (start : Machine) :
    Nat → {α : Type} → Evaluation α → Machine → Prop where
  | here : InProgress part start 0 part start
  | first {n : Nat} {α γ : Type} {x : Evaluation α} {f : α → Evaluation γ} {m : Machine}
    (inside : InProgress part start n x m) : InProgress part start n (x >>= f) m
  | next {n : Nat} {α γ : Type} {x : Evaluation α} {f : α → Evaluation γ} {m between : Machine}
    {a : α} (run : x.run m = (.value a, between))
    (later : InProgress part start n (f a) between) : InProgress part start n (x >>= f) m
  | scope {n : Nat} {env : EnvironmentId} {α : Type} {x : Evaluation α} {m : Machine}
    (inside : InProgress part start n x ⟨m.store, m.control.withLexical env⟩) :
    InProgress part start n (withScope env x) m
  | frame {n : Nat} {frame : Frame} {α : Type} {x : Evaluation α} {m : Machine}
    (inside : InProgress part start n x ⟨m.store, m.control.push frame⟩) :
    InProgress part start n (withFrame frame x) m
  | called {n bound remaining : Nat} {f : ObjectId} {receiver : Value} {arguments : List Value}
    {m : Machine} (room : m.control.depth < m.control.limit)
    (inside : InProgress part start n
      (applyFunction (invoke bound remaining) bound f receiver arguments) m.called) :
    InProgress part start (n + 1) (invoke bound (remaining + 1) f receiver arguments) m
  | attempted {n : Nat} {α : Type} {why : Attempt} {x : Evaluation α} {m : Machine}
    (inside : InProgress part start n x m) : InProgress part start n (attempt why x) m
  | reported {n : Nat} {α : Type} {x : Evaluation α} {m : Machine}
    (inside : InProgress part start n x m) : InProgress part start n (reporting x) m

end Evaluation

namespace Evaluate

variable {bound remaining : Nat} {f : ObjectId} {receiver : Value} {arguments : List Value}
  {m : Machine}

/-- Where as many calls are in progress as there may be, a further one fails without running. -/
theorem invoke_at_limit (bound remaining : Nat) (f : ObjectId) (receiver : Value)
    (arguments : List Value) {m : Machine} (full : m.control.limit ≤ m.control.depth) :
    (invoke bound remaining f receiver arguments).run m = (.raised (.error .callDepth), m) := by
  cases remaining with
  | zero => rfl
  | succ remaining =>
    have refused : Bracket.call.refusal m.control = some .callDepth := if_pos full
    exact run_bracket_refused refused _

theorem call_free (room : m.control.depth < m.control.limit) :
    Bracket.call.refusal m.control = none := if_neg (Nat.not_le.2 room)

/-- Where there is room for a call, the function runs with one more call in progress. -/
theorem invoke_below_limit (room : m.control.depth < m.control.limit) :
    (invoke bound (remaining + 1) f receiver arguments).RunsCalled
      (applyFunction (invoke bound remaining) bound f receiver arguments) m := by
  have returns := Bracket.call.control_left
    ((applyFunction (invoke bound remaining) bound f receiver arguments).returns m.called)
  have left : Bracket.call.left m
      ((applyFunction (invoke bound remaining) bound f receiver arguments).run m.called).2 =
      ⟨_, m.control⟩ := congrArg (Machine.mk _) returns
  constructor
  · exact (run_bracket (call_free room) _).trans (congrArg (Prod.mk _) left)
  · refine (moments_bracket (call_free room) _).trans ?_
    exact congrArg (fun last => _ ++ [(⟨last, 0, none⟩ : Moment)]) left

end Evaluate

namespace Evaluation.InProgress

variable {α β : Type} {part : Evaluation β} {x : Evaluation α} {start m : Machine} {n : Nat}

/-- The machine has counted the calls, and what is done in the part is done inside of them. -/
theorem counted (progress : InProgress part start n x m) :
    start.control.depth = m.control.depth + n ∧ start.control.limit = m.control.limit ∧
      ∀ moment ∈ part.moments start, moment.inside n ∈ x.moments m := by
  induction progress with
  | here => exact ⟨rfl, rfl, fun _ mem => mem⟩
  | first _ ih =>
    exact ⟨ih.1, ih.2.1, fun moment mem => List.mem_append_left _ (ih.2.2 moment mem)⟩
  | @next _ _ _ x _ m between _ run _ ih =>
    have returns := x.returns m
    rw [run] at returns
    refine ⟨returns ▸ ih.1, returns ▸ ih.2.1, fun moment mem => ?_⟩
    rw [moments_bind run]
    exact List.mem_append_right _ (ih.2.2 moment mem)
  | @scope _ env _ x m _ ih =>
    obtain ⟨depth, limit, among⟩ := ih
    rw [Control.depth_withLexical] at depth
    rw [Control.limit_withLexical] at limit
    have free : (Bracket.scope env).refusal m.control = none := rfl
    exact ⟨depth, limit, fun moment mem => mem_moments_bracket free (among moment mem)⟩
  | @frame _ frame _ x m _ ih =>
    have free : (Bracket.frame frame).refusal m.control = none := rfl
    exact ⟨ih.1, ih.2.1, fun moment mem => mem_moments_bracket free (ih.2.2 moment mem)⟩
  | @called n bound remaining f receiver arguments m room _ ih =>
    obtain ⟨depth, limit, among⟩ := ih
    refine ⟨by rw [depth]; simp only [Machine.called]; omega, limit, fun moment mem => ?_⟩
    rw [(invoke_below_limit room).moments, ← Moment.inside_inside]
    exact List.mem_append_left _
      (List.mem_cons_of_mem _ (List.mem_map_of_mem (among moment mem)))
  | attempted _ ih | reported _ ih => exact ih

/-- There is room for the calls in progress. -/
theorem bounded (progress : InProgress part start n x m)
    (room : m.control.depth ≤ m.control.limit) : m.control.depth + n ≤ m.control.limit := by
  induction progress with
  | here => exact room
  | first _ ih | frame _ ih | attempted _ ih | reported _ ih => exact ih room
  | @next _ _ _ x _ m between _ run _ ih =>
    have returns := x.returns m
    rw [run] at returns
    exact returns ▸ ih (returns ▸ room)
  | scope _ ih =>
    rw [Control.depth_withLexical, Control.limit_withLexical] at ih
    exact ih room
  | called free _ ih =>
    have inside := ih free
    simp only [Machine.called] at inside
    omega

end Evaluation.InProgress

namespace Engine

open Evaluation Operation Evaluate

variable {programs : Program → Prop} {natives : Native → Prop} {e : Engine}

/-- No code is running, and no call is in progress. -/
def Idle (e : Engine) : Prop := e.machine.control = ⟨[], 0, e.config.maxCallDepth⟩

namespace Idle

theorem perform {α : Type} (idle : e.Idle) (x : Evaluation α) : (e.perform x).2.Idle :=
  (x.returns e.machine).trans idle

theorem install (idle : e.Idle) (b : BuiltIn) : (e.install b).2.Idle := by
  change (noteConstructor (e.edit (Install.builtIn b)).2 b _).Idle
  unfold noteConstructor
  split <;> exact idle

theorem installAll (idle : e.Idle) (builtIns : List BuiltIn) :
    (builtIns.foldl (fun e b => (e.install b).2) e).Idle := by
  induction builtIns generalizing e with
  | nil => exact idle
  | cons b rest ih => exact ih (idle.install b)

theorem installRegistry (idle : e.Idle) (r : Registry) : (e.installRegistry r).Idle :=
  idle.installAll r.objects

theorem create (config : Config) : (create config).Idle := by
  unfold Engine.create
  extract_lets bare
  have idle : bare.Idle := rfl
  split
  · exact idle.installRegistry Library.core
  · exact idle

end Idle

/-- Between the evaluations of a host nothing is running. -/
theorem Reachable.idle (reachable : Reachable programs natives e) : e.Idle := by
  induction reachable with
  | create config => exact .create config
  | runWithin _ _ _ _ ih | execute _ _ _ _ ih | executeIn _ _ _ _ _ ih | call _ _ _ _ _ ih
  | construct _ _ _ _ ih | readWithin _ _ _ ih => exact ih.perform _
  | defineValue _ _ _ ih | defineFunction _ _ _ _ ih => exact ih

/-- Every expression, statement, call, construction and script comes back to the control state that
it started in, from whatever machine and with whatever outcome, and counts the calls in progress
on the way. What a host evaluates on a reachable engine starts with nothing running, so there the
count is the number of functions that have been called and have not returned, and stays within the
limit of the engine. Where there is room for a call, the function runs with just one more call in
progress; where the limit is reached, a further call fails without running. -/
theorem control_restored (reachable : Reachable programs natives e) :
    e.machine.control = ⟨[], 0, e.config.maxCallDepth⟩ ∧
      (∀ {α : Type} (x : Evaluation α), (e.perform x).2.machine.control = e.machine.control ∧
        (∀ moment ∈ x.moments e.machine,
          moment.machine.control.depth = moment.calls ∧ moment.calls ≤ e.config.maxCallDepth) ∧
        ∀ {β : Type} (part : Evaluation β) (start : Machine) (n : Nat),
          InProgress part start n x e.machine →
            start.control.depth = n ∧ n ≤ e.config.maxCallDepth ∧
              ∀ moment ∈ part.moments start, moment.inside n ∈ x.moments e.machine) ∧
      (∀ (call : Caller) (bound : Nat),
        (∀ expression, (evaluate call expression).RestoresControl) ∧
        (∀ place, (reference call place).RestoresControl) ∧
        (∀ labels statement, (execute call bound labels statement).RestoresControl) ∧
        (∀ last statements, (executeList call bound last statements).RestoresControl) ∧
        (∀ f receiver arguments, (callValue call f receiver arguments).RestoresControl) ∧
        (∀ f arguments, (construct call f arguments).RestoresControl) ∧
        (∀ script env, (runScript call bound script env).RestoresControl) ∧
        ∀ script, (scriptValue call bound script).RestoresControl) ∧
      ∀ bound remaining f receiver arguments,
        (invoke bound remaining f receiver arguments).RestoresControl ∧
        (∀ m : Machine, m.control.limit ≤ m.control.depth →
          (invoke bound remaining f receiver arguments).run m =
            (.raised (.error .callDepth), m)) ∧
        ∀ m : Machine, m.control.depth < m.control.limit →
          (invoke bound (remaining + 1) f receiver arguments).RunsCalled
            (applyFunction (invoke bound remaining) bound f receiver arguments) m := by
  have idle : e.machine.control = ⟨[], 0, e.config.maxCallDepth⟩ := reachable.idle
  refine ⟨idle, fun x => ⟨x.returns e.machine, fun moment mem => ?_,
    fun part start n progress => ?_⟩, fun call bound => ?_, ?_⟩
  · have counted := x.restoresControl.counted e.machine moment mem
    have bounded := x.restoresControl.bounded e.machine
    rw [idle, Nat.zero_add] at counted
    rw [idle] at bounded
    exact ⟨counted, counted ▸ bounded (Nat.zero_le _) moment mem⟩
  · obtain ⟨depth, -, among⟩ := progress.counted
    have bounded := progress.bounded
    rw [idle, Nat.zero_add] at depth
    rw [idle, Nat.zero_add] at bounded
    exact ⟨depth, bounded (Nat.zero_le _), among⟩
  · exact ⟨fun _ => restoresControl _, fun _ => restoresControl _, fun _ _ => restoresControl _,
      fun _ _ => restoresControl _, fun _ _ _ => restoresControl _, fun _ _ => restoresControl _,
      fun _ _ => restoresControl _, fun _ => restoresControl _⟩
  · exact fun bound remaining f receiver arguments => ⟨restoresControl _,
      fun m full => invoke_at_limit bound remaining f receiver arguments full,
      fun m room => invoke_below_limit room⟩

/-- Just one call is in progress, in a scope inside of its function. -/
private def inScope (moment : Moment) : Bool :=
  match moment.machine.control.frames with
  | [frame] => moment.calls == 1 && frame.lexical != frame.varScope
  | _ => false

/-- The only expression of a program throws a number out of a scope in a function. -/
private def throwsOutOfScope (e : Engine) (p : Program) : Bool :=
  match p.tree.body with
  | [.expression _ x] =>
    match (evaluate e.caller x).run e.machine with
    | (.raised (.thrown (.number (.integer 1))), _) =>
      ((evaluate e.caller x).moments e.machine).any inScope
    | _ => false
  | _ => false

/-- A function is called, enters the scope of a block, and throws what it finds there. -/
private def throwing : Sample "(function () { { let x = 1; throw x } })()"
    (throwsOutOfScope (create { builtins := false })) :=
  .ofSource (by decide +kernel)

/-- The call is counted while it is in the scope of the block, and not when it has thrown. -/
theorem control_restored_thrown :
    let e := create { builtins := false }
    let source := "(function () { { let x = 1; throw x } })()"
    ∃ p span x, Program.compile source "" false = .ok p ∧ p.tree.body = [.expression span x] ∧
      ((evaluate e.caller x).run e.machine).1 = .raised (.thrown (.number (.integer 1))) ∧
      (∃ moment ∈ (evaluate e.caller x).moments e.machine,
        moment.machine.control.depth = 1 ∧ ∃ frame, moment.machine.control.frames = [frame] ∧
          frame.lexical ≠ frame.varScope) ∧
      (e.perform (evaluate e.caller x)).2.machine.control = e.machine.control := by
  intro e source
  obtain ⟨p, compiled, passed⟩ := throwing
  unfold throwsOutOfScope at passed
  split at passed
  next span x body =>
    split at passed
    next after ended =>
      have reachable : Reachable (fun _ => True) (fun _ => True) e := .create { builtins := false }
      have restored := (control_restored reachable).2.1 (evaluate e.caller x)
      obtain ⟨moment, mem, inScope⟩ := List.any_eq_true.1 passed
      refine ⟨p, span, x, compiled, body, congrArg Prod.fst ended, ⟨moment, mem, ?_⟩, restored.1⟩
      unfold Engine.inScope at inScope
      split at inScope
      next frame frames =>
        obtain ⟨calls, different⟩ := Bool.and_eq_true_iff.1 inScope
        exact ⟨(restored.2.1 moment mem).1.trans (eq_of_beq calls), frame, frames,
          by simpa using different⟩
      · cases inScope
    · cases passed
  · cases passed

end Engine

end ScriptEngine
