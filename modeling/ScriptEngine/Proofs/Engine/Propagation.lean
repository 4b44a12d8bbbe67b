import ScriptEngine.Proofs.Congruence.Statements
import ScriptEngine.Proofs.Engine.Reachable
import ScriptEngine.Proofs.Tree.Accepted

/-!
# What a host function raises

Whatever a host function raises, everything that waits for it ends with exactly that, and nothing
is written any more: no operator, no conversion and no other native function looks at what is
raised, so nobody can replace it or go on after it. Only a `try` statement does look, and the
constructor of functions, which runs a whole script. That nobody else does is shown of each
expression, statement and function from what it is put together of (`invoke_transparent`). An
evaluation at which nobody has looked forwards what a host function raises by the way it is built
(`Evaluation.forwards`).

Main result: `host_failure_forwarded`.
-/
namespace ScriptEngine

open Evaluation Congruence Operation Evaluate

variable {α β σ : Type} {x : Evaluation α} {m left : Machine} {r : Raised} {s : Store}

namespace Evaluation

/-- On the way a `try` statement is executed. -/
inductive Tries (x : Evaluation α) (m : Machine) : Prop where
  | intro {call : Caller} {bound : Nat} {labels : List String} {span : Span} {block : Block}
    {handler : Option Handler} {finalizer : Option Block} {start : Machine}
    (comes : Comes (execute call bound labels (.attempt span block handler finalizer)) start x m)

/-- On the way the constructor of functions is called. -/
inductive Compiles (x : Evaluation α) (m : Machine) : Prop where
  | intro {services : Services} {receiver : Value} {arguments : List Value} {start : Machine}
    (comes : Comes (Library.perform services .function receiver arguments) start x m)

/-- On the way a call of a host function ends with something raised, in the machine that is left. -/
inductive HostFails (x : Evaluation α) (m : Machine) (r : Raised) (left : Machine) : Prop where
  | intro {services : Services} {function : HostFunction} {receiver : Value}
    {arguments : List Value} {start : Machine}
    (called : Comes (Library.perform services (.host function) receiver arguments) start x m)
    (ended : (Library.perform services (.host function) receiver arguments).run start =
      (.raised r, left))

/-! ## Incidents of what an evaluation comes to -/

/-- The end of a host function that fails is an incident of everything that comes to it. -/
theorem HostFails.failed (fails : x.HostFails m r left) : .failed r left.store ∈ x.incidents m := by
  obtain @⟨services, function, receiver, arguments, start, called, ended⟩ := fails
  refine called.incidents (List.mem_append_right _ ?_)
  change (Library.host services function receiver arguments).run start = _ at ended
  rw [ended]
  exact List.mem_cons_self

/-- A `try` statement looks at what its block raises. -/
theorem Tries.attempted (tries : x.Tries m) : .attempted .statement ∈ x.incidents m := by
  obtain @⟨call, bound, labels, span, block, handler, finalizer, start, comes⟩ := tries
  refine comes.incidents ?_
  have looks : ∀ {γ : Type} (y : Evaluation γ) (f : Except Raised γ → Evaluation Ending),
      .attempted .statement ∈ (attempt .statement y >>= f).incidents start := fun y f =>
    List.mem_append_left _ (List.mem_append_right _ List.mem_cons_self)
  unfold execute tryStatement
  cases executeFinalizer call bound finalizer with
  | none => exact List.mem_append_left _ (looks _ _)
  | some finishes => exact looks _ _

/-- The constructor of functions lets it be known that it is called. -/
theorem Compiles.compiling (compiles : x.Compiles m) : .compiling ∈ x.incidents m := by
  obtain ⟨comes⟩ := compiles
  exact comes.incidents (List.mem_append_left _ List.mem_cons_self)

/-! ## Who looks at what is raised -/

/-- On the way there is a `try` statement or the constructor of functions. -/
def Handles (x : Evaluation α) (m : Machine) : Prop := x.Tries m ∨ x.Compiles m

theorem Handles.comes {y : Evaluation β} {start : Machine} (handles : y.Handles start)
    (comes : Comes y start x m) : x.Handles m :=
  handles.imp (fun ⟨inside⟩ => ⟨inside.trans comes⟩) fun ⟨inside⟩ => ⟨inside.trans comes⟩

/-- Nobody looks at what is raised on the way but `try` statements and the constructor of
functions. -/
def Transparent (x : Evaluation α) : Prop :=
  ∀ (m : Machine) (why : Attempt), .attempted why ∈ x.incidents m → x.Handles m

namespace Transparent

theorem of_silent (silent : ∀ m why, .attempted why ∉ x.incidents m) : x.Transparent :=
  fun m why mem => absurd mem (silent m why)

theorem bind {f : α → Evaluation β} (first : x.Transparent) (second : ∀ a, (f a).Transparent) :
    (x >>= f).Transparent := by
  intro m why mem
  rcases List.mem_append.1 mem with before | after
  · exact (first m why before).comes (.first .here)
  · cases run : x.run m with
    | mk outcome between =>
      rw [run] at after
      cases outcome with
      | value a => exact (second a between why after).comes (.next run .here)
      | raised _ | exhausted => cases after

theorem reporting (inside : x.Transparent) : (reporting x).Transparent := by
  intro m why mem
  rcases List.mem_append.1 mem with inner | own
  · exact (inside m why inner).comes (.reported .here)
  · revert own
    obtain ⟨outcome, after⟩ := x.run m
    cases outcome with
    | raised _ => exact fun own => nomatch List.mem_singleton.1 own
    | value _ | exhausted => exact fun own => nomatch own

theorem bracket (b : Bracket) (inside : x.Transparent) : (bracket b x).Transparent := by
  intro m why mem
  cases free : b.refusal m.control with
  | some _ =>
    rw [incidents_bracket_refused free] at mem
    cases mem
  | none =>
    rw [incidents_bracket free] at mem
    exact (inside (b.entered m) why mem).comes (.within free .here)

theorem iterate {body : σ → Evaluation (Round σ α)} (round : ∀ state, (body state).Transparent)
    (bound : Nat) (state : σ) : (iterate bound body state).Transparent := by
  induction bound generalizing state with
  | zero => exact of_silent fun _ _ mem => nomatch mem
  | succ bound ih =>
    rw [iterate_succ]
    refine bind (round state) fun decided => ?_
    cases decided with
    | again state => exact ih state
    | done a => exact of_silent fun _ _ mem => nomatch mem

end Transparent

/-- That nobody else looks at what the first of two evaluations raises. It does not hold of attempts,
so it is kept by whatever is put together without them. -/
def transparent : FullCongruence where
  Holds x _ := x.Transparent
  ending _ := .of_silent fun _ _ mem => nomatch mem
  ask _ := .of_silent fun _ _ mem => nomatch mem
  askDepth := .of_silent fun _ _ mem => nomatch mem
  note _ := .of_silent fun _ _ mem => nomatch mem
  noteIf _ _ := .of_silent fun _ _ mem => nomatch mem
  compiling := .of_silent fun _ _ mem => nomatch List.mem_singleton.1 mem
  step _ _ := .of_silent fun _ _ mem => nomatch mem
  editBindings _ _ _ := .of_silent fun _ _ mem => nomatch mem
  bind := .bind
  reporting := .reporting
  askControl _ _ := .of_silent fun _ _ mem => nomatch mem
  withScope _ := .bracket _
  withFrame _ := .bracket _
  iterate _ := fun round => .iterate round _
  attempt _ _ _ := fun _ _ _ => .inl ⟨.here⟩

end Evaluation

/-- The induction is on the number of further calls. A call of the constructor of functions is one of
those who may look. -/
theorem invoke_transparent (bound remaining : Nat) :
    transparent.Callers (invoke bound remaining) (invoke bound remaining) := by
  induction remaining with
  | zero => exact fun _ _ _ => .fail _
  | succ remaining ih =>
    intro f receiver arguments
    let services : Services := ⟨invoke bound remaining, runScript (invoke bound remaining) bound⟩
    have constructor : (Library.function services receiver arguments).Transparent :=
      fun m _ _ => .inr ⟨show Comes (Library.perform services .function receiver arguments) m _ m
        from .here⟩
    exact Transparent.bracket .call
      (applyFunction_related ih (Nat.le_refl bound) f receiver arguments constructor)

/-- What there is to evaluate: an expression, for its value or for what it refers to, a statement,
and a call of a function, also as a constructor. -/
inductive Task where
  | value (e : Expression)
  | target (e : Expression)
  | statement (labels : List String) (statement : Statement)
  | call (f : Value) (receiver : Value) (arguments : List Value)
  | construct (f : Value) (arguments : List Value)

namespace Task

/-- What a task is evaluated to. -/
def Result : Task → Type
  | value _ | call .. | construct .. => Value
  | target _ => Reference
  | statement .. => Ending

/-- The evaluation of a task. -/
def evaluation (calls : Caller) (bound : Nat) : (task : Task) → Evaluation task.Result
  | value e => evaluate calls e
  | target e => reference calls e
  | statement labels s => execute calls bound labels s
  | call f receiver arguments => callValue calls f receiver arguments
  | construct f arguments => Operation.construct calls f arguments

end Task

namespace Task

variable {calls : Caller} {bound : Nat}

theorem transparent (related : Evaluation.transparent.Callers calls calls) (task : Task) :
    (task.evaluation calls bound).Transparent := by
  cases task with
  | value e => exact evaluate_related related e
  | target e => exact reference_related related e
  | statement labels s => exact execute_related related (Nat.le_refl bound) labels s
  | call f receiver arguments => exact callValue_related related f receiver arguments
  | construct f arguments => exact construct_related related f arguments

end Task

namespace Engine

/-- If an expression, a statement or a call on an engine comes to no `try` statement and to no call
of the constructor of functions, and a host function that is called on the way raises something, it
ends with just that, and with the store that the host function has left. -/
theorem host_failure_forwarded (e : Engine) (bound : Nat) (task : Task)
    (tries : ¬ (task.evaluation (e.callerWithin bound) bound).Tries m)
    (compiles : ¬ (task.evaluation (e.callerWithin bound) bound).Compiles m) :
    let x := task.evaluation (e.callerWithin bound) bound
    (∀ r s, .failed r s ∈ x.incidents m → x.run m = (.raised r, ⟨s, m.control⟩)) ∧
      ∀ r left, x.HostFails m r left → x.run m = (.raised r, ⟨left.store, m.control⟩) := by
  intro x
  have calls := invoke_transparent bound e.config.maxCallDepth
  have unattempted : ∀ why, .attempted why ∉ x.incidents m := fun why mem =>
    (task.transparent calls m why mem).elim tries compiles
  have forwarded : ∀ r s, .failed r s ∈ x.incidents m → x.run m = (.raised r, ⟨s, m.control⟩) :=
    x.forwards m unattempted
  exact ⟨forwarded, fun r left fails => forwarded r left.store fails.failed⟩

/-- The only incident in evaluating the only expression of a program is that a host function raises
an error. -/
private def raisesLate (e : Engine) (p : Program) : Bool :=
  match p.tree.body with
  | [.expression _ x] =>
    match (evaluate e.caller x).incidents e.machine with
    | [.failed (.error (.host .rangeError "late")) _] => true
    | _ => false
  | _ => false

/-- An operator converts an object, which runs a getter, which calls a host function that raises an
error. -/
private def failingConversion : Sample "1 + \x7b get valueOf() \x7b return h('late') \x7d \x7d"
    (raisesLate ((create { builtins := false }).defineFunction
      ⟨"h", [], .host (.raise .rangeError)⟩ false)) :=
  .ofSource (by decide +kernel)

/-- The error of the host function is what the conversion ends with. -/
theorem host_failure_forwarded_conversion :
    let h : Method := ⟨"h", [], .host (.raise .rangeError)⟩
    let e := (create { builtins := false }).defineFunction h false
    let source := "1 + \x7b get valueOf() \x7b return h('late') \x7d \x7d"
    ∃ p span x s, Program.compile source "" false = .ok p ∧ p.tree.body = [.expression span x] ∧
      (evaluate e.caller x).run e.machine =
        (.raised (.error (.host .rangeError "late")), ⟨s, e.machine.control⟩) := by
  intro h e source
  obtain ⟨p, compiled, passed⟩ := failingConversion
  unfold raisesLate at passed
  split at passed
  next span x body =>
    split at passed
    next s incidents =>
      refine ⟨p, span, x, s, compiled, body, ?_⟩
      have tries : ¬ (evaluate e.caller x).Tries e.machine := fun tries => by
        have mem := tries.attempted
        rw [incidents] at mem
        cases List.mem_singleton.1 mem
      have compiles : ¬ (evaluate e.caller x).Compiles e.machine := fun compiles => by
        have mem := compiles.compiling
        rw [incidents] at mem
        cases List.mem_singleton.1 mem
      exact (host_failure_forwarded e loopBound (.value x) tries compiles).1 _ s
        (incidents ▸ List.mem_cons_self)
    · cases passed
  · cases passed

end Engine

end ScriptEngine
