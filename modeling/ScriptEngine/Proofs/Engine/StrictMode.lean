import ScriptEngine.Proofs.Engine.Control
import ScriptEngine.Proofs.Engine.History
import ScriptEngine.Proofs.Engine.Kinds
import ScriptEngine.Proofs.Tree.Strictness

/-!
# Where code comes from, and whether it is strict

Every script function in an engine stands in a program, or in another function of it: a program
that the host runs, or one that the `Function` constructor compiles. What runs at a moment is the
code of such functions and programs, each in a frame that is as strict as its code, and programs of
the constructor only run inside of its calls. This holds at every moment of every history
(`History.sourced`).

An engine that is configured to be strict compiles all programs as strict code, with all functions
in them. The `Function` constructor does not: its source is only strict if it says so itself. Main
result: what comes from this constructor apart, all code that runs on such an engine is strict
(`strict_unless_constructed`), so it creates no global by assigning to a name that is not declared,
and gets the receiver of a call as it is.
-/
namespace ScriptEngine

/-! ## Where code comes from -/

section

variable (programs : Program → Prop)

/-- A program of the host, or one that the `Function` constructor compiles. -/
def Program.IsSource (p : Program) : Prop := programs p ∨ p.Constructed

/-- The function comes from a program. -/
def FunctionCode.Sourced (code : FunctionCode) : Prop :=
  ∃ p, Program.IsSource programs p ∧ p.tree.Makes code

/-- A script function of this kind was accepted, and comes from a program. -/
def ObjectKind.Sourced : ObjectKind → Prop
  | .script code _ => code.Judged ∧ code.Sourced programs
  | _ => True

/-- What runs in a frame is a function of the store, or a program of the host, or where a call is in
progress also one of the `Function` constructor. The frame is as strict as the code. -/
def Frame.Sourced (s : Store) (c : Control) (frame : Frame) : Prop :=
  match frame.function with
  | some f => ∃ code closure, (s.object f).kind = .script code closure ∧ frame.strict = code.strict
  | none => ∃ p, (programs p ∨ p.Constructed ∧ 0 < c.depth) ∧ frame.strict = p.tree.scope.strict

/-- All code of a machine comes from programs. -/
structure Machine.Sourced (m : Machine) : Prop where
  functions : m.store.Kinds (ObjectKind.Sourced programs)
  frames : ∀ frame ∈ m.control.frames, frame.Sourced programs m.store m.control

end

variable {programs : Program → Prop}

theorem ObjectKind.sourced_of_not_function (kind : ObjectKind) (plain : kind.isFunction = false) :
    kind.Sourced programs := by
  cases kind with
  | script => cases plain
  | _ => trivial

namespace Frame.Sourced

variable {s t : Store} {c c' : Control} {frame : Frame}

/-- Functions stay in the store, so a frame goes on running what it runs. -/
theorem step (sourced : frame.Sourced programs s c) (taken : s.Step t) :
    frame.Sourced programs t c := by
  unfold Frame.Sourced at sourced ⊢
  cases running : frame.function with
  | none => simpa only [running] using sourced
  | some f =>
    simp only [running] at sourced ⊢
    obtain ⟨code, closure, kind, strict⟩ := sourced
    exact ⟨code, closure, taken.reaches.kind_script kind, strict⟩

/-- It may be inside of further calls that a frame runs. -/
theorem deeper (sourced : frame.Sourced programs s c) (depth : c.depth ≤ c'.depth) :
    frame.Sourced programs s c' := by
  unfold Frame.Sourced at sourced ⊢
  cases running : frame.function with
  | some f => simpa only [running] using sourced
  | none =>
    simp only [running] at sourced ⊢
    obtain ⟨p, source, strict⟩ := sourced
    exact ⟨p, source.imp_right fun inCall => ⟨inCall.1, Nat.lt_of_lt_of_le inCall.2 depth⟩, strict⟩

end Frame.Sourced

/-- The contract of evaluations in which all code comes from programs. -/
def Contract.sourced (programs : Program → Prop) : Contract where
  store _ := Store.Kinds (ObjectKind.Sourced programs)
  control _ := True
  running s c := ∀ frame ∈ c.frames, frame.Sourced programs s c
  lasts taken running frame mem := (running frame mem).step taken
  raised _ := True
  code code := code.Judged ∧ code.Sourced programs

/-- The environment in which names are looked up does not matter to what runs. -/
theorem Frame.sourced_withLexical {s : Store} {c : Control} (env : EnvironmentId)
    (running : ∀ frame ∈ c.frames, frame.Sourced programs s c) :
    ∀ frame ∈ (c.withLexical env).frames, frame.Sourced programs s (c.withLexical env) := by
  have depth : c.depth ≤ (c.withLexical env).depth := Nat.le_of_eq (c.depth_withLexical env).symm
  obtain ⟨frames, d, limit⟩ := c
  cases frames with
  | nil => exact nofun
  | cons first rest =>
    intro frame mem
    rcases List.mem_cons.1 mem with rfl | mem
    · exact (running first List.mem_cons_self).deeper depth
    · exact (running frame (List.mem_cons_of_mem first mem)).deeper depth

/-- A program may run where its source is one that code may come from. -/
theorem Program.admitted {p : Program} (accepted : p.Accepted) {C : Contract}
    (running : C.running = (Contract.sourced programs).running)
    (source : ∀ c, C.control c → programs p ∨ p.Constructed ∧ 0 < c.depth)
    (isSource : Program.IsSource programs p) :
    C.Admits (FunctionCode.Sourced programs) p.tree where
  judged := accepted.judged
  each code mem := ⟨p, isSource, .here mem⟩
  runs {s c} lexical env control before := by
    rw [running] at before ⊢
    exact List.forall_mem_cons.2 ⟨⟨p, source c control, rfl⟩, before⟩

theorem Contract.sourced_governing :
    (Contract.sourced programs).Governing (FunctionCode.Sourced programs) where
  quiet taken _ plain holds :=
    ⟨Store.Kinds.step ObjectKind.sourced_of_not_function holds taken plain, trivial⟩
  script kind allowed holds := by
    refine ⟨Store.Kinds.allocate holds ?_, trivial⟩
    rw [kind]
    exact allowed
  introduced _ _ edited _ holds := ⟨Store.Kinds.editBindings holds edited, trivial⟩
  initial edited holds := ⟨Store.Kinds.editBindings holds edited, trivial⟩
  noted _ := id
  error _ := trivial
  thrown _ := trivial
  scopeEntered _ _ := trivial
  callEntered _ := trivial
  scopeRuns env running := Frame.sourced_withLexical env running
  callRuns running frame mem := (running frame mem).deeper (Nat.le_succ _)
  frameEntered _ _ := trivial
  judged judged sourced := ⟨judged, sourced⟩
  inside := by
    rintro code ⟨p, source, made⟩ inner mem
    exact ⟨p, source, made.inside mem⟩
  made {_ s f code closure} holds kind := by
    have sourced : (s.object f).kind.Sourced programs := holds f
    rwa [kind] at sourced
  faults _ _ _ _ := trivial
  functionRuns env receiver holds kind running :=
    List.forall_mem_cons.2 ⟨⟨_, _, kind, rfl⟩, running⟩
  constructed constructed :=
    Program.admitted constructed.accepted rfl (fun c inCall => .inr ⟨constructed, inCall.2⟩)
      (.inr constructed)

namespace Engine

open Evaluation Operation Evaluate Contract

variable {natives : Native → Prop}

/-- What a host evaluates runs only code that comes from programs. -/
theorem HostEvaluation.sourced (accepted : ∀ p, programs p → p.Accepted) {e : Engine} {α : Type}
    {x : Evaluation α} (hosted : HostEvaluation programs e x) :
    (Contract.sourced programs).Safe x := by
  have governing := @sourced_governing programs
  have calls : ∀ bound, (Contract.sourced programs).Calls (e.callerWithin bound) :=
    fun bound => invoke_safe governing bound e.config.maxCallDepth
  have admitted : ∀ p, programs p →
      (Contract.sourced programs).Admits (FunctionCode.Sourced programs) p.tree :=
    fun p admitted =>
      Program.admitted (accepted p admitted) rfl (fun _ _ => .inl admitted) (.inl admitted)
  cases hosted with
  | runWithin bound p source =>
    exact scriptValue_safe governing (calls bound) (admitted p source) bound
  | execute bound p source =>
    exact (execution_keeps governing (calls bound) (admitted p source) bound).safe
  | executeIn bound p source env =>
    exact (runScript_keeps governing (calls bound) bound (admitted p source) env).safe
  | call bound f receiver arguments =>
    exact callValue_safe governing.toLawful (calls bound) f receiver arguments
  | construct bound f arguments =>
    exact construct_safe governing.toLawful (calls bound) f arguments
  | readWithin bound name => exact binding_safe governing.toLawful (calls bound) name

/-- Between the evaluations of a host there are no frames. -/
theorem History.frames {moments : List Moment} {e : Engine}
    (history : History programs natives moments e) : e.machine.control.frames = [] := by
  have idle := Reachable.idle (reachable_iff_history.2 ⟨moments, history⟩)
  rw [idle]

/-- Where nothing runs, it is enough that the functions come from programs. -/
private theorem sourced_of_idle {m : Machine} (idle : m.control.frames = [])
    (functions : m.store.Kinds (ObjectKind.Sourced programs)) : m.Sourced programs where
  functions := functions
  frames frame mem := by
    rw [idle] at mem
    cases mem

/-- Whatever programs a host runs on an engine and whatever else it does, at every moment all code
comes from these programs and from those of the `Function` constructor. -/
theorem History.sourced (accepted : ∀ p, programs p → p.Accepted) {moments : List Moment}
    {e : Engine} (history : History programs natives moments e) :
    e.machine.Sourced programs ∧ ∀ now ∈ moments, now.machine.Sourced programs := by
  have plain := @ObjectKind.sourced_of_not_function programs
  have kept : ∀ natives, Install.Kept natives (Store.Kinds (ObjectKind.Sourced programs)) :=
    fun _ => Store.Kinds.kept plain fun _ _ => trivial
  have idle := history.frames
  induction history with
  | create config =>
    have bare : WellKnown.store.Kinds (ObjectKind.Sourced programs) :=
      Store.Kinds.store plain fun _ _ => trivial
    have created := sourced_of_idle idle
      (store_create (kept fun _ => True) (fun _ _ => trivial) bare config)
    exact ⟨created, List.forall_mem_singleton.2 created⟩
  | @evaluate moments e before α x hosted ih =>
    obtain ⟨⟨functions, frames⟩, earlier⟩ := ih before.frames
    obtain ⟨through, stop, -, runs⟩ := hosted.sourced accepted [] e.machine functions trivial
    have during : ∀ now ∈ x.moments e.machine, now.machine.Sourced programs :=
      fun now mem => ⟨(through.store_of_mem mem).elim fun _ => id, runs frames now mem⟩
    have after := sourced_of_idle idle stop
    exact ⟨after, List.forall_mem_append.2
      ⟨List.forall_mem_append.2 ⟨earlier, during⟩, List.forall_mem_singleton.2 after⟩⟩
  | @defineValue moments e before name value ih =>
    obtain ⟨⟨functions, -⟩, earlier⟩ := ih before.frames
    have after := sourced_of_idle idle ((kept natives).global name value _ functions)
    exact ⟨after, List.forall_mem_append.2 ⟨earlier, List.forall_mem_singleton.2 after⟩⟩
  | @defineFunction moments e before m isConstructor admitted ih =>
    obtain ⟨⟨functions, -⟩, earlier⟩ := ih before.frames
    have after := sourced_of_idle idle
      (store_defineFunction (kept natives) admitted isConstructor functions)
    exact ⟨after, List.forall_mem_append.2 ⟨earlier, List.forall_mem_singleton.2 after⟩⟩

end Engine

/-! ## Strict mode -/

/-- A program that was compiled as strict code is strict, and so are all functions in it. -/
theorem Program.strict_of_compile {source name : String} {p : Program}
    (compiled : compile source name true = .ok p) :
    p.strict = true ∧ ∀ code, p.tree.Makes code → code.strict = true := by
  have marked : ∃ asks, Marked.Script asks true p.tree := by
    unfold compile at compiled
    split at compiled
    · cases compiled
    next read =>
      split at compiled
      · cases compiled
        exact ⟨_, Script.tree_marked (Script.tree_of_read read)⟩
      · cases compiled
  obtain ⟨asks, marked⟩ := marked
  have own := ((Marked.scope_iff _).1 marked.own).1
  exact ⟨own, fun code made => made.strict marked⟩

/-- The function stands in a program that the `Function` constructor compiles. -/
def FunctionCode.Constructed (code : FunctionCode) : Prop :=
  ∃ p : Program, p.Constructed ∧ p.tree.Makes code

/-- What runs in a frame of a machine was compiled by the `Function` constructor: it is a function
from there, or the program itself, inside of the call. -/
def Frame.Constructed (m : Machine) (frame : Frame) : Prop :=
  match frame.function with
  | some f => ∃ code closure, (m.store.object f).kind = .script code closure ∧ code.Constructed
  | none => 0 < m.control.depth ∧ ∃ p : Program, p.Constructed ∧ frame.strict = p.strict

section

variable {programs : Program → Prop}
  (strict : ∀ p, programs p → p.strict = true ∧ ∀ code, p.tree.Makes code → code.strict = true)

include strict

theorem FunctionCode.Sourced.strict_or_constructed {code : FunctionCode}
    (sourced : code.Sourced programs) : code.strict = true ∨ code.Constructed := by
  obtain ⟨p, hosted | constructed, made⟩ := sourced
  · exact .inl ((strict p hosted).2 code made)
  · exact .inr ⟨p, constructed, made⟩

theorem Machine.Sourced.frame_strict_or_constructed {m : Machine} (sourced : m.Sourced programs)
    {frame : Frame} (mem : frame ∈ m.control.frames) :
    frame.strict = true ∨ frame.Constructed m := by
  have runs := sourced.frames frame mem
  unfold Frame.Sourced at runs
  unfold Frame.Constructed
  cases running : frame.function with
  | none =>
    simp only [running] at runs ⊢
    obtain ⟨p, hosted | ⟨constructed, inCall⟩, own⟩ := runs
    · exact .inl (own.trans (strict p hosted).1)
    · exact .inr ⟨inCall, p, constructed, own⟩
  | some f =>
    simp only [running] at runs ⊢
    obtain ⟨code, closure, kind, own⟩ := runs
    have function := sourced.functions f
    rw [kind] at function
    rcases function.2.strict_or_constructed strict with isStrict | constructed
    · exact .inl (own.trans isStrict)
    · exact .inr ⟨code, closure, kind, constructed⟩

end

/-! ### What strict code does -/

namespace Operation

open Evaluation

/-- In strict code a name that is not declared denotes no place that can be assigned to, and the
attempt changes nothing. -/
theorem putValue_undeclared {m : Machine} (strict : m.control.strict = true) {name : String}
    (undeclared : m.store.resolve m.control.lexical name = none) :
    ∃ r, (resolveHere name).run m = (.value r, m) ∧ ∀ call value m',
      (putValue call r value).run m' = (.raised (.error (.notDefined name)), m') := by
  refine ⟨⟨.unresolvable, name, true⟩, ?_, fun call value m' => rfl⟩
  have resolved :
      (resolveHere name).run m = (resolve m.control.lexical name m.control.strict).run m := rfl
  simp only [resolved, resolve, run_ask, undeclared, strict]

end Operation

namespace Evaluate

open Evaluation

/-- A strict function runs in a strict frame of its own, with the receiver of the call as it is. -/
theorem runFunction_strict {code : FunctionCode} (strict : code.strict = true) (call : Caller)
    (bound : Nat) (f : ObjectId) (closure : EnvironmentId) (receiver : Value)
    (arguments : List Value) :
    runFunction call bound f code closure receiver arguments = (do
      let env ← openScope closure
      let ending ← withFrame ⟨env, env, receiver, true, some f⟩ do
        let lexical ← declareCall f code env arguments
        withScope lexical (executeList call bound none code.body)
      callResultOf ending) := by
  unfold runFunction receiverFor
  simp only [strict, if_true, pure_bind]

end Evaluate

namespace Engine

open Evaluation Operation Evaluate

variable {natives : Native → Prop}

/-- The programs that an engine compiles. -/
def Compiles (e : Engine) (p : Program) : Prop :=
  ∃ source name, e.compileNamed source name = .ok p

/-- On an engine that is configured to be strict, whatever programs it compiles and runs and whatever
else its host does, every program and every function in it is strict, and at every moment every
frame and every script function of the store is, but for those that the `Function` constructor has
compiled. In strict code a name that is not declared cannot be assigned to, and a strict function
gets the receiver of a call as it is. -/
theorem strict_unless_constructed {moments : List Moment} {e : Engine}
    (history : History e.Compiles natives moments e) (strict : e.config.strict = true) :
    (∀ p, e.Compiles p → p.strict = true ∧ ∀ code, p.tree.Makes code → code.strict = true) ∧
      (∀ now ∈ moments, ∀ frame ∈ now.machine.control.frames,
        frame.strict = true ∨ frame.Constructed now.machine) ∧
      (∀ now ∈ moments, ∀ f code closure,
        (now.machine.store.object f).kind = .script code closure →
          code.strict = true ∨ code.Constructed) ∧
      (∀ (m : Machine) (name : String), m.control.strict = true →
        m.store.resolve m.control.lexical name = none →
          ∃ r, (resolveHere name).run m = (.value r, m) ∧ ∀ call value m',
            (putValue call r value).run m' = (.raised (.error (.notDefined name)), m')) ∧
      ∀ code : FunctionCode, code.strict = true → ∀ call bound f closure receiver arguments,
        runFunction call bound f code closure receiver arguments = (do
          let env ← openScope closure
          let ending ← withFrame ⟨env, env, receiver, true, some f⟩ do
            let lexical ← declareCall f code env arguments
            withScope lexical (executeList call bound none code.body)
          callResultOf ending) := by
  have compiled : ∀ p, e.Compiles p →
      p.strict = true ∧ ∀ code, p.tree.Makes code → code.strict = true := by
    rintro p ⟨source, name, compiled⟩
    unfold compileNamed at compiled
    rw [strict] at compiled
    exact Program.strict_of_compile compiled
  have accepted : ∀ p, e.Compiles p → p.Accepted := by
    rintro p ⟨source, name, compiled⟩
    exact ⟨source, name, e.config.strict, compiled⟩
  have sourced := (history.sourced accepted).2
  refine ⟨compiled, fun now mem frame inFrames => ?_, fun now mem f code closure kind => ?_,
    fun m name isStrict => putValue_undeclared isStrict,
    fun code isStrict => runFunction_strict isStrict⟩
  · exact (sourced now mem).frame_strict_or_constructed compiled inFrames
  · have function := (sourced now mem).functions f
    rw [kind] at function
    exact function.2.strict_or_constructed compiled

/-- A strict engine on which a function of a program is called. -/
theorem strict_unless_constructed_call :
    let e := create { strict := true, builtins := false }
    ∃ p, e.compile "function f() \x7b return this \x7d f()" = .ok p ∧
      ∀ now ∈ (scriptValue (e.callerWithin loopBound) loopBound p.tree).moments e.machine,
        ∀ frame ∈ now.machine.control.frames,
          frame.strict = true ∨ frame.Constructed now.machine := by
  extract_lets e
  have compiles : (e.compile "function f() \x7b return this \x7d f()").isOk = true := by
    decide +kernel
  cases compiled : e.compile "function f() \x7b return this \x7d f()" with
  | error error =>
    rw [compiled] at compiles
    cases compiles
  | ok p =>
    have created : History e.Compiles (fun _ => True) [e.moment] e := .create _
    let x := scriptValue (e.callerWithin loopBound) loopBound p.tree
    -- The engine compiles the same programs after running one.
    have history : History (e.perform x).2.Compiles (fun _ => True) _ (e.perform x).2 :=
      created.evaluate (.runWithin loopBound p ⟨_, _, compiled⟩)
    obtain ⟨-, frames, -⟩ := strict_unless_constructed history rfl
    refine ⟨p, rfl, fun now mem => frames now ?_⟩
    simp only [List.append_assoc, List.mem_append]
    exact .inr (.inl mem)

/-- On a strict engine a function that the `Function` constructor makes runs in a frame that is not
strict, and creates a global by assigning to a name that is not declared. -/
theorem constructed_function_not_strict :
    let e := create { strict := true }
    ∃ p, e.compile "Function('undeclared = 1')()" = .ok p ∧
      (∃ now ∈ (scriptValue e.caller loopBound p.tree).moments e.machine,
        ∃ frame ∈ now.machine.control.frames, frame.strict = false) ∧
      ((e.runProgram p).2.machine.store.object WellKnown.globalObject).properties.contains
        "undeclared" = true := by
  extract_lets e
  have computed : (e.compile "Function('undeclared = 1')()").toOption.map (fun p =>
      (((scriptValue e.caller loopBound p.tree).moments e.machine).any fun now =>
        now.machine.control.frames.any fun frame => frame.strict == false,
      ((e.runProgram p).2.machine.store.object WellKnown.globalObject).properties.contains
        "undeclared")) = some (true, true) := by decide +kernel
  cases compiled : e.compile "Function('undeclared = 1')()" with
  | error error =>
    rw [compiled] at computed
    cases computed
  | ok p =>
    rw [compiled] at computed
    obtain ⟨lax, created⟩ := Prod.mk.inj (Option.some.inj computed)
    simp only [List.any_eq_true, beq_iff_eq] at lax
    exact ⟨p, rfl, lax, created⟩

end Engine

end ScriptEngine
