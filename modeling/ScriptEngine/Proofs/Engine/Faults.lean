import ScriptEngine.Proofs.Engine.Kinds
import ScriptEngine.Proofs.Engine.Outermost
import ScriptEngine.Proofs.Engine.Reachable
import ScriptEngine.Proofs.Evaluation.Jumps

/-!
# Faults

A fault is beyond any script, and no script brings one about. Every function in a reachable engine
is either made from a program that was compiled, and so judged by the static rules, or native; and
of the native functions only a host can define one that fails on purpose. Main result: without such
a host function, no program and no call ends with a fault (`never_faults`).
-/
namespace ScriptEngine

/-- A function of this kind does not fail when it is called: its code has been judged, and it is not
the host function that fails on purpose. -/
def ObjectKind.Faultless : ObjectKind → Prop
  | .script code _ => code.Judged
  | .native code => code.behaviour ≠ .host .fault
  | _ => True

theorem ObjectKind.faultless_of_not_function (kind : ObjectKind) (plain : kind.isFunction = false) :
    kind.Faultless := by
  cases kind with
  | script | native => cases plain
  | _ => trivial

/-- No function of the store fails when it is called. -/
def Store.Faultless (s : Store) : Prop := ∀ id, (s.object id).kind.Faultless

/-- The contract of evaluations without faults. -/
def Contract.faultless : Contract where
  store _ := Store.Faultless
  control _ := True
  raised r := ∀ fault, r ≠ .fault fault
  code := FunctionCode.Judged

/-- Any script that was judged may run. -/
theorem ScriptTree.Judged.admitted {tree : ScriptTree} (judged : tree.Judged) :
    Contract.faultless.Admits (fun _ => True) tree where
  judged := judged
  each _ _ := trivial
  runs _ _ _ _ := trivial

theorem Contract.faultless_governing : Contract.faultless.Governing fun _ => True where
  quiet taken _ plain faultless :=
    ⟨Store.Kinds.step ObjectKind.faultless_of_not_function faultless taken plain, trivial⟩
  script kind judged faultless := by
    refine ⟨Store.Kinds.allocate faultless ?_, trivial⟩
    rw [kind]
    exact judged
  introduced _ _ edited _ faultless := ⟨Store.Kinds.editBindings faultless edited, trivial⟩
  initial edited faultless := ⟨Store.Kinds.editBindings faultless edited, trivial⟩
  noted _ := id
  error _ := nofun
  thrown _ := nofun
  scopeEntered _ _ := trivial
  callEntered _ := trivial
  frameEntered _ _ := trivial
  judged judged _ := judged
  inside _ _ _ := trivial
  made {_ s f code closure} holds kind := by
    have judged : (s.object f).kind.Faultless := holds f
    rw [kind] at judged
    exact ⟨judged, trivial⟩
  faults {_ s f code} holds kind fails := by
    have faultless : (s.object f).kind.Faultless := holds f
    rw [kind] at faultless
    exact absurd fails faultless
  functionRuns _ _ _ _ _ := trivial
  constructed constructed := constructed.accepted.judged.admitted.inCall

namespace Engine

open Evaluation Operation Evaluate Contract

/-! ### Reachable engines -/

/-- Programs that were compiled run, and no host function fails on purpose. -/
abbrev ReachableByPrograms : Engine → Prop := Reachable Program.Accepted (· ≠ .host .fault)

theorem callerWithin_safe (e : Engine) (bound : Nat) : faultless.Calls (e.callerWithin bound) :=
  invoke_safe faultless_governing bound e.config.maxCallDepth

/-- What is safe leaves an engine without functions that fail. -/
private theorem store_perform {α : Type} {e : Engine} {x : Evaluation α} (safe : faultless.Safe x)
    (holds : e.machine.store.Faultless) : (e.perform x).2.machine.store.Faultless :=
  (safe [] e.machine holds trivial).stop

theorem ReachableByPrograms.faultless {e : Engine} (reachable : e.ReachableByPrograms) :
    e.machine.store.Faultless := by
  have lawful := faultless_governing.toLawful
  have plain := ObjectKind.faultless_of_not_function
  have kept : Install.Kept (· ≠ .host .fault) Store.Faultless :=
    Store.Kinds.kept plain fun _ answers => answers
  induction reachable with
  | create config =>
    have bare : WellKnown.store.Faultless := by
      refine Store.Kinds.store plain fun code nothing => ?_
      change code.behaviour ≠ _
      rw [nothing]
      exact nofun
    refine store_create kept ?_ bare config
    rintro native shipped rfl
    cases shipped
  | @runWithin e _ bound p accepted ih =>
    exact store_perform (scriptValue_safe faultless_governing (e.callerWithin_safe bound)
      accepted.judged.admitted bound) ih
  | @execute e _ bound p accepted ih =>
    exact store_perform (execution_keeps faultless_governing (e.callerWithin_safe bound)
      accepted.judged.admitted bound).safe ih
  | @executeIn e _ bound p accepted env ih =>
    exact store_perform (runScript_keeps faultless_governing (e.callerWithin_safe bound) bound
      accepted.judged.admitted env).safe ih
  | @call e _ bound f receiver arguments ih =>
    exact store_perform (callValue_safe lawful (e.callerWithin_safe bound) f receiver arguments) ih
  | @construct e _ bound f arguments ih =>
    exact store_perform (construct_safe lawful (e.callerWithin_safe bound) f arguments) ih
  | @readWithin e _ bound name ih =>
    exact store_perform (binding_safe lawful (e.callerWithin_safe bound) name) ih
  | @defineValue e _ name value ih => exact kept.global name value _ ih
  | defineFunction _ m isConstructor answers ih =>
    exact store_defineFunction kept answers isConstructor ih

/-! ### No faults -/

private theorem meets_perform {α : Type} {e : Engine} (reachable : e.ReachableByPrograms)
    {x : Evaluation α} {Q : α → Prop} (keeps : faultless.Keeps x Q) :
    (e.perform x).1.Meets faultless.raised Q :=
  (keeps [] e.machine reachable.faultless trivial).meets

private theorem ne_fault_of_meets {α : Type} {outcome : Outcome α} {Q : α → Prop}
    (met : outcome.Meets faultless.raised Q) (fault : Fault) :
    outcome ≠ .raised (.fault fault) := by
  rintro rfl
  exact met fault rfl

private theorem result_ne_fault {α : Type} {outcome : Outcome (Except (String × Value) α)}
    {Q : Except (String × Value) α → Prop} (met : outcome.Meets faultless.raised Q)
    (fault : Fault) : result outcome ≠ .error (.fault fault) := by
  intro failed
  cases outcome with
  | value a => cases a <;> cases failed
  | raised r =>
    cases r with
    | fault fault' => exact met fault' rfl
    | thrown | error => cases failed
  | exhausted => cases failed

/-- The body of a function whose code was judged runs without faults wherever it is called, and no
jump leaves it. -/
theorem executeList_meets {code : FunctionCode} (judged : code.Judged) {m : Machine}
    (holds : m.store.Faultless) (bound remaining : Nat) :
    ((executeList (invoke bound remaining) bound none code.body).run m).1.Meets faultless.raised
      fun ending => (∃ value, ending = .normal value) ∨ ∃ value, ending = .returns value := by
  obtain ⟨-, tied⟩ := (Scoped.function_iff code).1 judged.tied
  have governing := faultless_governing
  have keeps := executeList_keeps governing.toLawful governing.toLenient
    (invoke_safe governing bound remaining) governing.judged bound none code.body
    judged.statements tied fun _ _ => trivial
  refine (keeps.weaken fun ending allowed => ?_) [] m holds trivial |>.meets
  cases ending with
  | normal value => exact .inl ⟨value, rfl⟩
  | returns value => exact .inr ⟨value, rfl⟩
  | throws => cases allowed
  | breaks label | continues label => cases label <;> cases allowed

/-- Without a host function that fails on purpose, no program that was compiled ends with a fault,
however many rounds its loops may have and in whatever environment it runs, and neither does any
call. A script ends normally or with a value that it throws. The body of a function ends normally
or returns, also in a call that nothing outside of it can see, and no statement ends with a thrown
value. An expression that denotes no place is never used as one: that would be a fault. -/
theorem never_faults {e : Engine} (reachable : e.ReachableByPrograms) {p : Program}
    (accepted : p.Accepted) :
    (∀ fault, (e.runProgram p).1 ≠ .error (.fault fault)) ∧
      (∀ bound env,
        let outcome := (e.perform (runScript (e.callerWithin bound) bound p.tree env)).1
        (∀ fault, outcome ≠ .raised (.fault fault)) ∧
          ∀ ending, outcome = .value ending → Finished ending) ∧
      (∀ bound f receiver arguments fault,
        (e.perform (callValue (e.callerWithin bound) f receiver arguments)).1 ≠
          .raised (.fault fault)) ∧
      (∀ f code closure, (e.machine.store.object f).kind = .script code closure →
        ∀ m : Machine, m.store.Faultless → ∀ bound remaining,
          let outcome := ((executeList (invoke bound remaining) bound none code.body).run m).1
          (∀ fault, outcome ≠ .raised (.fault fault)) ∧
            ∀ ending, outcome = .value ending →
              (∃ value, ending = .normal value) ∨ ∃ value, ending = .returns value) ∧
      ∀ call bound labels statement (m : Machine) value,
        ((execute call bound labels statement).run m).1 ≠ .value (.throws value) := by
  have governing := faultless_governing
  refine ⟨fun fault => ?_, fun bound env => ?_, fun bound f receiver arguments fault => ?_,
    fun f code closure kind m holds bound remaining => ?_, execute_ne_throws⟩
  · exact result_ne_fault (meets_perform reachable
      (scriptValue_safe governing (e.callerWithin_safe loopBound) accepted.judged.admitted _)) fault
  · have met := meets_perform reachable
      (runScript_keeps governing (e.callerWithin_safe bound) bound accepted.judged.admitted env)
    refine ⟨ne_fault_of_meets met, fun ending ended => ?_⟩
    rw [ended] at met
    exact met
  · exact ne_fault_of_meets (meets_perform reachable
      (callValue_safe governing.toLawful (e.callerWithin_safe bound) f receiver arguments)) fault
  · have judged := reachable.faultless f
    rw [kind] at judged
    have met := executeList_meets judged holds bound remaining
    refine ⟨ne_fault_of_meets met, fun ending ended => ?_⟩
    rw [ended] at met
    exact met

/-- A script with a label, a loop and an assignment, in an engine with the core library. -/
theorem never_faults_loop :
    ∃ p, Program.compile "each: for (;;) if (f.x = f()) break each" "" false = .ok p ∧
      ∀ fault, ((create {}).runProgram p).1 ≠ .error (.fault fault) := by
  have compiles : (Program.compile "each: for (;;) if (f.x = f()) break each" "" false).isOk =
      true := by decide +kernel
  cases compiled : Program.compile "each: for (;;) if (f.x = f()) break each" "" false with
  | error error =>
    rw [compiled] at compiles
    cases compiles
  | ok p => exact ⟨p, rfl, (never_faults (.create {}) ⟨_, _, _, compiled⟩).1⟩

end Engine

end ScriptEngine
