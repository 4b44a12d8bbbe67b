import ScriptEngine.Evaluate.Call
import ScriptEngine.Proofs.Evaluation.Statements
import ScriptEngine.Proofs.Library.Natives

/-!
# Scripts and calls keep contracts

Running a judged script ends normally or with a thrown value, and calling any function that a
store may have is safe. The call of a function can only make calls with a lower limit, so the proof
for calls is by induction on the limit.
-/
namespace ScriptEngine

/-- A script that may run under a contract: its functions are of the kind that the contract is
about, and so is the frame that it runs in. -/
structure Contract.Admits (C : Contract) (T : FunctionCode → Prop) (tree : ScriptTree) : Prop where
  judged : tree.Judged
  each : ∀ code ∈ Functions.statements tree.body, T code
  runs : ∀ {s : Store} {c : Control} (lexical env : EnvironmentId), C.control c → C.running s c →
    C.running s
      (c.push ⟨lexical, env, .object WellKnown.globalObject, tree.scope.strict, none⟩)

/-- What a contract about a kind of function must allow for whole scripts to keep it, and what it
must say of the functions in a store. -/
structure Contract.Governing (C : Contract) (T : FunctionCode → Prop) : Prop
    extends C.Lawful, C.Lenient where
  frameEntered : ∀ {c : Control} (frame : Frame), C.control c → C.control (c.push frame)
  judged : ∀ {code : FunctionCode}, code.Judged → T code → C.code code
  inside : ∀ {code : FunctionCode}, T code → ∀ inner ∈ Functions.statements code.body, T inner
  made : ∀ {past : List Event} {s : Store} {f : ObjectId} {code : FunctionCode}
    {closure : EnvironmentId}, C.store past s → (s.object f).kind = .script code closure →
    code.Judged ∧ T code
  /-- The host function that fails on purpose may be there only if it may fail. -/
  faults : ∀ {past : List Event} {s : Store} {f : ObjectId} {code : NativeCode}, C.store past s →
    (s.object f).kind = .native code → code.behaviour = .host .fault →
    ∀ fault, C.raised (.fault fault)
  functionRuns : ∀ {past : List Event} {s : Store} {c : Control} {f : ObjectId}
    {code : FunctionCode} {closure : EnvironmentId} (env : EnvironmentId) (receiver : Value),
    C.store past s → (s.object f).kind = .script code closure → C.running s c →
    C.running s (c.push ⟨env, env, receiver, code.strict, some f⟩)
  /-- The `Function` constructor runs its programs where a call is in progress. -/
  constructed : ∀ {p : Program}, p.Constructed → C.inCall.Admits T p.tree

theorem Contract.Admits.inCall {C : Contract} {T : FunctionCode → Prop} {tree : ScriptTree}
    (admits : C.Admits T tree) : C.inCall.Admits T tree where
  judged := admits.judged
  each := admits.each
  runs lexical env control := admits.runs lexical env control.1

theorem Contract.Governing.inCall {C : Contract} {T : FunctionCode → Prop}
    (governing : C.Governing T) : C.inCall.Governing T where
  toLawful := governing.toLawful.inCall
  initial := governing.initial
  noted := governing.noted
  frameEntered frame control := ⟨governing.frameEntered frame control.1, control.2⟩
  judged := governing.judged
  inside := governing.inside
  made := governing.made
  faults := governing.faults
  functionRuns := governing.functionRuns
  constructed constructed := (governing.constructed constructed).inCall

/-- The statements of a judged function are accepted. -/
theorem FunctionCode.Judged.statements {code : FunctionCode} (judged : code.Judged) :
    Check.statements (.ofFunction code.strict) code.body = [] := by
  obtain ⟨accepted, -⟩ := judged
  cases code
  simp only [Check.function, List.append_eq_nil_iff] at accepted
  exact accepted.2

theorem FunctionCode.Judged.of_mem {code inner : FunctionCode} (judged : code.Judged)
    (mem : inner ∈ code.scope.functions) : inner.Judged := by
  obtain ⟨functions, body⟩ := (Scoped.function_iff code).1 judged.tied
  rw [functions] at mem
  exact judged_of_mem_declaredIn judged.statements body mem

theorem ScriptTree.Judged.statements {tree : ScriptTree} (judged : tree.Judged) :
    Check.statements (.ofScript tree.scope.strict) tree.body = [] := by
  have accepted := judged.accepted
  simp only [Check.script, List.append_eq_nil_iff] at accepted
  exact accepted.2

theorem ScriptTree.Judged.of_mem {tree : ScriptTree} {code : FunctionCode} (judged : tree.Judged)
    (mem : code ∈ tree.scope.functions) : code.Judged := by
  rw [judged.tied.functions] at mem
  exact judged_of_mem_declaredIn judged.statements judged.tied.body mem

namespace Evaluate

open Evaluation Operation Contract

/-- How a script ends: normally, or with a value that it throws. -/
def Finished : Completion Remainder → Prop
  | .normal _ | .throws (.value _) => True
  | _ => False

variable {C : Contract}

theorem readRemainder_safe (lawful : C.Lawful) {call : Caller} (calls : C.Calls call)
    (remainder : Option Remainder) : C.Safe (readRemainder call remainder) := by
  unfold readRemainder
  split
  · exact (getValue_safe lawful calls _).bind fun _ => .pure trivial
  · exact .pure trivial

theorem receiverFor_safe (lawful : C.Lawful) (strict : Bool) (receiver : Value) :
    C.Safe (receiverFor strict receiver) := by
  unfold receiverFor
  split
  · exact .pure trivial
  split
  · exact .pure trivial
  · exact (toObject_safe lawful receiver).bind fun _ => .pure trivial

variable {T : FunctionCode → Prop} (governing : C.Governing T)

include governing

section

variable {call : Caller} (calls : C.Calls call) (bound : Nat)

include calls

/-! ### Scripts -/

/-- No jump leaves an accepted statement of a script. -/
theorem executeOutermost_keeps {strict : Bool} {s : Statement}
    (accepted : Check.statement (.ofScript strict) s = []) (tied : Scoped.statement s)
    (each : ∀ code ∈ Functions.statement s, T code) :
    C.Keeps (executeOutermost call bound s) fun ending => ending.isNormal := by
  have lawful := governing.toLawful
  unfold executeOutermost
  split
  next e =>
    simp only [Check.statement] at accepted
    simp only [Scoped.statement] at tied
    simp only [Functions.statement] at each
    split
    next isPlace =>
      exact (referenceScoped_safe lawful calls governing.judged e isPlace accepted tied each).bind
        fun _ => .pure rfl
    · exact (evaluateScoped_safe lawful calls governing.judged e accepted tied each).bind
        fun _ => .pure rfl
  -- Outside of any function, loop and label only a normal ending is allowed.
  · refine (execute_keeps lawful governing.toLenient calls governing.judged bound [] [] s rfl
      accepted tied each).bind fun ending allowed => ?_
    cases ending with
    | normal value => exact .pure rfl
    | returns | throws => cases allowed
    | breaks label | continues label => cases label <;> cases allowed

theorem executeScript_keeps {strict : Bool} {statements : List Statement}
    (accepted : Check.statements (.ofScript strict) statements = [])
    (tied : Scoped.statements statements) (each : ∀ code ∈ Functions.statements statements, T code)
    (last : Option Remainder) :
    C.Keeps (executeScript call bound last statements) fun ending => ending.isNormal := by
  induction statements generalizing last with
  | nil => exact .pure rfl
  | cons s rest ih =>
    simp only [Check.statements, List.append_eq_nil_iff] at accepted
    simp only [Scoped.statements] at tied
    simp only [Functions.statements, List.forall_mem_append] at each
    refine (readRemainder_safe governing.toLawful calls last).bind fun last => ?_
    refine (executeOutermost_keeps governing calls bound accepted.1 tied.1 each.1).bind
      fun ending normal => ?_
    rw [if_pos normal]
    exact ih accepted.2 tied.2 each.2 _

theorem runScript_keeps {tree : ScriptTree} (admits : C.Admits T tree) (env : EnvironmentId) :
    C.Keeps (runScript call bound tree env) Finished := by
  have lawful := governing.toLawful
  have judged := admits.judged
  have body : C.Keeps (do
      let lexical ← declareScript env tree.scope
      withFrame ⟨lexical, env, .object WellKnown.globalObject, tree.scope.strict, none⟩
        (executeScript call bound none tree.body)) fun ending => ending.isNormal := by
    have functions : ∀ code ∈ tree.scope.functions, C.code code := by
      intro code mem
      have declared : code ∈ declaredIn tree.body := judged.tied.functions ▸ mem
      exact governing.judged (judged.of_mem mem)
        (admits.each code (Functions.declaredIn_subset tree.body declared))
    refine (declareScript_safe lawful governing.toLenient env functions).bind fun lexical => ?_
    exact .withFrame (fun _ control => governing.frameEntered _ control)
      (fun _ _ => admits.runs lexical env)
      (executeScript_keeps governing calls bound judged.statements judged.tied.body admits.each
        none)
  -- What is raised by a script becomes the value that it throws, faults excepted.
  refine body.attempt.bind fun result attempted => ?_
  cases result with
  | ok ending =>
    cases ending with
    | normal => exact .pure trivial
    | _ => cases attempted
  | error raised => exact (caught_safe lawful attempted).bind fun _ => .pure trivial

/-! ### Functions -/

/-- No jump leaves the body of a judged function. -/
theorem runBody_goes (f : ObjectId) {code : FunctionCode} (judged : code.Judged) (made : T code)
    {env : EnvironmentId} (arguments : List Value) {past : List Event} {m : Machine}
    (store : C.store past m.store) (control : C.control m.control)
    (unbound : m.store.Unbound env) :
    C.Goes past m (do
      let lexical ← declareCall f code env arguments
      withScope lexical (executeList call bound none code.body))
      fun ending _ _ => Allowed (.ofFunction code.strict) [] ending := by
  have lawful := governing.toLawful
  obtain ⟨functions, tied⟩ := (Scoped.function_iff code).1 judged.tied
  have allowed : ∀ inner ∈ code.scope.functions, C.code inner := by
    intro inner mem
    have declared : inner ∈ declaredIn code.body := functions ▸ mem
    exact governing.judged (judged.of_mem mem)
      (governing.inside made inner (Functions.declaredIn_subset code.body declared))
  refine (declareCall_of_unbound lawful governing.toLenient f arguments allowed store control
    unbound).bind fun lexical past' m' _ returns store' _ => ?_
  exact lawful.withScope lexical
    (executeList_keeps lawful governing.toLenient calls governing.judged bound none code.body
      judged.statements tied (governing.inside made)) past' m' store' (returns ▸ control)

/-- A function of the store runs in a frame of its own. -/
theorem runFunction_goes (f : ObjectId) {code : FunctionCode} {closure : EnvironmentId}
    {past : List Event} {m : Machine} (store : C.store past m.store) (control : C.control m.control)
    (kind : (m.store.object f).kind = .script code closure) (receiver : Value)
    (arguments : List Value) :
    C.Goes past m (runFunction call bound f code closure receiver arguments)
      fun _ _ _ => True := by
  have lawful := governing.toLawful
  obtain ⟨judged, made⟩ := governing.made store kind
  refine (receiverFor_safe lawful code.strict receiver past m store control).bind ?_
  intro receiver past₁ m₁ reached₁ returns₁ store₁ _
  refine (lawful.opened store₁ (some closure)).bind ?_
  rintro env past₂ m₂ reached₂ returns₂ store₂ ⟨-, unbound⟩
  have there := reached₂.kind_script (reached₁.kind_script kind)
  have here : C.control m₂.control := returns₂ ▸ returns₁ ▸ control
  refine Goes.bind (Q := fun ending _ _ => Allowed (.ofFunction code.strict) [] ending) ?_ ?_
  · exact .bracket store₂ nofun (governing.functionRuns env receiver store₂ there) fun _ =>
      runBody_goes governing calls bound f judged made arguments store₂
        (governing.frameEntered _ here) unbound
  · intro ending past₃ m₃ _ _ store₃ allowed
    cases ending with
    | normal | returns => exact .pure store₃ trivial
    | throws => cases allowed
    | breaks label | continues label => cases label <;> cases allowed

end

/-! ### Calls -/

/-- Calls are safe under any limit. -/
theorem invoke_safe (bound remaining : Nat) : C.Calls (invoke bound remaining) := by
  have lawful := governing.toLawful
  induction remaining with
  | zero => exact fun f receiver arguments => lawful.fail _
  | succ remaining ih =>
    -- The call runs under a limit of one less, where the induction hypothesis is about its calls.
    intro f receiver arguments
    have governing' := governing.inCall
    have calls : C.inCall.Calls (invoke bound remaining) :=
      fun f receiver arguments => (ih f receiver arguments).inCall
    refine lawful.enteringInCall fun past m store control => ?_
    refine (Goes.ask (Q := fun kind past' m' => past' = past ∧ m' = m ∧
      kind = (m.store.object f).kind) store ⟨rfl, rfl, rfl⟩).bind ?_
    rintro kind _ _ _ _ _ ⟨rfl, rfl, asked⟩
    cases kind with
    | script code closure =>
      exact runFunction_goes governing' calls bound f store control asked.symm receiver arguments
    | native code =>
      have keep : Services.Keep C.inCall
          ⟨invoke bound remaining, runScript (invoke bound remaining) bound⟩ :=
        ⟨calls, fun constructed env =>
          (runScript_keeps governing' calls bound (governing.constructed constructed) env).safe⟩
      exact Library.perform_safe governing'.toLawful keep (governing.faults store asked.symm)
        receiver arguments _ _ store control
    | _ => exact failAsking_keeps governing'.toLawful _ _ _ _ store control

end Evaluate

end ScriptEngine
