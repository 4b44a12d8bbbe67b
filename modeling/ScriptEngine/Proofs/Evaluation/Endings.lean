import ScriptEngine.Evaluate.Statement
import ScriptEngine.Proofs.Evaluation.Expressions

/-!
# How statements end

What the parts of a statement may end with, and what the statement as a whole may then end with.
Static rules decide which jumps may leave a statement: those with a target around it. A `continue`
to a label of the statement itself never leaves it, because the label belongs to a loop, which goes
on instead.
-/
namespace ScriptEngine.Evaluate

open Evaluation Operation Contract

/-- How a statement in a context may end, when only some of the labels around it are left for a
`continue`. No statement ends with a thrown value: one that is thrown is raised. -/
def Allowed (context : Check.Context) (outer : List Check.Label) : Ending → Prop
  | .normal _ => True
  | .returns _ => context.inFunction = true
  | .throws _ => False
  | .breaks none _ => context.inBreakable = true
  | .breaks (some label) _ => context.labels.any (·.name == label) = true
  | .continues none _ => context.inLoop = true
  | .continues (some label) _ => (outer.find? (·.name == label)).any (·.isLoop) = true

/-- A condition on endings that does not depend on their values. -/
structure Stable (P : Ending → Prop) : Prop where
  normal : ∀ value, P (.normal value)
  updateEmpty : ∀ {ending : Ending} (value : Option Value), P ending → P (ending.updateEmpty value)

/-- How a loop may end whose rounds may end in some way. -/
structure Leaves (labels : List String) (P Q : Ending → Prop) : Prop where
  normal : ∀ value, Q (.normal value)
  left : ∀ {ending : Ending} (value : Option Value), P ending →
    ending.letsLoopContinue labels = false → Q (ending.updateEmpty value)

namespace Allowed

variable {context : Check.Context} {outer : List Check.Label} {labels : List String}
  {ending : Ending}

theorem stable : Stable (Allowed context outer) where
  normal _ := trivial
  updateEmpty {ending} value allowed := by
    cases ending with
    | normal value => cases value <;> trivial
    | returns | throws => exact allowed
    | breaks label value => cases label <;> cases value <;> exact allowed
    | continues label value => cases label <;> cases value <;> exact allowed

/-- A label that is found among those of the statement itself is one of its labels. -/
private theorem find?_outer {isLoop : Bool} {label : String}
    (found : ((labels.map (Check.Label.mk · isLoop) ++ outer).find? (·.name == label)).any
      (·.isLoop) = true) (notHere : isLoop = true → label ∉ labels) :
    (outer.find? (·.name == label)).any (·.isLoop) = true := by
  induction labels with
  | nil => exact found
  | cons first rest ih =>
    simp only [List.map_cons, List.cons_append, List.find?_cons] at found
    split at found
    -- The label found is one of the statement itself, so it cannot be the one that is named.
    next same =>
      simp only [beq_iff_eq] at same
      exact absurd (same ▸ List.mem_cons_self) (notHere found)
    · exact ih found fun loop mem => notHere loop (List.mem_cons_of_mem first mem)

/-- The labels of a statement that is no loop are no targets of a `continue`. -/
theorem outside (around : context.labels = labels.map (⟨·, false⟩) ++ outer)
    (allowed : Allowed context context.labels ending) : Allowed context outer ending := by
  cases ending with
  | normal | returns | throws => exact allowed
  | breaks label => cases label <;> exact allowed
  | continues label =>
    cases label with
    | none => exact allowed
    | some label =>
      unfold Allowed at allowed
      rw [around] at allowed
      exact find?_outer allowed nofun

/-- What leaves a loop: of the jumps that name nothing, only a `break`. -/
theorem leaves (around : context.labels = labels.map (⟨·, true⟩) ++ outer) :
    Leaves labels (Allowed context.loopBody context.labels)
      (Allowed { context with inBreakable := true } outer) where
  normal _ := trivial
  left {ending} value allowed left := by
    refine stable.updateEmpty value ?_
    cases ending with
    | normal => cases left
    | returns | throws => exact allowed
    | breaks label => cases label <;> exact allowed
    | continues label =>
      cases label with
      | none => cases left
      -- A label of the loop itself would have let the loop go on.
      | some label =>
        unfold Allowed at allowed
        rw [around] at allowed
        refine find?_outer allowed fun _ mem => ?_
        simp only [Completion.letsLoopContinue, List.contains_eq_mem, mem, decide_true] at left
        cases left

theorem endBreak {otherwise : Value}
    (allowed : Allowed { context with inBreakable := true } outer ending) :
    Allowed context outer (ending.endBreak otherwise) := by
  cases ending with
  | normal | returns | throws => exact allowed
  | breaks label =>
    cases label with
    | none => trivial
    | some label => exact allowed
  | continues label => cases label <;> exact allowed

theorem endLabelledBreak {id : Identifier} {body : Statement}
    (allowed : Allowed (context.labelled id body) outer ending) :
    Allowed context outer (ending.endLabelledBreak id.name) := by
  cases ending with
  | normal | returns | throws => exact allowed
  | breaks label value =>
    cases label with
    | none => exact allowed
    | some label =>
      dsimp only [Completion.endLabelledBreak]
      split
      · trivial
      -- Another label than this one was around before.
      next other =>
        simp only [Allowed, Check.Context.labelled, List.any_cons, Bool.or_eq_true,
          beq_iff_eq] at allowed
        exact allowed.resolve_left fun same => other same.symm
  | continues label => cases label <;> exact allowed

end Allowed

/-! ### Loops over keys -/

/-- What a round does with its key. -/
def keyRound (call : Caller) (left : ForTarget) (body : Evaluation Ending) :
    Value → Evaluation Ending :=
  match left with
  | .expression target => visitPlace call (reference call target) body
  | .declaration .var id => visitPlace call (resolveHere id.name) body
  | .declaration kind id => visitScope id.name (kind = .const) body

/-- A loop over the keys of a value that is no object without properties. -/
theorem execute_forIn (call : Caller) (bound : Nat) (labels : List String) (span : Span)
    (left : ForTarget) (right : Expression) (body : Statement) (scope : Scope) :
    execute call bound labels (.forInLoop span left right body scope) =
      forInLoop labels (forInObject left (evaluate call right))
          (keyRound call left (execute call bound [] body)) >>= fun ending =>
        pure (ending.endBreak .undefined) := by
  generalize same : execute call bound [] body = inside
  unfold execute
  rw [same]
  cases left with
  | expression target => rfl
  | declaration kind id => cases kind <;> rfl

/-! ### Loops -/

section

variable {C : Contract} {labels : List String} {P Q : Ending → Prop} (leaves : Leaves labels P Q)

include leaves

theorem afterRound_keeps {σ : Type} {last : Value} {ending : Ending}
    {next : Value → Evaluation (Round σ Ending)} {I : σ → Prop} (allowed : P ending)
    (goesOn : ∀ last, C.Keeps (next last) (Round.Meets I Q)) :
    C.Keeps (afterRound labels last ending next) (Round.Meets I Q) := by
  unfold afterRound
  split
  · exact goesOn _
  next left =>
    simp only [Bool.not_eq_true] at left
    exact .pure (leaves.left _ allowed left)

theorem whileLoop_keeps (bound : Nat) {test : Evaluation Value} {body : Evaluation Ending}
    (first : C.Safe test) (inside : C.Keeps body P) :
    C.Keeps (whileLoop bound labels test body) Q := by
  refine .iterate (I := fun _ => True) (fun last _ => first.bind fun value => ?_) trivial
  split
  · exact inside.bind fun ending allowed => afterRound_keeps leaves allowed fun _ => .pure trivial
  · exact .pure (leaves.normal _)

theorem doLoop_keeps (bound : Nat) {body : Evaluation Ending} {test : Evaluation Value}
    (inside : C.Keeps body P) (after : C.Safe test) :
    C.Keeps (doLoop bound labels body test) Q := by
  refine .iterate (I := fun _ => True) (fun last _ => inside.bind fun ending allowed => ?_) trivial
  refine afterRound_keeps leaves allowed fun last => after.bind fun value => ?_
  split
  · exact .pure trivial
  · exact .pure (leaves.normal _)

theorem visitKeys_keeps (object : ObjectId) {visit : Value → Evaluation Ending}
    (inside : ∀ key, C.Keeps (visit key) P) (keys : List String) (last : Value) :
    C.Keeps (visitKeys labels object visit keys last) Q := by
  induction keys generalizing last with
  | nil => exact .pure (leaves.normal _)
  | cons key rest ih =>
    -- A key that has gone meanwhile is passed over, and the loop goes on.
    refine .asking fun still => ?_
    split
    · refine (inside _).bind fun ending allowed => ?_
      split
      · exact ih _
      next left =>
        simp only [Bool.not_eq_true] at left
        exact .pure (leaves.left _ allowed left)
    · exact ih last

variable (lawful : C.Lawful)

omit leaves in
include lawful in
theorem nextScope_safe (lenient : C.Lenient) (names : List String) :
    C.Safe (nextScope names) := by
  refine .askingControl fun last => ?_
  split
  · exact .pure trivial
  · refine .asking fun outer => (lawful.openEnvironment outer).bind fun env => ?_
    refine Safe.bind (.forM fun name _ => (lenient.noteIf _ _).bind fun _ => ?_)
      fun _ => .pure trivial
    refine (getBinding_safe lawful last name true).bind fun value => ?_
    exact (createLexical_safe lawful lenient env name false).bind
      fun _ => initializeLexical_safe lawful lenient env name value

include lawful

theorem forRounds_keeps (bound : Nat) {names : List String} (copied : C.Safe (nextScope names))
    {test update : Option (Evaluation Value)} {body : Evaluation Ending}
    (first : ∀ x, test = some x → C.Safe x) (after : ∀ x, update = some x → C.Safe x)
    (inside : C.Keeps body P) :
    C.Keeps (forRounds bound labels names test update body) Q := by
  refine copied.bind fun env => ?_
  refine .iterate (I := fun _ => True) (fun state _ => ?_) trivial
  obtain ⟨env, last⟩ := state
  refine Safe.bind (lawful.withScope env ?_) fun proceed => ?_
  · cases test with
    | none => exact .pure trivial
    | some test => exact (first test rfl).map
  split
  · refine (lawful.withScope env inside).bind fun ending allowed => ?_
    refine afterRound_keeps leaves allowed fun last => ?_
    refine (lawful.withScope env copied).bind fun env _ => ?_
    cases update with
    | none => exact .pure trivial
    | some update => exact (lawful.withScope env (after update rfl)).bind fun _ _ => .pure trivial
  · exact .pure (leaves.normal _)

theorem forInLoop_keeps {right : Evaluation Value} {visit : Value → Evaluation Ending}
    (first : C.Safe right) (inside : ∀ key, C.Keeps (visit key) P) :
    C.Keeps (forInLoop labels right visit) Q := by
  refine first.bind fun right => ?_
  split
  · exact .pure (leaves.normal _)
  · refine (toObject_safe lawful right).bind fun object => .asking fun keys => ?_
    exact visitKeys_keeps leaves object inside keys _

end

/-! ### Other statements -/

section

variable {C : Contract} {P : Ending → Prop}

theorem branch_keeps (stable : Stable P) {test : Evaluation Value}
    {consequent alternate : Evaluation Ending} (first : C.Safe test)
    (second : C.Keeps consequent P) (third : C.Keeps alternate P) :
    C.Keeps (branch test consequent alternate) P := by
  refine first.bind fun value => ?_
  split
  · exact second.bind fun _ allowed => .pure (stable.updateEmpty _ allowed)
  · exact third.bind fun _ allowed => .pure (stable.updateEmpty _ allowed)

theorem fallThrough_keeps (stable : Stable P) (last : Value) {clause : Evaluation Ending}
    {next : Value → Evaluation Ending} (inside : C.Keeps clause P)
    (rest : ∀ last, C.Keeps (next last) P) : C.Keeps (fallThrough last clause next) P := by
  refine inside.bind fun ending allowed => ?_
  split
  · exact rest _
  · exact .pure (stable.updateEmpty _ allowed)

theorem thenNext_keeps (stable : Stable P) (last : Option Value) {statement : Evaluation Ending}
    {next : Option Value → Evaluation Ending} (inside : C.Keeps statement P)
    (rest : ∀ last, C.Keeps (next last) P) : C.Keeps (thenNext last statement next) P := by
  refine inside.bind fun ending allowed => ?_
  split
  · exact rest _
  · exact .pure (stable.updateEmpty _ allowed)

theorem tryCatch_keeps {block : Evaluation Ending} {handler : Option (Raised → Evaluation Ending)}
    (inside : C.Keeps block P)
    (handles : ∀ handle, handler = some handle → ∀ raised, C.raised raised →
      C.Keeps (handle raised) P) : C.Keeps (tryCatch block handler) P := by
  refine inside.attempt.bind fun result attempted => ?_
  split
  next raised handle =>
    split
    · exact .raise attempted
    · exact handles handle rfl raised attempted
  · exact .ofExcept attempted

/-- A `finally` clause may end in the same ways as the rest of the statement. -/
theorem tryStatement_keeps (stable : Stable P) {block : Evaluation Ending}
    {handler : Option (Raised → Evaluation Ending)} {finalizer : Option (Evaluation Ending)}
    (inside : C.Keeps block P)
    (handles : ∀ handle, handler = some handle → ∀ raised, C.raised raised →
      C.Keeps (handle raised) P)
    (finishes : ∀ final, finalizer = some final → C.Keeps final P) :
    C.Keeps (tryStatement block handler finalizer) P := by
  have guarded := tryCatch_keeps inside handles
  have finish : ∀ ending, P ending → C.Keeps (pure (ending.updateEmpty (some .undefined))) P :=
    fun _ allowed => .pure (stable.updateEmpty _ allowed)
  unfold tryStatement
  cases finalizer with
  | none => exact guarded.bind finish
  | some finalizer =>
    refine guarded.attempt.bind fun result attempted => ?_
    -- A fault goes on at once; after anything else the finalizer runs, and may prevail.
    split
    · exact (Keeps.raise attempted).bind finish
    · refine (finishes finalizer rfl).bind fun final allowed => ?_
      split
      · exact (Keeps.ofExcept attempted).bind finish
      · exact (Keeps.pure allowed).bind finish

variable (lawful : C.Lawful)

include lawful

theorem catchClause_keeps (name : String) {body : Evaluation Ending} (inside : C.Keeps body P)
    {raised : Raised} (allowed : C.raised raised) : C.Keeps (catchClause name body raised) P := by
  refine (caught_safe lawful allowed).bind fun value past m store control => ?_
  refine (openScopeHere_goes lawful store).bind ?_
  rintro env _ m₁ _ returns₁ store₁ ⟨rfl, unbound⟩
  -- What was caught is the only name in an environment of its own.
  refine (declare_goes lawful store₁ (returns₁ ▸ control) (unbound.hasBinding name) false value).bind
    fun _ past₂ m₂ _ returns₂ store₂ _ => ?_
  exact lawful.withScope env inside past₂ m₂ store₂ (returns₂ ▸ returns₁ ▸ control)

theorem forInObject_safe (lenient : C.Lenient) (left : ForTarget) {right : Evaluation Value}
    (inside : C.Safe right) : C.Safe (forInObject left right) := by
  have scope : ∀ name, C.Safe (do
      let env ← openScopeHere
      createLexical env name false
      withScope env right) := fun name =>
    (openScopeHere_safe lawful).bind fun env =>
      (createLexical_safe lawful lenient env name false).bind fun _ => lawful.withScope env inside
  unfold forInObject
  split
  · exact scope _
  · exact scope _
  · exact inside

theorem visitScope_keeps (lenient : C.Lenient) (name : String) (isConst : Bool)
    {body : Evaluation Ending} (inside : C.Keeps body P) (key : Value) :
    C.Keeps (visitScope name isConst body key) P := by
  refine (openScopeHere_safe lawful).bind fun env => ?_
  refine (createLexical_safe lawful lenient env name isConst).bind fun _ => ?_
  exact (initializeLexical_safe lawful lenient env name key).bind
    fun _ => lawful.withScope env inside

theorem visitPlace_keeps {call : Caller} (calls : C.Calls call) {place : Evaluation Reference}
    {body : Evaluation Ending} (first : C.Safe place) (inside : C.Keeps body P) (key : Value) :
    C.Keeps (visitPlace call place body key) P :=
  first.bind fun place => (putValue_safe lawful calls place key).bind fun _ => inside

theorem keyRound_keeps (lenient : C.Lenient) {call : Caller} (calls : C.Calls call)
    {left : ForTarget} {body : Evaluation Ending}
    (place : ∀ target, left = .expression target → C.Safe (reference call target))
    (inside : C.Keeps body P) (key : Value) : C.Keeps (keyRound call left body key) P := by
  cases left with
  | declaration kind id =>
    cases kind with
    | var => exact visitPlace_keeps lawful calls (resolveHere_safe id.name) inside key
    | «let» | const => exact visitScope_keeps lawful lenient id.name _ inside key
  | expression target => exact visitPlace_keeps lawful calls (place target rfl) inside key

end

end ScriptEngine.Evaluate
