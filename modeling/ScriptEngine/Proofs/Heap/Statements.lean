import ScriptEngine.Evaluate.Statement
import ScriptEngine.Proofs.Heap.Expressions

/-!
# Statements on a heap

The value that a statement leaves is there. Loops take too long only where the regime lets them;
a loop over the keys of an object has as many rounds as there are keys, so it ends everywhere.
-/
namespace ScriptEngine

namespace Regime

/-- The value that a statement left, if any, is there. -/
def HasEnding (R : Regime) (s : Store) (ending : Evaluate.Ending) : Prop :=
  ∀ v ∈ ending.value?, R.HasValue s v

namespace HasEnding

variable {R : Regime} {s t : Store} {ending : Evaluate.Ending}

theorem mono (has : R.HasEnding s ending) (reached : s.Reaches t) : R.HasEnding t ending :=
  fun v mem => (has v mem).mono reached

theorem normal {v : Value} (has : R.HasValue s v) : R.HasEnding s (.normal (some v)) := by
  rintro _ ⟨⟩
  exact has

/-- A statement without a value leaves nothing. -/
theorem empty : R.HasEnding s (.normal none) := fun v absent => absurd absent (Option.not_mem_none v)

theorem getD (has : R.HasEnding s ending) {last : Value} (there : R.HasValue s last) :
    R.HasValue s (ending.value?.getD last) := by
  cases left : ending.value? with
  | none => exact there
  | some v => exact has v left

theorem updateEmpty (has : R.HasEnding s ending) {last : Option Value}
    (there : ∀ v ∈ last, R.HasValue s v) : R.HasEnding s (ending.updateEmpty last) := by
  cases ending with
  | normal value | breaks _ value | continues _ value =>
    cases value with
    | none => exact there
    | some => exact has
  | returns | throws => exact has

theorem updateEmpty_some (has : R.HasEnding s ending) {last : Value} (there : R.HasValue s last) :
    R.HasEnding s (ending.updateEmpty (some last)) :=
  has.updateEmpty (HasEnding.normal there)

theorem endBreak (has : R.HasEnding s ending) :
    R.HasEnding s (ending.endBreak .undefined) := by
  cases ending with
  | breaks label value =>
    cases label with
    | none =>
      refine .normal ?_
      cases value with
      | none => trivial
      | some v => exact has v rfl
    | some => exact has
  | _ => exact has

theorem endLabelledBreak (has : R.HasEnding s ending) {label : String} :
    R.HasEnding s (ending.endLabelledBreak label) := by
  cases ending with
  | breaks target =>
    cases target with
    | none => exact has
    | some target =>
      dsimp only [Completion.endLabelledBreak]
      split <;> exact has
  | _ => exact has

end HasEnding

open Evaluation Operation Evaluate

variable {R : Regime} {s : Store}

/-! ### Loops -/

theorem afterRound_keeps {σ : Type} {labels : List String} {last : Value} {ending : Ending}
    {next : Value → Evaluation (Round σ Ending)} {I : Store → σ → Prop} (has : R.HasEnding s ending)
    (there : R.HasValue s last)
    (goesOn : ∀ last, R.HasValue s last → R.Keeps s (next last) (Decided I R.HasEnding)) :
    R.Keeps s (afterRound labels last ending next) (Decided I R.HasEnding) := by
  unfold afterRound
  split
  · exact goesOn _ (has.getD there)
  · exact .pure (has.updateEmpty_some there)

theorem whileLoop_keeps {bound : Nat} {labels : List String} {test : Evaluation Value}
    {body : Evaluation Ending} (endless : R.endless) (first : R.Always test R.HasValue)
    (inside : R.Always body R.HasEnding) :
    R.Keeps s (whileLoop bound labels test body) R.HasEnding := by
  refine .iterate (I := R.HasValue) endless (fun last _ there => ?_) trivial
  refine (first _).bind fun value reached _ => ?_
  have there := there.mono reached
  split
  · refine (inside _).bind fun ending reached' has => ?_
    exact afterRound_keeps has (there.mono reached') fun last there => .pure there
  · exact .pure (.normal there)

theorem doLoop_keeps {bound : Nat} {labels : List String} {body : Evaluation Ending}
    {test : Evaluation Value} (endless : R.endless) (inside : R.Always body R.HasEnding)
    (after : R.Always test R.HasValue) :
    R.Keeps s (doLoop bound labels body test) R.HasEnding := by
  refine .iterate (I := R.HasValue) endless (fun last _ there => ?_) trivial
  refine (inside _).bind fun ending reached has => ?_
  refine afterRound_keeps has (there.mono reached) fun last there => ?_
  refine (after _).bind fun value reached' _ => ?_
  split
  · exact .pure (there.mono reached')
  · exact .pure (.normal (there.mono reached'))

theorem copyBinding_keeps {last env : EnvironmentId} {name : String} (has : s.HasEnvironment env) :
    R.Safe s (copyBinding last env name) := by
  refine (Keeps.noteIf (Q := fun _ _ => True) trivial).bind fun _ reached₁ _ => ?_
  refine getBinding_keeps.bind fun value reached₂ there => ?_
  refine (createLexical_keeps (has.mono (reached₁.trans reached₂))).bind fun _ reached₃ _ => ?_
  exact initializeLexical_keeps (there.mono reached₃)

/-- The environment of a round is outside of nothing but what the round before was outside of. -/
theorem nextScope_keeps {names : List String} :
    R.Keeps s (nextScope names) Store.HasEnvironment := by
  refine .askingControl fun c allows has => ?_
  split
  · exact .pure (allows.lexical has)
  · refine .asking fun allows => ?_
    refine (Keeps.openEnvironment fun outer link => allows.closed.hasOuter link).bind
      fun env _ opened => ?_
    refine Keeps.bind (P := fun _ _ => True) (.forM fun name _ _ reached => ?_)
      fun _ reached _ => .pure (opened.mono reached)
    exact copyBinding_keeps (opened.mono reached)

theorem forRounds_keeps {bound : Nat} {labels names : List String}
    {test update : Option (Evaluation Value)} {body : Evaluation Ending} (endless : R.endless)
    (first : ∀ x ∈ test, R.Always x R.HasValue)
    (after : ∀ x ∈ update, R.Always x R.HasValue) (inside : R.Always body R.HasEnding) :
    R.Keeps s (forRounds bound labels names test update body) R.HasEnding := by
  refine nextScope_keeps.bind fun env _ opened => ?_
  refine .iterate (I := fun t (state : EnvironmentId × Value) =>
    t.HasEnvironment state.1 ∧ R.HasValue t state.2) endless ?_ ⟨opened, trivial⟩
  rintro t ⟨env, last⟩ _ ⟨opened, there⟩
  refine Keeps.bind (P := fun _ _ => True) (.withScope opened ?_) fun proceed reached₁ _ => ?_
  · cases test with
    | none => exact .pure trivial
    | some test => exact .map (first test rfl _).safe
  have opened := opened.mono reached₁
  have there := there.mono reached₁
  split
  · refine (Keeps.withScope opened (inside _)).bind fun ending reached₂ has => ?_
    refine afterRound_keeps has (there.mono reached₂) fun last there => ?_
    refine (Keeps.withScope (opened.mono reached₂) nextScope_keeps).bind
      fun next reached₃ opened => ?_
    have there := there.mono reached₃
    cases update with
    | none => exact .pure ⟨opened, there⟩
    | some update =>
      exact (Keeps.withScope opened (after update rfl _)).bind
        fun _ reached₄ _ => .pure ⟨opened.mono reached₄, there.mono reached₄⟩
  · exact .pure (.normal there)

theorem visitKeys_keeps {labels : List String} {object : ObjectId}
    {visit : Value → Evaluation Ending} {keys : List String} {last : Value}
    (inside : ∀ key, R.Always (visit (.string key)) R.HasEnding) (there : R.HasValue s last) :
    R.Keeps s (visitKeys labels object visit keys last) R.HasEnding := by
  induction keys generalizing s last with
  | nil => exact .pure (.normal there)
  | cons key rest ih =>
    refine .asking fun _ => ?_
    split
    · refine (inside key _).bind fun ending reached has => ?_
      have there := there.mono reached
      split
      · exact ih (has.getD there)
      · exact .pure (has.updateEmpty_some there)
    · exact ih there

theorem forInLoop_keeps {labels : List String} {right : Evaluation Value}
    {visit : Value → Evaluation Ending} (first : R.Always right R.HasValue)
    (inside : ∀ key, R.Always (visit (.string key)) R.HasEnding) :
    R.Keeps s (forInLoop labels right visit) R.HasEnding := by
  refine (first s).bind fun right _ has => ?_
  split
  · exact .pure (.normal trivial)
  · refine (toObject_keeps has).bind fun object _ _ => .asking fun _ => ?_
    exact visitKeys_keeps inside trivial

theorem forInObject_keeps {left : ForTarget} {right : Evaluation Value}
    (inside : R.Always right R.HasValue) :
    R.Keeps s (forInObject left right) R.HasValue := by
  have scope : ∀ name, R.Keeps s (do
      let env ← openScopeHere
      createLexical env name false
      withScope env right) R.HasValue := fun name =>
    openScopeHere_keeps.bind fun env _ opened => (createLexical_keeps opened).bind
      fun _ reached _ => .withScope (opened.mono reached) (inside _)
  unfold forInObject
  split
  · exact scope _
  · exact scope _
  · exact inside s

theorem visitScope_keeps {name : String} {isConst : Bool} {body : Evaluation Ending} {key : String}
    (inside : R.Always body R.HasEnding) :
    R.Keeps s (visitScope name isConst body (.string key)) R.HasEnding := by
  have given : ∀ {t : Store}, R.HasValue t (.string key) := trivial
  refine openScopeHere_keeps.bind fun env _ opened => ?_
  refine (createLexical_keeps opened).bind fun _ reached _ => ?_
  exact (initializeLexical_keeps given).bind
    fun _ reached' _ => .withScope (opened.mono (reached.trans reached')) (inside _)

/-! ### Other statements -/

theorem branch_keeps {test : Evaluation Value} {consequent alternate : Evaluation Ending}
    (first : R.Always test R.HasValue) (second : R.Always consequent R.HasEnding)
    (third : R.Always alternate R.HasEnding) :
    R.Keeps s (branch test consequent alternate) R.HasEnding := by
  refine (first s).bind fun value _ _ => ?_
  split
  · exact (second _).bind fun _ _ has => .pure (has.updateEmpty_some trivial)
  · exact (third _).bind fun _ _ has => .pure (has.updateEmpty_some trivial)

theorem fallThrough_keeps {last : Value} {clause : Evaluation Ending}
    {next : Value → Evaluation Ending} (there : R.HasValue s last)
    (inside : R.Always clause R.HasEnding)
    (rest : ∀ {t : Store} (last : Value), R.HasValue t last → R.Keeps t (next last) R.HasEnding) :
    R.Keeps s (fallThrough last clause next) R.HasEnding := by
  refine (inside s).bind fun ending reached has => ?_
  have there := has.getD (there.mono reached)
  dsimp only
  split
  · exact rest _ there
  · exact .pure (has.updateEmpty_some there)

theorem thenNext_keeps {last : Option Value} {statement : Evaluation Ending}
    {next : Option Value → Evaluation Ending} (there : ∀ v ∈ last, R.HasValue s v)
    (inside : R.Always statement R.HasEnding)
    (rest : ∀ {t : Store} (last : Option Value), (∀ v ∈ last, R.HasValue t v) →
      R.Keeps t (next last) R.HasEnding) :
    R.Keeps s (thenNext last statement next) R.HasEnding := by
  refine (inside s).bind fun ending reached has => ?_
  have there : ∀ v ∈ last, _ := fun v mem => (there v mem).mono reached
  split
  · refine rest _ fun v mem => ?_
    cases left : ending.value? with
    | none => exact there v (by simpa only [left, Option.none_or] using mem)
    | some own => exact has v (by simpa only [left, Option.some_or] using mem)
  · exact .pure (has.updateEmpty there)

theorem catchClause_keeps {name : String} {body : Evaluation Ending} {raised : Raised}
    (inside : R.Always body R.HasEnding) (has : R.HasRaised s raised) :
    R.Keeps s (catchClause name body raised) R.HasEnding := by
  refine (caught_keeps has).bind fun value _ there => ?_
  refine openScopeHere_keeps.bind fun env reached opened => ?_
  exact (declare_keeps opened (fun _ => rfl) (there.mono reached)).bind
    fun _ reached' _ => .withScope (opened.mono reached') (inside _)

section

variable {block : Evaluation Ending} {handler : Option (Raised → Evaluation Ending)}
  (inside : R.Always block R.HasEnding)
  (handles : ∀ handle ∈ handler, ∀ {t : Store} {raised : Raised}, R.HasRaised t raised →
    R.Keeps t (handle raised) R.HasEnding)

include inside handles

theorem tryCatch_keeps : R.Keeps s (tryCatch block handler) R.HasEnding := by
  refine (inside s).attempt.bind fun result _ attempted => ?_
  split
  next raised handle =>
    split
    · exact .raise attempted
    · exact handles handle rfl attempted
  · exact .ofExcept attempted

theorem tryStatement_keeps {finalizer : Option (Evaluation Ending)}
    (finishes : ∀ final ∈ finalizer, R.Always final R.HasEnding) :
    R.Keeps s (tryStatement block handler finalizer) R.HasEnding := by
  have guarded : R.Always (tryCatch block handler) R.HasEnding :=
    fun _ => tryCatch_keeps inside handles
  have finish : ∀ {t : Store} (ending : Ending), R.HasEnding t ending →
      R.Keeps t (pure (ending.updateEmpty (some .undefined))) R.HasEnding :=
    fun _ has => .pure (has.updateEmpty_some trivial)
  unfold tryStatement
  cases finalizer with
  | none => exact (guarded s).bind fun ending _ has => finish ending has
  | some finalizer =>
    refine (guarded s).attempt.bind fun result _ attempted => ?_
    split
    · exact Keeps.bind (P := R.HasEnding) (.raise attempted)
        fun ending _ has => finish ending has
    · refine (finishes finalizer rfl _).bind fun {t} final reached has => ?_
      -- What was attempted is still there after the finalizer.
      have attempted : R.Attempted R.HasEnding t result := by
        cases result with
        | ok ending => exact HasEnding.mono attempted reached
        | error raised => exact HasRaised.mono attempted reached
      split
      · exact (Keeps.ofExcept attempted).bind fun ending _ has => finish ending has
      · exact (Keeps.pure has).bind fun ending _ has => finish ending has

end

section

variable {call : Caller} (calls : R.Calls call)

include calls

theorem visitPlace_keeps {place : Evaluation Reference} {body : Evaluation Ending} {key : String}
    (first : R.Always place R.HasReference) (inside : R.Always body R.HasEnding) :
    R.Keeps s (visitPlace call place body (.string key)) R.HasEnding := by
  have given : ∀ {t : Store}, R.HasValue t (.string key) := trivial
  exact (first s).bind fun _ _ has => (putValue_keeps calls has given).bind fun _ _ _ => inside _

theorem selectCase_keeps {value : Value} {index : Nat} {fallback : Option Nat}
    {clauses : List Case} (each : ∀ clause ∈ clauses, R.Fits (.clause clause)) :
    R.Safe s (selectCase call value index fallback clauses) := by
  induction clauses generalizing s index fallback with
  | nil => exact .pure trivial
  | cons clause rest ih =>
    obtain ⟨_, test, body⟩ := clause
    obtain ⟨first, others⟩ := List.forall_mem_cons.1 each
    cases test with
    | none => exact ih others
    | some test =>
      refine (evaluate_keeps calls test (first.inside (.head _)) s).bind fun found _ _ => ?_
      split
      · exact .pure trivial
      · exact ih others

theorem runDeclarator_keeps {kind : DeclarationKind} {d : Declarator}
    (fits : R.Fits (.declarator kind d)) : R.Safe s (runDeclarator call kind d) := by
  have inside : ∀ value ∈ d.init.map fun init => named d.id.name init (evaluate call init),
      R.Always value R.HasValue := by
    rintro _ eq
    obtain ⟨init, given, rfl⟩ := Option.map_eq_some_iff.1 eq
    have inner : R.Fits (.expression init) :=
      fits.inside (List.mem_map_of_mem (Option.mem_toList.2 given))
    exact fun _ => named_keeps inner (evaluate_keeps calls init inner)
  have initialized : ∀ value : Option (Evaluation Value),
      (∀ x ∈ value, R.Always x R.HasValue) → R.Safe s (do
        let value ← value.getD (return .undefined)
        initializeLexical (← askControl (·.lexical)) d.id.name value) := by
    intro value inside
    refine Keeps.bind (P := R.HasValue) ?_ fun _ _ has =>
      .askingControl fun _ _ _ => initializeLexical_keeps has
    cases value with
    | none => exact .pure trivial
    | some x => exact inside x rfl s
  unfold runDeclarator
  generalize d.init.map _ = value at inside ⊢
  cases kind with
  | var =>
    cases value with
    | none => exact .pure trivial
    | some x =>
      refine resolveHere_keeps.bind fun place _ has => ?_
      refine (inside x rfl _).bind fun _ reached there => ?_
      exact putValue_keeps calls (has.mono reached) there
  | «let» | const => exact initialized value inside

theorem runDeclaration_keeps {d : Declaration} (fits : ∀ piece ∈ d.pieces, R.Fits piece) :
    R.Safe s (runDeclaration call d) :=
  .forM fun _ mem _ _ => runDeclarator_keeps calls (fits _ (List.mem_map_of_mem mem))

theorem forLoop_keeps {init : Option ForInit} {scope : Scope}
    {rounds : List String → Evaluation Ending}
    (fits : ∀ piece ∈ init.toList.flatMap ForInit.pieces, R.Fits piece)
    (inside : ∀ names, R.Always (rounds names) R.HasEnding) :
    R.Keeps s (forLoop call init scope rounds) R.HasEnding := by
  unfold forLoop
  split
  · exact inside _ s
  next value =>
    exact (evaluate_keeps calls value (fits _ (.head _)) s).bind fun _ _ _ => inside _ _
  next d =>
    have fits : ∀ piece ∈ d.pieces, R.Fits piece := fun piece mem =>
      fits piece (List.mem_append_left _ mem)
    split
    · exact (runDeclaration_keeps calls fits).bind fun _ _ _ => inside _ _
    · refine openScopeHere_keeps.bind fun env _ opened => ?_
      refine (declareLexical_keeps opened).bind fun _ reached _ => ?_
      refine .withScope (opened.mono reached) ?_
      exact (runDeclaration_keeps calls fits).bind fun _ _ _ => inside _ _

/-! ### The walk over the tree -/

theorem optional_keeps {part : Option Expression}
    (fits : ∀ e ∈ part, R.Fits (.expression e)) :
    ∀ x ∈ part.map (evaluate call), R.Always x R.HasValue := by
  rintro _ eq
  obtain ⟨e, given, rfl⟩ := Option.map_eq_some_iff.1 eq
  exact evaluate_keeps calls e (fits e given)

set_option linter.unusedSectionVars false in
mutual

/-- The value that a statement leaves is there. -/
theorem execute_keeps (bound : Nat) (labels : List String) (statement : Statement)
    (fits : R.Fits (.statement statement)) :
    R.Always (execute call bound labels statement) R.HasEnding := by
  intro s
  match statement with
  | .expression _ value =>
    have inside := evaluate_keeps calls value (fits.inside (.head _))
    unfold execute
    exact (inside s).bind fun _ _ has => .pure (.normal has)
  | .block body =>
    unfold execute
    exact executeBlock_keeps bound body (fits.inside (.head _)) s
  | .empty _ | .debugger _ | .function _ =>
    unfold execute
    exact .pure .empty
  | .breaks .. | .continues .. =>
    unfold execute
    exact .pure nofun
  | .declaration d =>
    unfold execute
    exact (runDeclaration_keeps calls fun _ mem => fits.inside mem).bind fun _ _ _ => .pure .empty
  | .returns _ none =>
    unfold execute
    exact .pure (.normal trivial)
  | .returns _ (some value) =>
    have inside := evaluate_keeps calls value (fits.inside (.head _))
    unfold execute
    exact (inside s).bind fun _ _ has => .pure (.normal has)
  | .throws _ value =>
    have inside := evaluate_keeps calls value (fits.inside (.head _))
    unfold execute
    exact (inside s).bind fun _ _ has => .raise has
  | .labelled _ label body =>
    have inside := execute_keeps bound (label.name :: labels) body (fits.inside (.head _))
    unfold execute
    exact (inside s).bind fun _ _ has => .pure has.endLabelledBreak
  | .branch _ test consequent none =>
    have first := evaluate_keeps calls test (fits.inside (.head _))
    have second := execute_keeps bound [] consequent (fits.inside (.tail _ (.head _)))
    unfold execute
    exact branch_keeps first second fun _ => .pure .empty
  | .branch _ test consequent (some alternate) =>
    have first := evaluate_keeps calls test (fits.inside (.head _))
    have second := execute_keeps bound [] consequent (fits.inside (.tail _ (.head _)))
    have third := execute_keeps bound [] alternate (fits.inside (.tail _ (.tail _ (.head _))))
    unfold execute
    exact branch_keeps first second third
  | .select _ discriminant clauses scope =>
    have first := evaluate_keeps calls discriminant (fits.inside (.head _))
    have each : ∀ clause ∈ clauses, R.Fits (.clause clause) := fun _ mem =>
      fits.inside (.tail _ (List.mem_map_of_mem mem))
    unfold execute
    refine (first s).bind fun value _ _ => ?_
    refine Keeps.bind (P := R.HasEnding) (inBlock_keeps fits.admits fun _ => ?_)
      fun _ _ has => .pure has.endBreak
    refine (selectCase_keeps calls each).bind fun found _ _ => ?_
    cases found with
    | none => exact .pure (.normal trivial)
    | some entry => exact executeCases_keeps bound entry .undefined clauses each trivial
  | .attempt _ body handler finalizer =>
    have attempted := executeBlock_keeps bound body (fits.inside (.head _))
    have handled : ∀ clause ∈ handler, R.Fits (.handler clause) := fun clause given =>
      fits.inside (.tail _ (List.mem_append_left _
        (List.mem_map_of_mem (Option.mem_toList.2 given))))
    have finished : ∀ block ∈ finalizer, R.Fits (.block block) := fun block given =>
      fits.inside (.tail _ (List.mem_append_right _
        (List.mem_map_of_mem (Option.mem_toList.2 given))))
    have handles := executeHandler_keeps bound handler handled
    have finishes := executeFinalizer_keeps bound finalizer finished
    unfold execute
    exact tryStatement_keeps attempted handles finishes
  | .whileLoop _ test body =>
    have first := evaluate_keeps calls test (fits.inside (.head _))
    have inside := execute_keeps bound [] body (fits.inside (.tail _ (.head _)))
    unfold execute
    exact (whileLoop_keeps fits.admits first inside).bind fun _ _ has => .pure has.endBreak
  | .doLoop _ body test =>
    have after := evaluate_keeps calls test (fits.inside (.head _))
    have inside := execute_keeps bound [] body (fits.inside (.tail _ (.head _)))
    unfold execute
    exact (doLoop_keeps fits.admits inside after).bind fun _ _ has => .pure has.endBreak
  | .forLoop _ init test update body scope =>
    have heads : ∀ piece ∈ init.toList.flatMap ForInit.pieces, R.Fits piece := fun _ mem =>
      fits.inside (List.mem_append_left _ mem)
    have first := optional_keeps calls fun e (given : e ∈ test) =>
      fits.inside (List.mem_append_right _ (List.mem_append_left _
        (List.mem_map_of_mem (Option.mem_toList.2 given))))
    have after := optional_keeps calls fun e (given : e ∈ update) =>
      fits.inside (List.mem_append_right _ (List.mem_append_right _ (List.mem_append_left _
        (List.mem_map_of_mem (Option.mem_toList.2 given)))))
    have inside := execute_keeps bound [] body (fits.inside (List.mem_append_right _
      (List.mem_append_right _ (List.mem_append_right _ (.head _)))))
    unfold execute
    exact (forLoop_keeps calls heads fun _ _ =>
      forRounds_keeps fits.admits first after inside).bind fun _ _ has => .pure has.endBreak
  | .forInLoop _ left right body _ =>
    have object := evaluate_keeps calls right (fits.inside (List.mem_append_right _ (.head _)))
    have inside := execute_keeps bound [] body
      (fits.inside (List.mem_append_right _ (.tail _ (.head _))))
    unfold execute
    refine (forInLoop_keeps (fun _ => forInObject_keeps object) fun key _ => ?_).bind
      fun _ _ has => .pure has.endBreak
    cases left with
    | declaration kind id =>
      cases kind with
      | var => exact visitPlace_keeps calls (fun _ => resolveHere_keeps) inside
      | «let» | const => exact visitScope_keeps inside
    | expression place =>
      exact visitPlace_keeps calls (reference_keeps calls place (fits.inside (.head _))) inside

theorem executeList_keeps {s : Store} (bound : Nat) (last : Option Value)
    (statements : List Statement)
    (each : ∀ statement ∈ statements, R.Fits (.statement statement))
    (there : ∀ v ∈ last, R.HasValue s v) :
    R.Keeps s (executeList call bound last statements) R.HasEnding := by
  match statements with
  | [] =>
    unfold executeList
    exact .pure there
  | statement :: rest =>
    obtain ⟨first, others⟩ := List.forall_mem_cons.1 each
    have inside := execute_keeps bound [] statement first
    unfold executeList
    exact thenNext_keeps there inside fun last there =>
      executeList_keeps bound last rest others there

theorem executeBlock_keeps (bound : Nat) (block : Block) (fits : R.Fits (.block block)) :
    R.Always (executeBlock call bound block) R.HasEnding := by
  intro s
  match block with
  | ⟨_, body, scope⟩ =>
    have each : ∀ statement ∈ body, R.Fits (.statement statement) := fits.each rfl
    unfold executeBlock
    exact inBlock_keeps fits.admits fun _ =>
      executeList_keeps bound none body each HasEnding.empty

theorem executeCases_keeps {s : Store} (bound : Nat) (skipped : Nat) (last : Value)
    (clauses : List Case)
    (each : ∀ clause ∈ clauses, R.Fits (.clause clause)) (there : R.HasValue s last) :
    R.Keeps s (executeCases call bound skipped last clauses) R.HasEnding := by
  match clauses with
  | [] =>
    unfold executeCases
    exact .pure (.normal there)
  | ⟨_, test, body⟩ :: rest =>
    obtain ⟨first, others⟩ := List.forall_mem_cons.1 each
    have statements : ∀ statement ∈ body, R.Fits (.statement statement) := fun _ mem =>
      first.inside (List.mem_append_right _ (List.mem_map_of_mem mem))
    unfold executeCases
    split
    · exact fallThrough_keeps there
        (fun _ => executeList_keeps bound none body statements HasEnding.empty)
        fun last there => executeCases_keeps bound 0 last rest others there
    · exact executeCases_keeps bound (skipped - 1) last rest others there

theorem executeHandler_keeps (bound : Nat) (handler : Option Handler)
    (each : ∀ clause ∈ handler, R.Fits (.handler clause)) :
    ∀ handle ∈ executeHandler call bound handler, ∀ {t : Store} {raised : Raised},
      R.HasRaised t raised → R.Keeps t (handle raised) R.HasEnding := by
  match handler with
  | none =>
    unfold executeHandler
    exact nofun
  | some ⟨_, parameter, body⟩ =>
    have fits : R.Fits (.handler ⟨_, parameter, body⟩) := each _ rfl
    have inside := executeBlock_keeps bound body (fits.inside (.head _))
    unfold executeHandler
    rintro _ ⟨⟩ t raised has
    exact catchClause_keeps inside has

theorem executeFinalizer_keeps (bound : Nat) (finalizer : Option Block)
    (each : ∀ block ∈ finalizer, R.Fits (.block block)) :
    ∀ final ∈ executeFinalizer call bound finalizer, R.Always final R.HasEnding := by
  match finalizer with
  | none =>
    unfold executeFinalizer
    exact nofun
  | some block =>
    unfold executeFinalizer
    rintro _ ⟨⟩
    exact executeBlock_keeps bound block (each _ rfl)

end

end

end Regime

end ScriptEngine
