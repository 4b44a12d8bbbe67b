import ScriptEngine.Engine.Engine
import ScriptEngine.Proofs.Evaluation.Endings

/-!
# Jumps

A `break` or `continue` may name a label. A statement of any kind, accepted or not, ends with a jump
to a label only if a jump in it names that label (`execute_targeted`); what stands in a function is no
part of this, since a call ends in no jump. And no statement ends with a thrown value: what is
thrown is raised (`execute_ne_throws`).

So of the labels before a statement only those matter that a jump in it names. Main result: a label
that none of them names makes no difference (`execute_labelled_of_unnamed`).
-/
namespace ScriptEngine

namespace Jumps

mutual

/-- The labels that the jumps in a statement name, those in functions left out. -/
def statement : Statement → List String
  | .breaks _ label | .continues _ label => (label.map Identifier.name).toList
  | .block body => block body
  | .labelled _ _ body | .whileLoop _ _ body | .doLoop _ body _ | .forLoop _ _ _ _ body _
  | .forInLoop _ _ _ body _ => statement body
  | .branch _ _ consequent alternate => statement consequent ++ alternative alternate
  | .select _ _ clauses _ => cases clauses
  | .attempt _ body clause finalizer => block body ++ (handler clause ++ optionalBlock finalizer)
  | .expression .. | .empty _ | .debugger _ | .returns .. | .throws .. | .function _
  | .declaration _ => []

def alternative : Option Statement → List String
  | none => []
  | some s => statement s

def statements : List Statement → List String
  | [] => []
  | s :: rest => statement s ++ statements rest

def block : Block → List String
  | ⟨_, body, _⟩ => statements body

def optionalBlock : Option Block → List String
  | none => []
  | some body => block body

def handler : Option Handler → List String
  | none => []
  | some ⟨_, _, body⟩ => block body

def cases : List Case → List String
  | [] => []
  | ⟨_, _, body⟩ :: rest => statements body ++ cases rest

end

end Jumps

namespace Evaluate

open Evaluation Operation Contract

/-- The ending is not that a value is thrown, and a label that it names is one of certain ones. -/
def Targeted (p : String → Prop) : Ending → Prop
  | .normal _ | .returns _ | .breaks none _ | .continues none _ => True
  | .breaks (some label) _ | .continues (some label) _ => p label
  | .throws _ => False

namespace Targeted

variable {p : String → Prop} {ending : Ending}

theorem stable : Stable (Targeted p) where
  normal _ := trivial
  updateEmpty {ending} value named := by
    cases ending with
    | normal value => cases value <;> trivial
    | returns | throws => exact named
    | breaks label value => cases label <;> cases value <;> exact named
    | continues label value => cases label <;> cases value <;> exact named

theorem leaves (labels : List String) : Leaves labels (Targeted p) (Targeted p) where
  normal _ := trivial
  left value named _ := stable.updateEmpty value named

theorem endBreak {otherwise : Value} (named : Targeted p ending) :
    Targeted p (ending.endBreak otherwise) := by
  cases ending with
  | normal | returns | throws => exact named
  | breaks label =>
    cases label with
    | none => trivial
    | some label => exact named
  | continues label => cases label <;> exact named

theorem endLabelledBreak {label : String} (named : Targeted p ending) :
    Targeted p (ending.endLabelledBreak label) := by
  cases ending with
  | normal | returns | throws => exact named
  | breaks target =>
    cases target with
    | none => exact named
    | some target =>
      dsimp only [Completion.endLabelledBreak]
      split
      · trivial
      · exact named
  | continues target => cases target <;> exact named

end Targeted

section

variable (call : Caller) (bound : Nat) {p : String → Prop}

private theorem any_forLoop {P : Ending → Prop} {init : Option ForInit} {scope : Scope}
    {rounds : List String → Evaluation Ending} (inside : ∀ names, any.Keeps (rounds names) P) :
    any.Keeps (forLoop call init scope rounds) P := by
  unfold forLoop
  split
  · exact inside _
  · exact (any_safe _).bind fun _ => inside _
  · split
    · exact (any_safe _).bind fun _ => inside _
    · refine (any_safe _).bind fun env => (any_safe _).bind fun _ => any_lawful.withScope env ?_
      exact (any_safe _).bind fun _ => inside _

/-- What a round of a loop over keys ends with is what its body ends with. -/
theorem any_keyRound {P : Ending → Prop} (left : ForTarget) {body : Evaluation Ending}
    (inside : any.Keeps body P) (key : Value) : any.Keeps (keyRound call left body key) P :=
  keyRound_keeps any_lawful any_lenient (fun _ _ _ => any_safe _) (fun _ _ => any_safe _) inside key

mutual

/-- A statement that ends with a jump to a label has a jump that names it. -/
theorem execute_targeted (labels : List String) (s : Statement)
    (each : ∀ label ∈ Jumps.statement s, p label) :
    any.Keeps (execute call bound labels s) (Targeted p) := by
  match s with
  | .expression .. | .declaration _ =>
    unfold execute
    exact (any_safe _).bind fun _ => .pure trivial
  | .block body =>
    simp only [Jumps.statement] at each
    unfold execute
    exact executeBlock_targeted body each
  | .empty _ | .debugger _ | .function _ | .returns _ none =>
    unfold execute
    exact .pure trivial
  | .breaks _ label | .continues _ label =>
    unfold execute
    cases label with
    | none => exact .pure trivial
    | some label => exact .pure (each label.name (by simp only [Jumps.statement, Option.map_some,
        Option.toList_some, List.mem_singleton]))
  | .returns _ (some value) =>
    unfold execute
    exact (any_safe _).bind fun _ => .pure trivial
  | .throws _ value =>
    unfold execute
    exact (any_safe _).bind fun _ => .raise trivial
  | .labelled _ label body =>
    simp only [Jumps.statement] at each
    unfold execute
    exact (execute_targeted (label.name :: labels) body each).bind
      fun _ named => .pure named.endLabelledBreak
  | .branch _ test consequent alternate =>
    simp only [Jumps.statement, List.forall_mem_append] at each
    have second := execute_targeted [] consequent each.1
    cases alternate with
    | none =>
      unfold execute
      exact branch_keeps Targeted.stable (any_safe _) second (.pure trivial)
    | some alternate =>
      have each : ∀ label ∈ Jumps.statement alternate, p label := by
        simpa only [Jumps.alternative] using each.2
      have third := execute_targeted [] alternate each
      unfold execute
      exact branch_keeps Targeted.stable (any_safe _) second third
  | .select _ discriminant clauses scope =>
    simp only [Jumps.statement] at each
    unfold execute
    refine (any_safe _).bind fun value => ?_
    refine Keeps.bind (Q := Targeted p)
      (inBlock_keeps any_lawful any_lenient (fun _ _ => trivial) ?_)
      fun _ named => .pure named.endBreak
    refine (any_safe _).bind fun found => ?_
    cases found with
    | none => exact .pure trivial
    | some entry => exact executeCases_targeted entry .undefined clauses each
  | .attempt _ body clause finalizer =>
    simp only [Jumps.statement, List.forall_mem_append] at each
    unfold execute
    refine tryStatement_keeps Targeted.stable (executeBlock_targeted body each.1) ?_ ?_
    · intro handle eq raised allowed
      match clause with
      | none =>
        unfold executeHandler at eq
        cases eq
      | some ⟨_, parameter, body⟩ =>
        have handled := executeBlock_targeted body (by simpa only [Jumps.handler] using each.2.1)
        unfold executeHandler at eq
        cases eq
        exact catchClause_keeps any_lawful parameter.name handled allowed
    · intro final eq
      match finalizer with
      | none =>
        unfold executeFinalizer at eq
        cases eq
      | some body =>
        have finished := executeBlock_targeted body
          (by simpa only [Jumps.optionalBlock] using each.2.2)
        unfold executeFinalizer at eq
        cases eq
        exact finished
  | .whileLoop _ test body =>
    simp only [Jumps.statement] at each
    have inside := execute_targeted [] body each
    unfold execute
    exact (whileLoop_keeps (Targeted.leaves labels) bound (any_safe _) inside).bind
      fun _ named => .pure named.endBreak
  | .doLoop _ body test =>
    simp only [Jumps.statement] at each
    have inside := execute_targeted [] body each
    unfold execute
    exact (doLoop_keeps (Targeted.leaves labels) bound inside (any_safe _)).bind
      fun _ named => .pure named.endBreak
  | .forLoop _ init test update body scope =>
    simp only [Jumps.statement] at each
    unfold execute
    refine Keeps.bind (Q := Targeted p) (any_forLoop call fun names => ?_)
      fun _ named => .pure named.endBreak
    exact forRounds_keeps (Targeted.leaves labels) any_lawful bound (any_safe _)
      (fun _ _ => any_safe _) (fun _ _ => any_safe _) (execute_targeted [] body each)
  | .forInLoop _ left right body _ =>
    simp only [Jumps.statement] at each
    have inside := execute_targeted [] body each
    rw [execute_forIn]
    exact (forInLoop_keeps (Targeted.leaves labels) any_lawful (any_safe _)
      (any_keyRound call left inside)).bind fun _ named => .pure named.endBreak

theorem executeList_targeted (last : Option Value) (statements : List Statement)
    (each : ∀ label ∈ Jumps.statements statements, p label) :
    any.Keeps (executeList call bound last statements) (Targeted p) := by
  match statements with
  | [] =>
    unfold executeList
    exact .pure trivial
  | s :: rest =>
    simp only [Jumps.statements, List.forall_mem_append] at each
    unfold executeList
    exact thenNext_keeps Targeted.stable last (execute_targeted [] s each.1)
      fun last => executeList_targeted last rest each.2

theorem executeBlock_targeted (block : Block) (each : ∀ label ∈ Jumps.block block, p label) :
    any.Keeps (executeBlock call bound block) (Targeted p) := by
  match block with
  | ⟨_, body, scope⟩ =>
    simp only [Jumps.block] at each
    unfold executeBlock
    exact inBlock_keeps any_lawful any_lenient (fun _ _ => trivial)
      (executeList_targeted none body each)

theorem executeCases_targeted (skipped : Nat) (last : Value) (cases : List Case)
    (each : ∀ label ∈ Jumps.cases cases, p label) :
    any.Keeps (executeCases call bound skipped last cases) (Targeted p) := by
  match cases with
  | [] =>
    unfold executeCases
    exact .pure trivial
  | ⟨_, test, body⟩ :: rest =>
    simp only [Jumps.cases, List.forall_mem_append] at each
    unfold executeCases
    split
    · exact fallThrough_keeps Targeted.stable last (executeList_targeted none body each.1)
        fun last => executeCases_targeted 0 last rest each.2
    · exact executeCases_targeted (skipped - 1) last rest each.2

end

/-- No statement ends with a thrown value, accepted or not: what is thrown is raised. -/
theorem execute_ne_throws (labels : List String) (s : Statement) (m : Machine) (value : Value) :
    ((execute call bound labels s).run m).1 ≠ .value (.throws value) := by
  intro eq
  have met := (execute_targeted (p := fun _ => True) call bound labels s (fun _ _ => trivial) [] m
    trivial trivial).meets
  rw [eq] at met
  exact met

/-! ### Labels that no jump names -/

/-- What follows on an evaluation may be replaced by what is the same after all that the evaluation
may have for a value. -/
theorem bind_congr_of_keeps {α β : Type} {x : Evaluation α} {P : α → Prop} (keeps : any.Keeps x P)
    {f g : α → Evaluation β} (same : ∀ a, P a → f a = g a) : x >>= f = x >>= g := by
  have after : ∀ m a between, x.run m = (.value a, between) → f a = g a := by
    intro m a between run
    have met := (keeps [] m trivial trivial).meets
    rw [run] at met
    exact same a met
  ext m : 2
  · change andThen f (x.run m) = andThen g (x.run m)
    cases run : x.run m with
    | mk outcome between =>
      cases outcome with
      | value a => rw [andThen, andThen, after m a between run]
      | raised | exhausted => rfl
  · change x.moments m ++ momentsAfter f (x.run m) = x.moments m ++ momentsAfter g (x.run m)
    cases run : x.run m with
    | mk outcome between =>
      cases outcome with
      | value a => rw [momentsAfter, momentsAfter, after m a between run]
      | raised | exhausted => rfl
  · change x.incidents m ++ incidentsAfter f (x.run m) = x.incidents m ++ incidentsAfter g (x.run m)
    cases run : x.run m with
    | mk outcome between =>
      cases outcome with
      | value a => rw [incidentsAfter, incidentsAfter, after m a between run]
      | raised | exhausted => rfl

section

variable {labels labels' : List String}
  (alike : ∀ label, p label → labels.contains label = labels'.contains label)

include alike

/-- Of the labels of a loop only those matter that a round may name. -/
theorem Targeted.letsLoopContinue_congr {ending : Ending} (named : Targeted p ending) :
    ending.letsLoopContinue labels = ending.letsLoopContinue labels' := by
  cases ending with
  | normal | returns | throws | breaks => rfl
  | continues label =>
    cases label with
    | none => rfl
    | some label => exact alike label named

theorem afterRound_labels_congr {σ : Type} {ending : Ending} (named : Targeted p ending)
    (last : Value) (next : Value → Evaluation (Round σ Ending)) :
    afterRound labels last ending next = afterRound labels' last ending next := by
  rw [afterRound, afterRound, named.letsLoopContinue_congr alike]

theorem whileLoop_labels_congr (test : Evaluation Value) {body : Evaluation Ending}
    (inside : any.Keeps body (Targeted p)) :
    whileLoop bound labels test body = whileLoop bound labels' test body := by
  refine congrArg (iterate bound · Value.undefined) (funext fun last => ?_)
  refine congrArg (test >>= ·) (funext fun value => ?_)
  split
  · exact bind_congr_of_keeps inside fun _ named => afterRound_labels_congr alike named _ _
  · rfl

theorem doLoop_labels_congr {body : Evaluation Ending} (test : Evaluation Value)
    (inside : any.Keeps body (Targeted p)) :
    doLoop bound labels body test = doLoop bound labels' body test := by
  refine congrArg (iterate bound · Value.undefined) (funext fun last => ?_)
  exact bind_congr_of_keeps inside fun _ named => afterRound_labels_congr alike named _ _

theorem forRounds_labels_congr (names : List String) (test update : Option (Evaluation Value))
    {body : Evaluation Ending} (inside : any.Keeps body (Targeted p)) :
    forRounds bound labels names test update body =
      forRounds bound labels' names test update body := by
  refine congrArg (nextScope names >>= ·) (funext fun first => ?_)
  refine congrArg (iterate bound · (first, Value.undefined)) (funext fun (env, last) => ?_)
  refine congrArg (withScope env _ >>= ·) (funext fun proceed => ?_)
  split
  · exact bind_congr_of_keeps (any_lawful.withScope env inside)
      fun _ named => afterRound_labels_congr alike named _ _
  · rfl

theorem visitKeys_labels_congr (object : ObjectId) {visit : Value → Evaluation Ending}
    (inside : ∀ key, any.Keeps (visit key) (Targeted p)) (keys : List String) (last : Value) :
    visitKeys labels object visit keys last = visitKeys labels' object visit keys last := by
  induction keys generalizing last with
  | nil => rfl
  | cons key rest ih =>
    unfold visitKeys
    refine congrArg (ask _ >>= ·) (funext fun still => ?_)
    split
    · refine bind_congr_of_keeps (inside _) fun ending named => ?_
      rw [named.letsLoopContinue_congr alike, ih]
    · exact ih last

theorem forInLoop_labels_congr (right : Evaluation Value) {visit : Value → Evaluation Ending}
    (inside : ∀ key, any.Keeps (visit key) (Targeted p)) :
    forInLoop labels right visit = forInLoop labels' right visit := by
  refine congrArg (right >>= ·) (funext fun value => ?_)
  split
  · rfl
  · refine congrArg (toObject value >>= ·) (funext fun object => ?_)
    exact congrArg (ask _ >>= ·)
      (funext fun keys => visitKeys_labels_congr alike object inside keys _)

end

/-- Of the labels right before a statement only those matter that a jump in the statement names. -/
theorem execute_labels_congr {labels labels' : List String} (s : Statement)
    (each : ∀ label ∈ Jumps.statement s, p label)
    (alike : ∀ label, p label → labels.contains label = labels'.contains label) :
    execute call bound labels s = execute call bound labels' s := by
  match s with
  | .labelled _ label body =>
    simp only [Jumps.statement] at each
    have further : ∀ other, p other →
        (label.name :: labels).contains other = (label.name :: labels').contains other := by
      intro other named
      rw [List.contains_cons, List.contains_cons, alike other named]
    unfold execute
    rw [execute_labels_congr body each further]
  | .whileLoop _ test body =>
    simp only [Jumps.statement] at each
    have inside := execute_targeted call bound [] body each
    unfold execute
    rw [whileLoop_labels_congr bound alike _ inside]
  | .doLoop _ body test =>
    simp only [Jumps.statement] at each
    have inside := execute_targeted call bound [] body each
    unfold execute
    rw [doLoop_labels_congr bound alike _ inside]
  | .forLoop _ init test update body scope =>
    simp only [Jumps.statement] at each
    have inside := execute_targeted call bound [] body each
    unfold execute
    refine congrArg (forLoop call init scope · >>= _) (funext fun names => ?_)
    exact forRounds_labels_congr bound alike names _ _ inside
  | .forInLoop _ left right body scope =>
    simp only [Jumps.statement] at each
    have inside := execute_targeted call bound [] body each
    rw [execute_forIn, execute_forIn,
      forInLoop_labels_congr alike _ (any_keyRound call left inside)]
  | .expression .. | .block _ | .empty _ | .debugger _ | .function _ | .declaration _
  | .returns _ none | .returns _ (some _) | .breaks .. | .continues .. | .throws ..
  | .branch _ _ _ none | .branch _ _ _ (some _) | .select .. | .attempt .. =>
    unfold execute
    rfl

/-- A label that no jump in a statement names makes no difference to the statement, of whatever kind
it is: with the label it ends in the same way or raises the same, and leaves the same store, after
the same moments. -/
theorem execute_labelled_of_unnamed {s : Statement} {label : Identifier}
    (unnamed : label.name ∉ Jumps.statement s) (labels : List String) (span : Span) :
    execute call bound labels (.labelled span label s) = execute call bound labels s := by
  have each : ∀ other ∈ Jumps.statement s, other ≠ label.name :=
    fun other mem same => unnamed (same ▸ mem)
  have alike : ∀ other, other ≠ label.name →
      (label.name :: labels).contains other = labels.contains other := by
    intro other different
    rw [List.contains_cons, beq_false_of_ne different, Bool.false_or]
  have passes : ∀ ending : Ending, Targeted (· ≠ label.name) ending →
      (pure (ending.endLabelledBreak label.name) : Evaluation Ending) = pure ending := by
    intro ending named
    cases ending with
    | normal | returns | throws | continues => rfl
    | breaks target =>
      cases target with
      | none => rfl
      | some target => rw [Completion.endLabelledBreak, if_neg named]
  calc execute call bound labels (.labelled span label s)
      = execute call bound (label.name :: labels) s >>=
          fun ending => pure (ending.endLabelledBreak label.name) := by
        conv => lhs; unfold execute
    _ = execute call bound (label.name :: labels) s >>= pure :=
        bind_congr_of_keeps (execute_targeted call bound _ s each) passes
    _ = execute call bound (label.name :: labels) s := bind_pure _
    _ = execute call bound labels s := execute_labels_congr call bound s each alike

end

/-- The label `a` before a loop that has the label `b` and is left by `break b`: no jump names `a`,
and the loop ends normally with it and without. -/
theorem execute_labelled_of_unnamed_loop :
    let e := Engine.create { builtins := false }
    let s : Span := ⟨0, 0⟩
    let leave : Statement := .breaks s (some ⟨"b", s⟩)
    let loop : Statement := .labelled s ⟨"b", s⟩ (.whileLoop s (.this s) leave)
    (⟨"a", s⟩ : Identifier).name ∉ Jumps.statement loop ∧
      execute e.caller 1 [] (.labelled s ⟨"a", s⟩ loop) = execute e.caller 1 [] loop ∧
      (execute e.caller 1 [] (.labelled s ⟨"a", s⟩ loop)).run e.machine =
        (.value (.normal (some .undefined)), e.machine) := by
  intro e s leave loop
  have unnamed : (⟨"a", s⟩ : Identifier).name ∉ Jumps.statement loop := by
    decide
  have same := execute_labelled_of_unnamed e.caller 1 unnamed [] s
  refine ⟨unnamed, same, ?_⟩
  rw [same]
  rfl

end Evaluate

end ScriptEngine
