import ScriptEngine.Proofs.Tree.Directives
import ScriptEngine.Proofs.Tree.Accepted
import ScriptEngine.Proofs.Tree.Marked

/-!
# How building makes code strict

A scope gets its flag when it is opened, from the innermost scope that is open and, if it is the
scope of a function, from the directives of the body. `Stamps` describes a builder by what it returns
where the innermost scope is strict or not. Main result: in a tree that was built every scope has the
flag that follows from the bodies around it (`buildScript_marked`).
-/
namespace ScriptEngine

/-- The flags of the open scopes, with the functions recorded in them. -/
def Tracker.marks (t : Tracker) : List (Bool × List FunctionCode) :=
  t.frames.map fun frame => (frame.scope.strict, frame.scope.functions)

theorem marks_declareVar (id : Identifier) (frames : List ScopeFrame) :
    (⟨declareVar id frames⟩ : Tracker).marks = (⟨frames⟩ : Tracker).marks := by
  induction frames with
  | nil => rfl
  | cons frame outer ih =>
    simp only [Tracker.marks, declareVar, List.map_cons, List.cons.injEq, true_and]
    split
    · rfl
    · exact ih

namespace Tracker

theorem marks_modifyScope (t : Tracker) {change : Scope → Scope}
    (strict : ∀ s, (change s).strict = s.strict)
    (functions : ∀ s, (change s).functions = s.functions) :
    (t.modifyScope change).marks = t.marks := by
  obtain ⟨frames⟩ := t
  cases frames with
  | nil => rfl
  | cons frame outer => simp [modifyScope, marks, strict, functions]

/-- To declare a name neither makes a scope strict nor records a function. -/
theorem marks_declare (t : Tracker) (id : Identifier) (kind : NameKind) :
    (t.declare id kind).marks = t.marks := by
  cases kind with
  | declared kind =>
    cases kind with
    | var => exact marks_declareVar id t.frames
    | «let» | const => exact t.marks_modifyScope (fun _ => rfl) fun _ => rfl
  | parameter => exact t.marks_modifyScope (fun _ => rfl) fun _ => rfl

theorem isStrict_eq (t : Tracker) : t.isStrict = (t.marks.head?.map Prod.fst).getD false := by
  obtain ⟨frames⟩ := t
  cases frames <;> rfl

end Tracker

namespace Build

variable {α β : Type} (asks : List Statement → Bool)

/-- The functions recorded in the open scopes have the flags that follow from where they stand. -/
def Recorded (t : Tracker) : Prop := ∀ mark ∈ t.marks, Marked.functions asks mark.1 mark.2

/-- A builder that leaves the flags of the open scopes alone, with a condition on what it returns
where the innermost scope is strict or not. -/
def Stamps (strict : Bool) (x : Build α) (P : α → Prop) : Prop :=
  ∀ (t t' : Tracker) (a : α), t.isStrict = strict → Recorded asks t → x.run t = (.ok a, t') →
    t'.marks.map Prod.fst = t.marks.map Prod.fst ∧ Recorded asks t' ∧ P a

end Build

namespace Build.Stamps

variable {α β : Type} {asks : List Statement → Bool} {strict : Bool} {x : Build α}
  {f : α → Build β} {P : α → Prop} {Q : β → Prop}

theorem pure {a : α} (h : P a) : Stamps asks strict (Pure.pure a) P := by
  rintro t t' _ _ recorded ⟨⟩
  exact ⟨rfl, recorded, h⟩

theorem fail (problem : Problem) (span : Span) : Stamps asks strict (Build.fail problem span) P := by
  rintro t t' a _ _ ⟨⟩

theorem bind (first : Stamps asks strict x P) (second : ∀ a, P a → Stamps asks strict (f a) Q) :
    Stamps asks strict (x >>= f) Q := by
  intro t t'' b same recorded run
  rw [run_bind] at run
  split at run
  next a t' eq =>
    obtain ⟨flags, recorded', holds⟩ := first t t' a same recorded eq
    -- The innermost scope is as strict as before, so the second part starts like the first.
    have same' : t'.isStrict = strict := by
      rw [← same, t'.isStrict_eq, t.isStrict_eq, ← List.head?_map, ← List.head?_map, flags]
    obtain ⟨flags', recorded'', holds'⟩ := second a holds t' t'' b same' recorded' run
    exact ⟨flags'.trans flags, recorded'', holds'⟩
  · cases run

/-- What is known of the value of a builder from elsewhere. -/
theorem also {P' : α → Prop} (h : Stamps asks strict x P) (gives : Gives x P') :
    Stamps asks strict x fun a => P a ∧ P' a := by
  intro t t' a same recorded run
  obtain ⟨flags, recorded', holds⟩ := h t t' a same recorded run
  exact ⟨flags, recorded', holds, gives t t' a run⟩

/-- A builder that does not touch the open scopes. -/
theorem of_marks (keeps : ∀ t t' a, x.run t = (.ok a, t') → t'.marks = t.marks) :
    Stamps asks strict x fun _ => True := by
  intro t t' a _ recorded run
  have same := keeps t t' a run
  exact ⟨by rw [same], by unfold Recorded; rwa [same], trivial⟩

theorem declare (id : Identifier) (kind : NameKind) :
    Stamps asks strict (Build.declare id kind) fun _ => True :=
  of_marks fun t t' _ run => by
    cases run
    exact t.marks_declare id kind

theorem declareAll (ids : List Identifier) :
    Stamps asks strict (ids.forM (Build.declare · .parameter)) fun _ => True := by
  induction ids with
  | nil => exact pure trivial
  | cons id rest ih => exact (declare id .parameter).bind fun _ _ => ih

theorem declareFunction {code : FunctionCode} (marked : Marked.function asks strict code) :
    Stamps asks strict (modify (·.declareFunction code)) fun _ => True := by
  rintro ⟨frames⟩ t' _ same recorded ⟨⟩
  cases frames with
  | nil => exact ⟨rfl, recorded, trivial⟩
  | cons frame outer =>
    refine ⟨rfl, ?_, trivial⟩
    obtain ⟨first, others⟩ := List.forall_mem_cons.1 recorded
    have flag : frame.scope.strict = strict := same
    have marked' : Marked.function asks frame.scope.strict code := flag.symm ▸ marked
    refine List.forall_mem_cons.2 ⟨?_, others⟩
    exact Marked.functions_append first (And.intro marked' trivial)

/-- Inside a new scope the code is as strict as that scope, which is strict or not for good. -/
theorem inScope {openScope : Tracker → Tracker} {inner : Bool}
    (opened : ∀ t, t.isStrict = strict → (openScope t).marks = (inner, []) :: t.marks)
    (inside : Stamps asks inner x P) :
    Stamps asks strict (Build.inScope openScope x) fun (a, scope) =>
      P a ∧ Marked.scope asks inner scope := by
  rintro t t'' ⟨a, scope⟩ same recorded run
  have marks := opened t same
  have strict' : (openScope t).isStrict = inner := by
    rw [Tracker.isStrict_eq, marks]
    rfl
  have recorded' : Recorded asks (openScope t) := by
    unfold Recorded
    rw [marks]
    exact List.forall_mem_cons.2 ⟨trivial, recorded⟩
  simp only [Build.inScope, ExceptT.run] at run
  split at run
  · cases run
  next a' t' eq =>
    obtain ⟨flags, recorded'', holds⟩ := inside _ t' a' strict' recorded' eq
    rw [marks] at flags
    obtain ⟨frames⟩ := t'
    cases frames with
    | nil => cases flags
    | cons frame outer =>
      -- As many scopes are open as before, so the one that is closed is the new one.
      simp only [Tracker.marks, List.map_cons, List.cons.injEq] at flags
      obtain ⟨flag, outside⟩ := flags
      have deep : outer.length = t.frames.length := by
        simpa [Tracker.marks] using congrArg List.length outside
      have kept : (⟨frame :: outer⟩ : Tracker).abandonTo (t.depth + 1) = ⟨frame :: outer⟩ := by
        simp [Tracker.abandonTo, Tracker.depth, deep]
      rw [kept] at run
      cases run
      obtain ⟨first, others⟩ := List.forall_mem_cons.1 recorded''
      exact ⟨outside, others, holds, (Marked.scope_iff _).2 ⟨flag, flag ▸ first⟩⟩

theorem inBlock (inside : Stamps asks strict x P) :
    Stamps asks strict (Build.inBlock x) fun (a, scope) => P a ∧ Marked.scope asks strict scope := by
  refine inScope (fun t same => ?_) inside
  rw [← same]
  rfl

theorem inFunction {directive : Bool} (inside : Stamps asks (strict || directive) x P) :
    Stamps asks strict (Build.inFunction directive x) fun (a, scope) =>
      P a ∧ Marked.scope asks (strict || directive) scope := by
  refine inScope (fun t same => ?_) inside
  rw [← same, Bool.or_comm]
  rfl

end Build.Stamps

namespace Script

open Build

section

variable {asks : List Statement → Bool} {strict : Bool}

theorem require_stamps {α : Type} (node : Node Rule) (a : Option α) :
    Stamps asks strict (require node a) fun _ => True := by
  cases a with
  | none => exact .fail _ _
  | some a => exact .pure trivial

theorem stringValue_stamps (node : Node Rule) :
    Stamps asks strict (stringValue node) fun _ => True := by
  unfold stringValue
  split
  · split
    · exact .pure trivial
    · exact .fail _ _
  · exact .fail _ _

theorem literalValue_stamps (node : Node Rule) :
    Stamps asks strict (literalValue node) fun _ => True := by
  unfold literalValue
  split
  · exact .pure trivial
  · exact .pure trivial
  · exact require_stamps node _
  · exact (stringValue_stamps node).bind fun _ _ => .pure trivial
  · exact .fail _ _

theorem propertyKey_stamps (node : Node Rule) :
    Stamps asks strict (propertyKey node) fun _ => True := by
  unfold propertyKey
  split
  · split
    · exact .pure trivial
    · exact stringValue_stamps _
    · exact require_stamps _ _
    · exact .fail _ _
  · exact .fail _ _

theorem buildBlock_stamps (span : Span) {body : Build (List Statement)}
    (inside : Stamps asks strict body (Marked.statements asks strict)) :
    Stamps asks strict (buildBlock span body) (Marked.block asks strict) :=
  (Stamps.inBlock inside).bind fun (_, _) built =>
    .pure ((Marked.block_iff _).2 ⟨built.2, built.1⟩)

/-- A function is as strict as the code around it and its directives make it. -/
theorem buildCode_stamps {directive : Bool} (span : Span) (id : Option Identifier)
    (parameters : List Identifier) (bodySpan : Span) {body : Build (List Statement)}
    (asked : Gives body fun statements => directive = asks statements)
    (inside : Stamps asks (strict || directive) body
      (Marked.statements asks (strict || directive))) :
    Stamps asks strict (buildCode directive span id parameters bodySpan body)
      (Marked.function asks strict) := by
  have declared := (Stamps.declareAll parameters).bind fun _ _ => inside.also asked
  refine (Stamps.inFunction declared).bind fun (statements, scope) built => .pure ?_
  obtain ⟨⟨marked, rfl⟩, own⟩ := built
  exact (Marked.function_iff _).2 ⟨own, marked⟩

end

section

variable {source : List Char} {asks : List Statement → Bool}
  (agrees : ∀ nodes : List (Node Rule), (∀ node ∈ nodes, grammar.Derived source node) →
    Gives (buildStatements source nodes) fun body => asksForStrict source nodes = asks body)

set_option linter.unusedSectionVars false
include agrees

mutual

theorem buildExpression_stamps (strict : Bool) (node : Node Rule)
    (derived : grammar.Derived source node) :
    Stamps asks strict (buildExpression source node) (Marked.expression asks strict) := by
  have inside := derived.children
  unfold buildExpression
  split
  · exact .pure trivial
  · exact .pure trivial
  next span value => exact (literalValue_stamps value).bind fun _ _ => .pure trivial
  next span children =>
    refine (buildExpressions_stamps strict children inside).bind fun parts marked => ?_
    split
    · exact .fail _ _
    · exact .pure marked.1
    · exact .pure marked
  · exact buildExpression_stamps strict _ (inside _ List.mem_cons_self)
  next span target operator value =>
    refine (buildExpression_stamps strict target (inside _ (by simp))).bind fun _ first => ?_
    refine (require_stamps operator _).bind fun _ _ => ?_
    refine (buildExpression_stamps strict value (inside _ (by simp))).bind fun _ second => ?_
    exact .pure (And.intro first second)
  · exact buildExpression_stamps strict _ (inside _ List.mem_cons_self)
  next span test consequent alternate =>
    refine (buildExpression_stamps strict test (inside _ (by simp))).bind fun _ first => ?_
    refine (buildExpression_stamps strict consequent (inside _ (by simp))).bind fun _ second => ?_
    refine (buildExpression_stamps strict alternate (inside _ (by simp))).bind fun _ third => ?_
    exact .pure (And.intro first (And.intro second third))
  next first rest =>
    obtain ⟨front, others⟩ := List.forall_mem_cons.1 inside
    exact (buildExpression_stamps strict first front).bind fun e marked =>
      buildLogical_stamps strict .or e marked rest others
  next first rest =>
    obtain ⟨front, others⟩ := List.forall_mem_cons.1 inside
    exact (buildExpression_stamps strict first front).bind fun e marked =>
      buildLogical_stamps strict .and e marked rest others
  next first rest =>
    obtain ⟨front, others⟩ := List.forall_mem_cons.1 inside
    exact (buildExpression_stamps strict first front).bind fun e marked =>
      buildBinary_stamps strict e marked rest others
  · exact buildExpression_stamps strict _ (inside _ List.mem_cons_self)
  next span operator argument =>
    refine (buildExpression_stamps strict argument (inside _ (by simp))).bind fun _ marked => ?_
    split
    · exact .pure marked
    · exact (require_stamps operator _).bind fun _ _ => .pure marked
  · exact buildExpression_stamps strict _ (inside _ List.mem_cons_self)
  next span argument operator =>
    refine (buildExpression_stamps strict argument (inside _ (by simp))).bind fun _ marked => ?_
    exact (require_stamps operator _).bind fun _ _ => .pure marked
  next first tails =>
    obtain ⟨front, others⟩ := List.forall_mem_cons.1 inside
    exact (buildExpression_stamps strict first front).bind fun e marked =>
      buildTails_stamps strict e marked tails others
  next first tails =>
    obtain ⟨front, others⟩ := List.forall_mem_cons.1 inside
    exact (buildExpression_stamps strict first front).bind fun e marked =>
      buildTails_stamps strict e marked tails others
  next span callee argumentsSpan arguments =>
    have behind := (inside (.branch .arguments argumentsSpan arguments) (by simp)).children
    refine (buildExpression_stamps strict callee (inside _ (by simp))).bind fun _ first => ?_
    refine (buildExpressions_stamps strict arguments behind).bind fun _ second => ?_
    exact .pure (And.intro first second)
  next span callee =>
    refine (buildExpression_stamps strict callee (inside _ (by simp))).bind fun _ marked => ?_
    exact .pure (And.intro marked trivial)
  · exact buildExpression_stamps strict _ (inside _ List.mem_cons_self)
  next span slots =>
    exact (buildSlots_stamps strict slots inside).bind fun _ marked => .pure marked
  next span properties =>
    exact (buildProperties_stamps strict properties inside).bind fun _ marked => .pure marked
  next span children =>
    exact (buildFunction_stamps strict span none [] children inside).bind
      fun _ marked => .pure marked
  · exact .fail _ _
termination_by sizeOf node
decreasing_by
  all_goals
    subst_vars
    simp only [Node.branch.sizeOf_spec, List.cons.sizeOf_spec]
    omega

theorem buildExpressions_stamps (strict : Bool) (nodes : List (Node Rule))
    (derived : ∀ node ∈ nodes, grammar.Derived source node) :
    Stamps asks strict (buildExpressions source nodes) (Marked.expressions asks strict) := by
  unfold buildExpressions
  split
  · exact .pure trivial
  next node rest =>
    obtain ⟨front, others⟩ := List.forall_mem_cons.1 derived
    refine (buildExpression_stamps strict node front).bind fun _ first => ?_
    refine (buildExpressions_stamps strict rest others).bind fun _ later => ?_
    exact .pure (And.intro first later)
termination_by sizeOf nodes
decreasing_by
  all_goals
    subst_vars
    simp only [List.cons.sizeOf_spec]
    omega

theorem buildSlots_stamps (strict : Bool) (nodes : List (Node Rule))
    (derived : ∀ node ∈ nodes, grammar.Derived source node) :
    Stamps asks strict (buildSlots source nodes) (Marked.slots asks strict) := by
  unfold buildSlots
  split
  · exact .pure trivial
  · exact .pure trivial
  next rest _ =>
    obtain ⟨-, others⟩ := List.forall_mem_cons.1 derived
    refine (buildSlots_stamps strict rest others).bind fun _ later => ?_
    exact .pure (And.intro trivial later)
  next element rest =>
    obtain ⟨front, others⟩ := List.forall_mem_cons.1 derived
    refine (buildExpression_stamps strict element (front.children _ (by simp))).bind
      fun _ first => ?_
    refine (buildSlots_stamps strict rest others).bind fun _ later => ?_
    exact .pure (And.intro first later)
  · exact .fail _ _
termination_by sizeOf nodes
decreasing_by
  all_goals
    subst_vars
    simp only [Node.branch.sizeOf_spec, List.cons.sizeOf_spec]
    omega

theorem buildBinary_stamps (strict : Bool) (left : Expression)
    (marked : Marked.expression asks strict left) (nodes : List (Node Rule))
    (derived : ∀ node ∈ nodes, grammar.Derived source node) :
    Stamps asks strict (buildBinary source left nodes) (Marked.expression asks strict) := by
  unfold buildBinary
  split
  · exact .pure marked
  · exact .fail _ _
  next operator right rest =>
    obtain ⟨-, behind⟩ := List.forall_mem_cons.1 derived
    obtain ⟨front, others⟩ := List.forall_mem_cons.1 behind
    refine (require_stamps operator _).bind fun kind _ => ?_
    refine (buildExpression_stamps strict right front).bind fun _ second => ?_
    refine buildBinary_stamps strict _ ?_ rest others
    exact And.intro marked second
termination_by sizeOf nodes
decreasing_by
  all_goals
    subst_vars
    simp only [List.cons.sizeOf_spec]
    omega

theorem buildLogical_stamps (strict : Bool) (operator : LogicalOperator) (left : Expression)
    (marked : Marked.expression asks strict left) (nodes : List (Node Rule))
    (derived : ∀ node ∈ nodes, grammar.Derived source node) :
    Stamps asks strict (buildLogical source operator left nodes)
      (Marked.expression asks strict) := by
  unfold buildLogical
  split
  · exact .pure marked
  next right rest =>
    obtain ⟨front, others⟩ := List.forall_mem_cons.1 derived
    refine (buildExpression_stamps strict right front).bind fun _ second => ?_
    refine buildLogical_stamps strict operator _ ?_ rest others
    exact And.intro marked second
termination_by sizeOf nodes
decreasing_by
  all_goals
    subst_vars
    simp only [List.cons.sizeOf_spec]
    omega

theorem buildTails_stamps (strict : Bool) (object : Expression)
    (marked : Marked.expression asks strict object) (nodes : List (Node Rule))
    (derived : ∀ node ∈ nodes, grammar.Derived source node) :
    Stamps asks strict (buildTails source object nodes) (Marked.expression asks strict) := by
  unfold buildTails
  split
  · exact .pure marked
  next span arguments rest =>
    obtain ⟨front, others⟩ := List.forall_mem_cons.1 derived
    refine (buildExpressions_stamps strict arguments front.children).bind fun _ second => ?_
    refine buildTails_stamps strict _ ?_ rest others
    exact And.intro marked second
  next span name rest =>
    obtain ⟨-, others⟩ := List.forall_mem_cons.1 derived
    refine buildTails_stamps strict _ ?_ rest others
    exact marked
  next span index rest =>
    obtain ⟨front, others⟩ := List.forall_mem_cons.1 derived
    refine (buildExpression_stamps strict index (front.children _ (by simp))).bind
      fun _ second => ?_
    refine buildTails_stamps strict _ ?_ rest others
    exact And.intro marked second
  · exact .fail _ _
termination_by sizeOf nodes
decreasing_by
  all_goals
    subst_vars
    simp only [Node.branch.sizeOf_spec, List.cons.sizeOf_spec]
    omega

theorem buildProperties_stamps (strict : Bool) (nodes : List (Node Rule))
    (derived : ∀ node ∈ nodes, grammar.Derived source node) :
    Stamps asks strict (buildProperties source nodes) (Marked.properties asks strict) := by
  unfold buildProperties
  split
  · exact .pure trivial
  next span key value rest =>
    obtain ⟨front, others⟩ := List.forall_mem_cons.1 derived
    refine (propertyKey_stamps key).bind fun _ _ => ?_
    refine (buildExpression_stamps strict value (front.children _ (by simp))).bind
      fun _ first => ?_
    refine (buildProperties_stamps strict rest others).bind fun _ later => ?_
    exact .pure (And.intro first later)
  next span key bodySpan body rest =>
    obtain ⟨front, others⟩ := List.forall_mem_cons.1 derived
    have behind := (front.children (.branch .functionBody bodySpan body)
      (by simp)).children
    refine (propertyKey_stamps key).bind fun _ _ => ?_
    refine (buildCode_stamps _ _ _ _ (agrees body behind)
      (buildStatements_stamps _ body behind)).bind fun _ first => ?_
    refine (buildProperties_stamps strict rest others).bind fun _ later => ?_
    exact .pure (And.intro first later)
  next span key parameter bodySpan body rest =>
    obtain ⟨front, others⟩ := List.forall_mem_cons.1 derived
    have behind := (front.children (.branch .functionBody bodySpan body)
      (by simp)).children
    refine (propertyKey_stamps key).bind fun _ _ => ?_
    refine (buildCode_stamps _ _ _ _ (agrees body behind)
      (buildStatements_stamps _ body behind)).bind fun _ first => ?_
    refine (buildProperties_stamps strict rest others).bind fun _ later => ?_
    exact .pure (And.intro first later)
  · exact .fail _ _
termination_by sizeOf nodes
decreasing_by
  all_goals
    subst_vars
    simp only [Node.branch.sizeOf_spec, List.cons.sizeOf_spec]
    omega

theorem buildFunction_stamps (strict : Bool) (span : Span) (id : Option Identifier)
    (parameters : List Identifier) (nodes : List (Node Rule))
    (derived : ∀ node ∈ nodes, grammar.Derived source node) :
    Stamps asks strict (buildFunction source span id parameters nodes)
      (Marked.function asks strict) := by
  unfold buildFunction
  split
  next rest =>
    obtain ⟨-, others⟩ := List.forall_mem_cons.1 derived
    exact buildFunction_stamps strict span _ parameters rest others
  next rest =>
    obtain ⟨-, others⟩ := List.forall_mem_cons.1 derived
    exact buildFunction_stamps strict span id _ rest others
  next bodySpan body _ =>
    obtain ⟨front, -⟩ := List.forall_mem_cons.1 derived
    exact buildCode_stamps _ _ _ _ (agrees body front.children)
      (buildStatements_stamps _ body front.children)
  · exact .fail _ _
  · exact .fail _ _
termination_by sizeOf nodes
decreasing_by
  all_goals
    subst_vars
    simp only [Node.branch.sizeOf_spec, List.cons.sizeOf_spec]
    omega

theorem buildStatement_stamps (strict : Bool) (node : Node Rule)
    (derived : grammar.Derived source node) :
    Stamps asks strict (buildStatement source node) (Marked.statement asks strict) := by
  have inside := derived.children
  unfold buildStatement
  split
  next span children =>
    refine (buildFunction_stamps strict span none [] children inside).bind fun code marked => ?_
    exact (Stamps.declareFunction marked).bind fun _ _ => .pure marked
  next span kind declarators =>
    obtain ⟨-, others⟩ := List.forall_mem_cons.1 inside
    refine (require_stamps kind _).bind fun kind' _ => ?_
    exact (buildDeclarators_stamps strict kind' declarators others).bind
      fun _ marked => .pure marked
  next span declarators =>
    exact (buildDeclarators_stamps strict .var declarators inside).bind
      fun _ marked => .pure marked
  next span body =>
    exact (buildBlock_stamps span (buildStatements_stamps strict body inside)).bind
      fun _ marked => .pure marked
  · exact .pure trivial
  · exact .pure trivial
  next span value =>
    exact (buildExpression_stamps strict value (inside _ (by simp))).bind
      fun _ marked => .pure marked
  next span test consequent =>
    refine (buildExpression_stamps strict test (inside _ (by simp))).bind fun _ first => ?_
    refine (buildStatement_stamps strict consequent (inside _ (by simp))).bind fun _ second => ?_
    exact .pure (And.intro first (And.intro second trivial))
  next span test consequent alternate =>
    refine (buildExpression_stamps strict test (inside _ (by simp))).bind fun _ first => ?_
    refine (buildStatement_stamps strict consequent (inside _ (by simp))).bind fun _ second => ?_
    refine (buildStatement_stamps strict alternate (inside _ (by simp))).bind fun _ third => ?_
    exact .pure (And.intro first (And.intro second third))
  next span test body =>
    refine (buildExpression_stamps strict test (inside _ (by simp))).bind fun _ first => ?_
    refine (buildStatement_stamps strict body (inside _ (by simp))).bind fun _ second => ?_
    exact .pure (And.intro first second)
  next span body test =>
    refine (buildStatement_stamps strict body (inside _ (by simp))).bind fun _ second => ?_
    refine (buildExpression_stamps strict test (inside _ (by simp))).bind fun _ first => ?_
    exact .pure (And.intro first second)
  next span children =>
    -- The scope of the loop is only known when all of its parts are built.
    refine (Stamps.inBlock (buildFor_stamps strict span none none none trivial trivial trivial
      children inside)).bind fun (loop, scope) built => .pure ?_
    exact built.1 scope built.2
  next span kind name right body =>
    refine (require_stamps kind _).bind fun kind' _ => ?_
    have parts : Stamps asks strict (do
        Build.declare (identifierOf name) (.declared kind')
        let right ← buildExpression source right
        let body ← buildStatement source body
        pure (right, body)) fun (right, body) =>
          Marked.expression asks strict right ∧ Marked.statement asks strict body := by
      refine (Stamps.declare _ _).bind fun _ _ => ?_
      refine (buildExpression_stamps strict right (inside _ (by simp))).bind fun _ first => ?_
      refine (buildStatement_stamps strict body (inside _ (by simp))).bind fun _ second => ?_
      exact .pure ⟨first, second⟩
    refine (Stamps.inBlock parts).bind fun ((right, body), scope) built => .pure ?_
    obtain ⟨⟨first, second⟩, own⟩ := built
    exact And.intro trivial (And.intro first (And.intro second own))
  next span target right body _ =>
    have parts : Stamps asks strict (do
        let target ← buildExpression source target
        let right ← buildExpression source right
        let body ← buildStatement source body
        pure (target, right, body)) fun (target, right, body) =>
          Marked.expression asks strict target ∧ Marked.expression asks strict right ∧
            Marked.statement asks strict body := by
      refine (buildExpression_stamps strict target (inside _ (by simp))).bind fun _ first => ?_
      refine (buildExpression_stamps strict right (inside _ (by simp))).bind fun _ second => ?_
      refine (buildStatement_stamps strict body (inside _ (by simp))).bind fun _ third => ?_
      exact .pure ⟨first, second, third⟩
    refine (Stamps.inBlock parts).bind fun ((target, right, body), scope) built => .pure ?_
    obtain ⟨⟨first, second, third⟩, own⟩ := built
    exact And.intro first (And.intro second (And.intro third own))
  · exact .pure trivial
  · exact .pure trivial
  · exact .pure trivial
  next span argument =>
    exact (buildExpression_stamps strict argument (inside _ (by simp))).bind
      fun _ marked => .pure marked
  next span argument =>
    exact (buildExpression_stamps strict argument (inside _ (by simp))).bind
      fun _ marked => .pure marked
  next span discriminant clauses =>
    obtain ⟨front, others⟩ := List.forall_mem_cons.1 inside
    refine (buildExpression_stamps strict discriminant front).bind fun _ first => ?_
    refine (Stamps.inBlock (buildClauses_stamps strict false clauses others)).bind ?_
    exact fun (cases, scope) built => .pure (And.intro first (And.intro built.2 built.1))
  next span blockSpan body clauses =>
    obtain ⟨front, others⟩ := List.forall_mem_cons.1 inside
    refine (buildBlock_stamps blockSpan (buildStatements_stamps strict body front.children)).bind
      fun block first => ?_
    refine (buildHandlers_stamps strict none none trivial trivial clauses others).bind ?_
    rintro ⟨handler, finalizer⟩ later
    simp only
    split
    · exact .fail _ _
    · exact .pure (And.intro first later)
  next span label body =>
    exact (buildStatement_stamps strict body (inside _ (by simp))).bind
      fun _ marked => .pure marked
  · exact .fail _ _
termination_by sizeOf node
decreasing_by
  all_goals
    subst_vars
    simp only [Node.branch.sizeOf_spec, List.cons.sizeOf_spec]
    omega

theorem buildStatements_stamps (strict : Bool) (nodes : List (Node Rule))
    (derived : ∀ node ∈ nodes, grammar.Derived source node) :
    Stamps asks strict (buildStatements source nodes) (Marked.statements asks strict) := by
  unfold buildStatements
  split
  · exact .pure trivial
  next node rest =>
    obtain ⟨front, others⟩ := List.forall_mem_cons.1 derived
    refine (buildStatement_stamps strict node front).bind fun _ first => ?_
    refine (buildStatements_stamps strict rest others).bind fun _ later => ?_
    exact .pure (And.intro first later)
termination_by sizeOf nodes
decreasing_by
  all_goals
    subst_vars
    simp only [List.cons.sizeOf_spec]
    omega

theorem buildDeclarators_stamps (strict : Bool) (kind : DeclarationKind) (nodes : List (Node Rule))
    (derived : ∀ node ∈ nodes, grammar.Derived source node) :
    Stamps asks strict (buildDeclarators source kind nodes) (Marked.declarators asks strict) := by
  unfold buildDeclarators
  split
  · exact .pure trivial
  next span name rest =>
    obtain ⟨-, others⟩ := List.forall_mem_cons.1 derived
    refine (Stamps.declare _ _).bind fun _ _ => ?_
    refine (buildDeclarators_stamps strict kind rest others).bind fun _ later => ?_
    exact .pure (And.intro trivial later)
  next span name init rest =>
    obtain ⟨front, others⟩ := List.forall_mem_cons.1 derived
    refine (Stamps.declare _ _).bind fun _ _ => ?_
    refine (buildExpression_stamps strict init (front.children _ (by simp))).bind
      fun _ first => ?_
    refine (buildDeclarators_stamps strict kind rest others).bind fun _ later => ?_
    exact .pure (And.intro first later)
  · exact .fail _ _
termination_by sizeOf nodes
decreasing_by
  all_goals
    subst_vars
    simp only [Node.branch.sizeOf_spec, List.cons.sizeOf_spec]
    omega

theorem buildFor_stamps (strict : Bool) (span : Span) (init : Option ForInit)
    (test update : Option Expression) (initMarked : Marked.forInit asks strict init)
    (testMarked : Marked.optional asks strict test)
    (updateMarked : Marked.optional asks strict update) (nodes : List (Node Rule))
    (derived : ∀ node ∈ nodes, grammar.Derived source node) :
    Stamps asks strict (buildFor source span init test update nodes) fun loop =>
      ∀ scope, Marked.scope asks strict scope → Marked.statement asks strict (loop scope) := by
  unfold buildFor
  split
  next declarationSpan kind declarators rest =>
    obtain ⟨front, others⟩ := List.forall_mem_cons.1 derived
    have head := front.children (.branch .forDeclaration declarationSpan (kind :: declarators))
      (by simp)
    obtain ⟨-, names⟩ := List.forall_mem_cons.1 head.children
    refine (require_stamps kind _).bind fun kind' _ => ?_
    refine (buildDeclarators_stamps strict kind' declarators names).bind fun parts marked => ?_
    exact buildFor_stamps strict span _ test update (by exact marked) testMarked updateMarked rest
      others
  next value rest _ =>
    obtain ⟨front, others⟩ := List.forall_mem_cons.1 derived
    refine (buildExpression_stamps strict value (front.children _ (by simp))).bind
      fun _ marked => ?_
    exact buildFor_stamps strict span _ test update (by exact marked) testMarked updateMarked rest
      others
  next value rest =>
    obtain ⟨front, others⟩ := List.forall_mem_cons.1 derived
    refine (buildExpression_stamps strict value (front.children _ (by simp))).bind
      fun _ marked => ?_
    exact buildFor_stamps strict span init _ update initMarked (by exact marked) updateMarked rest
      others
  next value rest =>
    obtain ⟨front, others⟩ := List.forall_mem_cons.1 derived
    refine (buildExpression_stamps strict value (front.children _ (by simp))).bind
      fun _ marked => ?_
    exact buildFor_stamps strict span init test _ initMarked testMarked (by exact marked) rest
      others
  next body _ _ _ _ =>
    refine (buildStatement_stamps strict body (derived _ List.mem_cons_self)).bind
      fun _ marked => .pure ?_
    intro scope own
    exact And.intro initMarked (And.intro testMarked (And.intro updateMarked
      (And.intro marked own)))
  · exact .fail _ _
  · exact .fail _ _
termination_by sizeOf nodes
decreasing_by
  all_goals
    subst_vars
    simp only [Node.branch.sizeOf_spec, List.cons.sizeOf_spec]
    omega

theorem buildClauses_stamps (strict hasDefault : Bool) (nodes : List (Node Rule))
    (derived : ∀ node ∈ nodes, grammar.Derived source node) :
    Stamps asks strict (buildClauses source hasDefault nodes) (Marked.cases asks strict) := by
  unfold buildClauses
  split
  · exact .pure trivial
  next span headSpan test body rest =>
    obtain ⟨front, others⟩ := List.forall_mem_cons.1 derived
    obtain ⟨head, inside⟩ := List.forall_mem_cons.1 front.children
    refine (buildExpression_stamps strict test (head.children _ (by simp))).bind
      fun _ first => ?_
    refine (buildStatements_stamps strict body inside).bind fun _ second => ?_
    refine (buildClauses_stamps strict hasDefault rest others).bind fun _ later => ?_
    exact .pure (And.intro first (And.intro second later))
  next span headSpan _ body rest =>
    split
    · exact .fail _ _
    · obtain ⟨front, others⟩ := List.forall_mem_cons.1 derived
      obtain ⟨-, inside⟩ := List.forall_mem_cons.1 front.children
      refine (buildStatements_stamps strict body inside).bind fun _ second => ?_
      refine (buildClauses_stamps strict true rest others).bind fun _ later => ?_
      exact .pure (And.intro trivial (And.intro second later))
  · exact .fail _ _
termination_by sizeOf nodes
decreasing_by
  all_goals
    subst_vars
    simp only [Node.branch.sizeOf_spec, List.cons.sizeOf_spec]
    omega

theorem buildHandlers_stamps (strict : Bool) (handler : Option Handler) (finalizer : Option Block)
    (handlerMarked : Marked.handler asks strict handler)
    (finalizerMarked : Marked.optionalBlock asks strict finalizer) (nodes : List (Node Rule))
    (derived : ∀ node ∈ nodes, grammar.Derived source node) :
    Stamps asks strict (buildHandlers source handler finalizer nodes) fun (handler, finalizer) =>
      Marked.handler asks strict handler ∧ Marked.optionalBlock asks strict finalizer := by
  unfold buildHandlers
  split
  · exact .pure (And.intro handlerMarked finalizerMarked)
  next span parameter blockSpan body rest =>
    obtain ⟨front, others⟩ := List.forall_mem_cons.1 derived
    have inside := (front.children (.branch .block blockSpan body)
      (by simp)).children
    refine (buildBlock_stamps blockSpan (buildStatements_stamps strict body inside)).bind
      fun _ marked => ?_
    exact buildHandlers_stamps strict _ finalizer (by exact marked) finalizerMarked rest others
  next blockSpan body rest =>
    obtain ⟨front, others⟩ := List.forall_mem_cons.1 derived
    have inside := (front.children (.branch .block blockSpan body)
      (by simp)).children
    refine (buildBlock_stamps blockSpan (buildStatements_stamps strict body inside)).bind
      fun _ marked => ?_
    exact buildHandlers_stamps strict handler _ handlerMarked (by exact marked) rest others
  · exact .fail _ _
termination_by sizeOf nodes
decreasing_by
  all_goals
    subst_vars
    simp only [Node.branch.sizeOf_spec, List.cons.sizeOf_spec]
    omega

end

/-- Every scope of a script that was built has the flag that follows from the bodies around it. -/
theorem buildScript_marked (forceStrict : Bool) {node : Node Rule}
    (derived : grammar.Derived source node) :
    Stamps asks false (buildScript source forceStrict node) (Marked.Script asks forceStrict) := by
  have asked := agrees node.children derived.children
  have inside := fun strict => buildStatements_stamps agrees strict node.children derived.children
  -- No code surrounds a script, so that its flag is forced or its own.
  refine (Stamps.inFunction ((inside _).also asked)).bind fun (body, scope) built => .pure ?_
  obtain ⟨⟨marked, asked⟩, own⟩ := built
  rw [asked] at marked own
  exact ⟨own, marked⟩

end

/-! ## The flags of a script -/

/-- Whether a body asks for strict mode: it has a Use Strict Directive, and its directives up to
there are plain. -/
def asksPlainly (source : List Char) (body : List Statement) : Bool :=
  hasUseStrict source body && hasPlainPrologue source body

/-- Every scope of a script that is read has the flag that follows from the bodies around it. -/
theorem tree_marked {source : List Char} {forceStrict : Bool} {script : ScriptTree}
    (read : tree source forceStrict = .ok script) :
    Marked.Script (asksPlainly source) forceStrict script := by
  obtain ⟨node, t, parsed, built⟩ := exists_built read
  have derived := derived_of_concrete parsed
  have agrees : ∀ nodes : List (Node Rule), (∀ node ∈ nodes, grammar.Derived source node) →
      Gives (buildStatements source nodes) fun body =>
        asksForStrict source nodes = asksPlainly source body :=
    fun nodes each t t' body run => asksForStrict_eq each run
  have nothing : Recorded (asksPlainly source) Tracker.empty := List.forall_mem_nil _
  exact (buildScript_marked agrees forceStrict derived _ _ _ rfl nothing built).2.2

/-- In the tree of a script every scope is strict if and only if that is forced, or the body of the
script or of a function around the scope has a Use Strict Directive in its prologue, where no
directive up to it has its own quote in it or is followed by anything but white space and a
semicolon. -/
theorem strict_iff_directive {source : List Char} {forceStrict : Bool} {script : ScriptTree}
    (read : tree source forceStrict = .ok script) :
    Marked.Script (asksPlainly source) forceStrict script := tree_marked read

/-- A script with a function that asks for strict mode behind another directive. -/
theorem strict_iff_directive_function :
    let source := "(function () \x7b 'one' \n \"use strict\" ; function f() \x7b\x7d \x7d)".toList
    ∃ script, tree source false = .ok script ∧ Marked.Script (asksPlainly source) false script ∧
      script.scope.strict = false := by
  extract_lets source
  obtain ⟨script, read, flag⟩ := exists_tree (f := fun script => script.scope.strict)
    (show (tree source false).toOption.map _ = some false by decide +kernel)
  exact ⟨script, read, strict_iff_directive read, flag⟩

/-- With a comment in front of its semicolon, a Use Strict Directive is missed. -/
theorem directive_missed_before_comment :
    let source := "'use strict' /* a directive */;".toList
    ∃ script, tree source false = .ok script ∧ hasUseStrict source script.body = true ∧
      ¬ Marked.Script (hasUseStrict source) false script := by
  extract_lets source
  obtain ⟨script, read, found⟩ := exists_tree
    (f := fun script => (hasUseStrict source script.body, script.scope.strict))
    (show (tree source false).toOption.map _ = some (true, false) by decide +kernel)
  obtain ⟨directive, flag⟩ := Prod.mk.inj found
  refine ⟨script, read, directive, fun marked => ?_⟩
  have strict := ((Marked.scope_iff _).1 marked.own).1
  rw [directive, flag] at strict
  cases strict

end Script

end ScriptEngine
