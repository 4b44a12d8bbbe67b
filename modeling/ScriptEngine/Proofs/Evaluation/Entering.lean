import ScriptEngine.Proofs.Evaluation.Globals
import ScriptEngine.Proofs.Evaluation.Waiting
import ScriptEngine.Proofs.Tree.Names

/-!
# Entering scopes in order

On entering a scope its `let` and `const` names begin to wait, and the code inside may give each of
them its first value. `Due` says so of a place, and `Initializes` says of an evaluation that it
keeps names in order where some names are due. What comes first finds the names of what comes
after it among those that are kept waiting, so evaluations in a row are put together by one rule
(`Initializes.bind`).

What happens on entering a block, a function or a script leaves the `let` and `const` names of its
scope due in the environment for its statements. A block initializes no names from outside, because
its own are in an environment of their own (`inBlock_initializes`).
-/
namespace ScriptEngine

open Evaluation Operation Contract

/-! ### Names that are due -/

/-- Some names wait in an environment, and may get their first values there. -/
structure Due (kept : Names) (past : List Event) (env : EnvironmentId)
    (names : List LexicalName) : Prop where
  distinct : (names.map LexicalName.name).Nodup
  waiting : ∀ l ∈ names, Waits past env l.name
  free : ∀ l ∈ names, ¬ kept env l.name

/-- Some names of an environment are kept waiting too. -/
def Names.and (kept : Names) (env : EnvironmentId) (names : List LexicalName) : Names :=
  fun id key => kept id key ∨ id = env ∧ key ∈ names.map LexicalName.name

theorem Names.and_refines (kept : Names) (env : EnvironmentId) (names : List LexicalName) :
    (ordered (kept.and env names)).Refines (ordered kept) := ordered_refines .inl

namespace Due

variable {kept : Names} {past : List Event} {env : EnvironmentId} {names more : List LexicalName}

theorem nil : Due kept past env [] := ⟨List.nodup_nil, nofun, nofun⟩

theorem sublist (due : Due kept past env more) (part : names.Sublist more) :
    Due kept past env names where
  distinct := due.distinct.sublist (part.map _)
  waiting l mem := due.waiting l (part.mem mem)
  free l mem := due.free l (part.mem mem)

/-- The first of some names are due while the others are kept waiting. -/
theorem first (due : Due kept past env (names ++ more)) :
    Due (kept.and env more) past env names where
  distinct := (due.sublist (List.sublist_append_left names more)).distinct
  waiting l mem := due.waiting l (List.mem_append_left _ mem)
  free l mem := by
    rintro (isKept | ⟨-, later⟩)
    · exact due.free l (List.mem_append_left _ mem) isKept
    · have distinct := due.distinct
      rw [List.map_append, List.nodup_append] at distinct
      exact distinct.2.2 _ (List.mem_map_of_mem mem) _ later rfl

/-- Names that are due can be kept waiting. -/
theorem keep (due : Due kept past env names) {s : Store} (store : (ordered kept).store past s) :
    (ordered (kept.and env names)).store past s := by
  refine ⟨store.1, ?_⟩
  rintro _ _ (isKept | ⟨rfl, mem⟩)
  · exact store.2 isKept
  · obtain ⟨l, listed, rfl⟩ := List.mem_map.1 mem
    exact due.waiting l listed

/-- Names that have been kept waiting are due afterwards. -/
theorem later (due : Due kept past env names) {past' : List Event} {s : Store}
    (store : (ordered (kept.and env names)).store past' s) : Due kept past' env names where
  distinct := due.distinct
  waiting _ mem := store.2 (.inr ⟨rfl, List.mem_map_of_mem mem⟩)
  free := due.free

/-- Evaluations that can do without the names leave them due. -/
theorem stays {α : Type} {x : Evaluation α} (safe : ∀ kept, (ordered kept).anywhere.Safe x)
    {m : Machine} (store : (ordered kept).store past m.store) (due : Due kept past env names) :
    (ordered kept).Goes past m x fun _ past' _ => Due kept past' env names := by
  have goes := (safe (kept.and env names) past m (due.keep store) trivial).refines anywhere_refines
  refine (goes.weaken fun _ past' m' _ _ store' _ => ?_).refines (kept.and_refines env names)
  exact due.later store'

end Due

/-- The evaluation keeps names in order wherever some names are due. -/
structure Initializes {α : Type} (x : Evaluation α) (names : List LexicalName) : Prop where
  goes : ∀ {kept : Names} {past : List Event} {m : Machine}, (ordered kept).store past m.store →
    (ordered kept).control m.control → Due kept past m.control.lexical names →
    (ordered kept).Goes past m x fun _ _ _ => True

namespace Initializes

variable {α β : Type} {x : Evaluation α} {f : α → Evaluation β} {names more : List LexicalName}

theorem of_safe (safe : ∀ kept, (ordered kept).Safe x) : Initializes x names :=
  ⟨fun {kept past m} store control _ => safe kept past m store control⟩

/-- What initializes no names from outside is safe, whatever names are kept waiting. -/
theorem safe (h : Initializes x []) (kept : Names) : (ordered kept).Safe x :=
  fun _ _ store control => h.goes store control .nil

theorem sublist (h : Initializes x names) (part : names.Sublist more) : Initializes x more :=
  ⟨fun store control due => h.goes store control (due.sublist part)⟩

theorem pure (a : α) : Initializes (Pure.pure a) names := of_safe fun _ => .pure trivial

/-- The names of what comes after are kept waiting by what comes first. -/
theorem bind (first : Initializes x names) (second : ∀ a, Initializes (f a) more) :
    Initializes (x >>= f) (names ++ more) := by
  refine ⟨fun {kept past m} store control due => ?_⟩
  have others := due.sublist (List.sublist_append_right names more)
  -- The first part runs under the stronger contract, so at its end the other names still wait.
  have goes := first.goes (others.keep store) control due.first
  refine Goes.bind (Q := fun _ past' m' => Due kept past' m.control.lexical more)
    ((goes.weaken fun _ past' m' _ _ store' _ => others.later store').refines
      (kept.and_refines _ more)) fun a past' m' _ returns store' due' => ?_
  exact (second a).goes store' (returns ▸ control) (returns ▸ due')

theorem nil_bind (first : Initializes x []) (second : ∀ a, Initializes (f a) more) :
    Initializes (x >>= f) more := first.bind second

theorem bind_nil (first : Initializes x names) (second : ∀ a, Initializes (f a) []) :
    Initializes (x >>= f) names := List.append_nil names ▸ first.bind second

end Initializes

/-! ### Scopes -/

namespace Evaluate

variable {kept : Names} {past : List Event} {m : Machine} {env : EnvironmentId}

/-- Names that differ and are not there yet are declared and wait, and are none of those that are
kept waiting. -/
theorem declareLexicalNames_goes (names : List LexicalName)
    (distinct : (names.map LexicalName.name).Nodup) (store : (ordered kept).store past m.store)
    (declarative : m.store.Declarative env)
    (absent : ∀ l ∈ names, m.store.binding? env l.name = none) :
    (ordered kept).Goes past m (names.forM (declareLexicalName env)) fun _ past' _ =>
      past' = declarations env names ++ past ∧
        ∀ l ∈ names, Waits past' env l.name ∧ ¬ kept env l.name := by
  induction names generalizing past m with
  | nil => exact .pure store ⟨rfl, nofun⟩
  | cons l rest ih =>
    obtain ⟨different, distinct⟩ := List.nodup_cons.1 distinct
    obtain ⟨first, others⟩ := List.forall_mem_cons.1 absent
    refine ((createLexical_goes store declarative first l.isConst).ran
      (createLexical_run declarative first l.isConst)).bind ?_
    rintro _ _ m₁ reached _ store₁ ⟨⟨rfl, waits, free⟩, -, rfl⟩
    -- Since the names differ, the binding of the first one leaves the others free.
    have absent' : ∀ l' ∈ rest, (m.store.withBinding env l.name
        (lexicalBinding l.isConst)).binding? env l'.name = none := by
      intro l' mem
      have other : l'.name ≠ l.name := fun eq => different (eq ▸ List.mem_map_of_mem mem)
      simpa [declarative.binding?_withBinding, other] using others l' mem
    refine (ih distinct store₁ (reached.declarative declarative) absent').weaken ?_
    rintro _ _ m₂ _ _ _ ⟨rfl, others⟩
    have here := And.intro (waits.declareAll env rest) free
    exact ⟨by simp [declarations], List.forall_mem_cons.2 ⟨here, others⟩⟩

theorem declareLexical_goes {scope : Scope} (distinct : (scope.lexical.map LexicalName.name).Nodup)
    (store : (ordered kept).store past m.store) (declarative : m.store.Declarative env)
    (absent : ∀ l ∈ scope.lexical, m.store.binding? env l.name = none) :
    (ordered kept).Goes past m (declareLexical env scope) fun _ past' _ =>
      Due kept past' env scope.lexical ∧
        past' = declarations env scope.lexical ++ past := by
  refine (declareLexicalNames_goes scope.lexical distinct store declarative absent).weaken ?_
  rintro _ past' _ _ _ _ ⟨same, each⟩
  exact ⟨⟨distinct, fun l mem => (each l mem).1, fun l mem => (each l mem).2⟩, same⟩

/-- Functions of a block whose names have not been declared with `let` or `const` get their values
at once. -/
theorem bindBlockFunctions_goes {functions : List FunctionCode}
    (sound : ∀ code ∈ functions, code.Sound)
    (undeclared : ∀ code ∈ functions, ¬ HasDeclared past env code.name)
    (store : (ordered kept).store past m.store) (declarative : m.store.Declarative env) :
    (ordered kept).Goes past m (functions.forM fun code => do
      let f ← newDeclared code env
      if !(← hasBinding env code.name) then createMutable env code.name false
      setInitialBinding env code.name (.object f)) fun _ past' _ => past' = past := by
  induction functions generalizing m with
  | nil => exact .pure store rfl
  | cons code rest ih =>
    obtain ⟨sound, others⟩ := List.forall_mem_cons.1 sound
    obtain ⟨undeclared, undeclared'⟩ := List.forall_mem_cons.1 undeclared
    refine Goes.bind (Q := fun _ past' _ => past' = past) ?_
      fun _ past' m' reached _ store' same => ?_
    · refine (newFunction_goes ordered_lawful store sound env code.name).bind ?_
      rintro f past m₁ reached₁ _ store₁ ⟨rfl, -⟩
      -- Either branch ends with this step, in a store that is as far or one binding further.
      have initialized : ∀ {m₂ : Machine}, (ordered kept).store past m₂.store →
          m₁.store.Reaches m₂.store → (ordered kept).Goes past m₂
            (setInitialBinding env code.name (.object f)) fun _ past' _ => past' = past :=
        fun store₂ reached₂ => setInitialBinding_goes store₂
          ((reached₁.trans reached₂).declarative declarative) _
          (fun waits => undeclared waits.declared) fun declared => absurd declared undeclared
      refine (Goes.ask (Q := fun bound past' m' => bound = m₁.store.hasBinding env code.name ∧
        past' = past ∧ m' = m₁) store₁ ⟨rfl, rfl, rfl⟩).bind ?_
      rintro bound past m₂ _ _ store₂ ⟨eq, rfl, rfl⟩
      have here := reached₁.declarative declarative
      cases bound with
      | true => exact initialized store₂ (.refl _)
      | false =>
        have absent := here.hasBinding_eq_false_iff.1 eq.symm
        refine (createMutable_goes ordered_lawful store₂ here absent false).bind ?_
        rintro _ past m₃ reached₃ _ store₃ ⟨rfl, -⟩
        exact initialized store₃ reached₃
    · subst same
      exact ih others undeclared' store' (reached.declarative declarative)

/-- What the scope of an accepted block declares can be told apart. -/
structure Distinct (scope : Scope) : Prop where
  lexical : (scope.lexical.map LexicalName.name).Nodup
  functions : ∀ code ∈ scope.functions, code.name ∉ scope.lexical.map LexicalName.name

theorem distinct_of_accepted {context : Check.Context} {isFunction : Bool} {scope : Scope}
    (accepted : Check.declarations context isFunction scope = []) : Distinct scope where
  lexical := Check.nodup_lexical accepted
  functions code mem := by
    intro named
    obtain ⟨l, listed, same⟩ := List.mem_map.1 named
    exact Check.name_ne_of_mem_lexical accepted listed mem same.symm

theorem declareBlock_goes {scope : Scope} (distinct : Distinct scope)
    (sound : ∀ code ∈ scope.functions, code.Sound) (store : (ordered kept).store past m.store)
    (unbound : m.store.Unbound env) :
    (ordered kept).Goes past m (declareBlock env scope) fun _ past' _ =>
      Due kept past' env scope.lexical := by
  refine (declareLexical_goes distinct.lexical store unbound.declarative
    fun l _ => unbound.absent l.name).bind ?_
  rintro _ _ m' reached _ store' ⟨due, rfl⟩
  have undeclared : ∀ code ∈ scope.functions,
      ¬ HasDeclared (declarations env scope.lexical ++ past) env code.name := by
    rintro code mem ⟨isConst, declared⟩
    -- Only the names of the scope have been declared in the new environment.
    rcases List.mem_append.1 declared with declared | before
    · simp only [declarations, List.mem_reverse, List.mem_map, Event.declared.injEq, true_and]
        at declared
      obtain ⟨l, listed, same, -⟩ := declared
      exact distinct.functions code mem (List.mem_map.2 ⟨l, listed, same⟩)
    · exact store.1.not_declared_of_absent (unbound.absent _) ⟨isConst, before⟩
  refine (bindBlockFunctions_goes sound undeclared store'
    (reached.declarative unbound.declarative)).weaken fun _ past' _ _ _ _ same => same ▸ due

theorem lexical_withLexical {c : Control} (running : c.frames ≠ []) (env : EnvironmentId) :
    (c.withLexical env).lexical = env := by
  obtain ⟨frames, depth, limit⟩ := c
  cases frames with
  | nil => exact absurd rfl running
  | cons frame outer => rfl

/-- Code whose names are due in an environment runs there in order. -/
theorem withScope_goes {α : Type} {x : Evaluation α} {names : List LexicalName}
    (inside : Initializes x names) (store : (ordered kept).store past m.store)
    (running : (ordered kept).control m.control) (due : Due kept past env names) :
    (ordered kept).Goes past m (withScope env x) fun _ _ _ => True := by
  refine .bracket store nofun id fun _ => ?_
  refine inside.goes store (ordered_lawful.scopeEntered env running) ?_
  rw [show (Bracket.entered _ m).control = m.control.withLexical env from rfl,
    lexical_withLexical running]
  exact due

/-- A block has an environment of its own for its names. -/
theorem inBlock_initializes {α : Type} {x : Evaluation α} {scope : Scope}
    (distinct : Distinct scope) (sound : ∀ code ∈ scope.functions, code.Sound)
    (inside : Initializes x scope.lexical) : Initializes (inBlock scope x) [] := by
  refine ⟨fun {kept past m} store control _ => ?_⟩
  unfold inBlock
  split
  · refine (openScopeHere_goes ordered_lawful store).bind
      fun env past' m₁ _ returns₁ store₁ opened => ?_
    refine (declareBlock_goes distinct sound store₁ opened.2).bind
      fun _ past'' m₂ _ returns₂ store₂ due => ?_
    exact withScope_goes inside store₂ (by rwa [returns₂, returns₁]) due
  next nothing =>
    -- A block without declarations shares the environment around it.
    have none : scope.lexical = [] := by
      simp only [Scope.hasLexicalDeclarations, Bool.or_eq_true, not_or, Bool.not_eq_true,
        Bool.not_eq_false', List.isEmpty_iff] at nothing
      exact nothing.1
    exact inside.goes store control (none ▸ .nil)

/-! ### Functions and scripts -/

theorem lexicalScope_goes {scope : Scope} (distinct : Distinct scope)
    (store : (ordered kept).store past m.store) (varScope : EnvironmentId) :
    (ordered kept).Goes past m (lexicalScope varScope scope) fun env past' _ =>
      Due kept past' env scope.lexical := by
  unfold lexicalScope
  split
  next none =>
    rw [List.isEmpty_iff.1 none]
    exact .pure store .nil
  · refine (ordered_lawful.opened store _).bind fun env past' m₁ _ _ store₁ opened => ?_
    refine (declareLexical_goes distinct.lexical store₁ opened.2.declarative
      fun l _ => opened.2.absent l.name).bind fun _ past'' m₂ _ _ store₂ declared => ?_
    exact .pure store₂ declared.1

theorem declareInside_goes {scope : Scope} (distinct : Distinct scope)
    (sound : ∀ code ∈ scope.functions, code.Sound) (store : (ordered kept).store past m.store)
    (varScope : EnvironmentId) (deletable : Bool) :
    (ordered kept).Goes past m (declareInside varScope deletable scope) fun env past' _ =>
      Due kept past' env scope.lexical := by
  refine (lexicalScope_goes distinct store varScope).bind fun env past' m₁ _ _ store₁ due => ?_
  -- Binding functions initializes none of the names that are due.
  refine (due.stays (fun kept => declareFunctions_safe ordered_lawful.anywhere varScope env
    deletable sound) store₁).bind fun _ past'' m₂ _ _ store₂ due => ?_
  exact .pure store₂ due

/-- The global object has its properties for bindings, so that no `var` name comes into being among
those of an environment. -/
theorem declareGlobalVariable_ordered (name : String) :
    (ordered kept).anywhere.Safe (declareGlobalVariable name) := by
  intro past m store control
  have lawful : (ordered kept).anywhere.Lawful := ordered_lawful.anywhere
  refine (Keeps.asked _).followedBy store control fun taken past m _ _ store control _ => ?_
  split
  -- What is made is a property, and making it is no event for any name of an environment.
  · refine (Goes.ask (Q := fun record past' m' => record = .object WellKnown.globalObject ∧
      past' = past ∧ m' = m) store ⟨store.1.globals.properties, rfl, rfl⟩).bind ?_
    rintro _ _ _ _ _ _ ⟨rfl, rfl, rfl⟩
    refine (lawful.define WellKnown.globalObject name _).bind (fun allowed => ?_) _ _ store control
    split
    · exact lawful.fail _
    · exact .pure trivial
  · exact .pure store trivial

/-- A script finds its `let` and `const` names free when it comes to them: the checks have seen that
they are, and its functions and `var` names belong to the global object. -/
theorem declareGlobal_goes {scope : Scope} (distinct : Distinct scope)
    (sound : ∀ code ∈ scope.functions, code.Sound) (store : (ordered kept).store past m.store) :
    (ordered kept).Goes past m (declareGlobal WellKnown.globalEnvironment scope)
      fun _ past' _ => Due kept past' WellKnown.globalEnvironment scope.lexical := by
  have lawful : (ordered kept).anywhere.Lawful := ordered_lawful.anywhere
  rw [declareGlobal_eq]
  have checked :=
    (checkGlobals_safe lawful scope past m store trivial).also fun _ _ => checkGlobals_admits
  refine (checked.refines anywhere_refines).bind ?_
  rintro _ past₁ m₁ _ _ store₁ ⟨-, admits, rfl⟩
  -- What the checks have seen still holds after functions and variables, which touch no environment.
  have created := (createGlobals_safe lawful sound declareGlobalVariable_ordered past₁ m₁ store₁
    trivial).also (R := fun _ after => after.store.environments = m₁.store.environments)
    fun _ after run => by
      have same := createGlobals_environments scope store₁.1.globals
      rwa [run] at same
  refine (created.refines anywhere_refines).bind fun _ past₂ m₂ _ _ store₂ same => ?_
  refine (declareLexical_goes distinct.lexical store₂ store₂.1.globals.declarative
    fun l mem => ?_).weaken fun _ _ _ _ _ _ declared => declared.1
  have free := admits.lexical l mem
  rw [Bool.or_eq_false_iff, store₁.1.globals.declarative.hasBinding_eq_false_iff] at free
  simpa only [Store.binding?, Store.environment, same.2] using free.1

/-- The names of a script are due in the environment for its statements, whether they are new in an
environment of their own or among the global ones. -/
theorem declareScript_goes {scope : Scope} (distinct : Distinct scope)
    (sound : ∀ code ∈ scope.functions, code.Sound) (store : (ordered kept).store past m.store)
    (varScope : EnvironmentId) :
    (ordered kept).Goes past m (declareScript varScope scope) fun env past' _ =>
      Due kept past' env scope.lexical := by
  unfold declareScript
  split
  next global =>
    subst global
    exact (declareGlobal_goes distinct sound store).bind
      fun _ past' m' _ _ store' due => .pure store' due
  · have declared :
        (ordered kept).anywhere.Safe (scope.varNames.forM (declareOnce varScope true)) :=
      .forM fun name _ => declareOnce_safe ordered_lawful.anywhere varScope true name
    refine ((declared past m store trivial).refines anywhere_refines).bind
      fun _ past' m' _ _ store' _ => ?_
    exact declareInside_goes distinct sound store' varScope true

end Evaluate

end ScriptEngine
