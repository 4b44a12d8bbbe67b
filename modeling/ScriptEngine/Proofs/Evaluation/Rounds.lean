import ScriptEngine.Proofs.Evaluation.Endings
import ScriptEngine.Proofs.Evaluation.Entering

/-!
# The rounds of a loop in order

The names that the head of a loop declares with `let` are new in every round, with the values that
they had in the round before. By then they have values: the declaration of the head has run before
the first round, and scripts cannot take a value away (`runDeclaration_settles`). So each round finds
what it copies and declares it in an environment without names (`forRounds_goesOn`).
-/
namespace ScriptEngine.Evaluate

open Evaluation Operation Contract

variable {kept : Names} {past : List Event} {m : Machine} {env last : EnvironmentId}

/-! ### The first round -/

/-- A declarator that has run leaves its name with a value. -/
theorem runDeclarator_settles {call : Caller} {kind : DeclarationKind} {d : Declarator}
    {after : Machine} (lexical : kind ≠ .var)
    (ran : (runDeclarator call kind d).run m = (.value (), after)) {binding : Binding}
    (found : m.store.binding? m.control.lexical d.id.name = some binding)
    (permanent : binding.deletable = false) :
    after.store.Settled m.control.lexical d.id.name := by
  have settles : ∀ {value : Evaluation Value},
      (value >>= fun value => askControl (·.lexical) >>= fun env =>
        initializeLexical env d.id.name value).run m = (.value (), after) →
      after.store.Settled m.control.lexical d.id.name := by
    intro value ran
    obtain ⟨v, between, evaluated, initialized⟩ := bind_eq_value ran
    have returns := value.returns m
    have reached := value.steps m
    rw [evaluated] at returns reached
    -- Whatever the value took, the name is still there.
    obtain ⟨binding', there, permanent'⟩ := reached.binding_lasts found permanent
    have initialized : (initializeLexical between.control.lexical d.id.name v).run between =
        (.value (), after) := initialized
    rw [returns, initializeLexical_run there] at initialized
    cases initialized
    refine ⟨{ binding' with value := some v }, ?_, permanent', nofun⟩
    rw [(Store.Declarative.of_binding? there).binding?_withBinding, if_pos ⟨rfl, rfl⟩]
  unfold runDeclarator at ran
  cases kind with
  | var => exact absurd rfl lexical
  | «let» | const => exact settles ran

/-- A declaration that has run leaves all its names with values. -/
theorem runDeclaration_settles {call : Caller} {d : Declaration} {after : Machine}
    (lexical : d.kind ≠ .var) (ran : (runDeclaration call d).run m = (.value (), after))
    (found : ∀ part ∈ d.declarators, ∃ binding,
      m.store.binding? m.control.lexical part.id.name = some binding ∧
        binding.deletable = false) :
    ∀ part ∈ d.declarators, after.store.Settled m.control.lexical part.id.name := by
  obtain ⟨span, kind, parts⟩ := d
  change (parts.forM (runDeclarator call kind)).run m = _ at ran
  dsimp only at lexical found ⊢
  -- By induction on the declarators: a name that has its value keeps one while the others run.
  induction parts generalizing m with
  | nil => exact nofun
  | cons part rest ih =>
    obtain ⟨⟨binding, there, permanent⟩, others⟩ := List.forall_mem_cons.1 found
    obtain ⟨_, between, now, later⟩ := bind_eq_value ran
    have settled := runDeclarator_settles lexical now there permanent
    have returns : between.control = m.control := by
      have returns := (runDeclarator call kind part).returns m
      rwa [now] at returns
    have reached : m.store.Reaches between.store := by
      have reached := (runDeclarator call kind part).steps m
      rwa [now] at reached
    have further : between.store.Reaches after.store := by
      have further := (rest.forM (runDeclarator call kind)).steps between
      rwa [show (rest.forM (runDeclarator call kind)).run between = _ from later] at further
    refine List.forall_mem_cons.2 ⟨settled.lasts further, ?_⟩
    have others' : ∀ part ∈ rest, ∃ binding,
        between.store.binding? between.control.lexical part.id.name = some binding ∧
          binding.deletable = false := by
      intro part mem
      obtain ⟨binding, there, permanent⟩ := others part mem
      rw [returns]
      exact reached.binding_lasts there permanent
    rw [← returns]
    exact ih others' later

/-! ### The next round -/

theorem getBinding_of_settled {name : String} (settled : m.store.Settled env name) :
    ∃ value, (getBinding env name true).run m = (.value value, m) := by
  obtain ⟨binding, found, -, initialized⟩ := settled
  obtain ⟨value, eq⟩ := Option.ne_none_iff_exists'.1 initialized
  exact ⟨value, getBinding_run found eq true⟩

/-- A name that has a value is copied to where there is none of that name. -/
theorem copyBinding_goes {name : String} (store : (ordered kept).store past m.store)
    (control : (ordered kept).control m.control) (declarative : m.store.Declarative env)
    (absent : m.store.binding? env name = none) (settled : m.store.Settled last name) :
    (ordered kept).Goes past m (copyBinding last env name) fun _ _ m' =>
      m'.store.Settled env name ∧
        ∀ key, key ≠ name → m'.store.binding? env key = m.store.binding? env key := by
  have ready : (!m.store.isInitialized last name) = false := by simp [settled.isInitialized]
  refine (Goes.noteIf_of_false store ready).bind ?_
  rintro _ _ _ _ _ _ ⟨rfl, rfl⟩
  obtain ⟨value, read⟩ := getBinding_of_settled settled
  refine ((getBinding_safe ordered_lawful last name true _ _ store control).ran read).bind ?_
  rintro value past₁ m₁ _ _ store₁ ⟨-, rfl, rfl⟩
  have run := createLexical_run declarative absent false
  refine ((createLexical_goes store₁ declarative absent false).ran run).bind ?_
  rintro _ _ _ _ _ store₂ ⟨⟨rfl, waits, free⟩, -, rfl⟩
  -- The copy is declared here, so no one outside keeps it waiting.
  have bindings := declarative.binding?_withBinding name (lexicalBinding false)
  have there := bindings env name
  rw [if_pos ⟨rfl, rfl⟩] at there
  refine ((initializeLexical_goes store₂ waits free value).ran
    (initializeLexical_run there value)).weaken ?_
  rintro _ _ _ _ _ _ ⟨-, -, rfl⟩
  have both := (Store.Declarative.of_binding? there).binding?_withBinding name
    { lexicalBinding false with value := some value } env
  refine ⟨⟨_, by rw [both, if_pos ⟨rfl, rfl⟩], rfl, Option.some_ne_none value⟩, fun key other => ?_⟩
  rw [both, if_neg fun same => other same.2, bindings, if_neg fun same => other same.2]

/-- Names that differ and have values are copied to an environment without names. -/
theorem copyNames_goes {names : List String} (distinct : names.Nodup)
    (store : (ordered kept).store past m.store) (control : (ordered kept).control m.control)
    (declarative : m.store.Declarative env)
    (absent : ∀ name ∈ names, m.store.binding? env name = none)
    (settled : ∀ name ∈ names, m.store.Settled last name) :
    (ordered kept).Goes past m (names.forM (copyBinding last env)) fun _ _ m' =>
      ∀ name ∈ names, m'.store.Settled env name := by
  induction names generalizing past m with
  | nil => exact .pure store nofun
  | cons name rest ih =>
    obtain ⟨different, distinct⟩ := List.nodup_cons.1 distinct
    obtain ⟨first, others⟩ := List.forall_mem_cons.1 absent
    obtain ⟨ready, settled⟩ := List.forall_mem_cons.1 settled
    refine (copyBinding_goes store control declarative first ready).bind ?_
    -- The first copy leaves the other names free, and what it copied from lasts.
    rintro _ past' m₁ reached returns store₁ ⟨copied, same⟩
    have absent' : ∀ key ∈ rest, m₁.store.binding? env key = none := by
      intro key mem
      rw [same key fun eq => different (eq ▸ mem)]
      exact others key mem
    refine (ih distinct store₁ (returns ▸ control) (reached.declarative declarative) absent'
      fun key mem => (settled key mem).lasts reached).weaken ?_
    intro _ _ m₂ reached' _ _ later
    exact List.forall_mem_cons.2 ⟨copied.lasts reached', later⟩

/-- The names of a loop have values, where it is running, and are there for good. -/
def Running (names : List String) (m : Machine) : Prop :=
  ∀ name ∈ names, m.store.Settled m.control.lexical name

/-- The evaluation keeps names in order wherever a loop with some names is running. -/
structure GoesOn {α : Type} (x : Evaluation α) (names : List String) : Prop where
  goes : ∀ {kept : Names} {past : List Event} {m : Machine}, (ordered kept).store past m.store →
    (ordered kept).control m.control → Running names m →
    (ordered kept).Goes past m x fun _ _ _ => True

/-- A loop without names can start anywhere. -/
theorem GoesOn.initializes {α : Type} {x : Evaluation α} (h : GoesOn x []) : Initializes x [] :=
  ⟨fun store control _ => h.goes store control nofun⟩

theorem nextScope_goes {names : List String} (distinct : names.Nodup)
    (store : (ordered kept).store past m.store) (control : (ordered kept).control m.control)
    (running : Running names m) :
    (ordered kept).Goes past m (nextScope names) fun env _ m' =>
      ∀ name ∈ names, m'.store.Settled env name := by
  refine (Goes.askControl (Q := fun env past' m' => env = m.control.lexical ∧ past' = past ∧ m' = m)
    store ⟨rfl, rfl, rfl⟩).bind ?_
  rintro _ _ _ _ _ _ ⟨rfl, rfl, rfl⟩
  split
  -- A loop without names goes on in the scope that it has.
  next none =>
    rw [List.isEmpty_iff.1 none]
    exact .pure store nofun
  · refine (Keeps.asked _).followedBy store control
      fun outer past₁ m₁ reached₁ _ store₁ control₁ _ => ?_
    refine (ordered_lawful.opened store₁ outer).bind ?_
    rintro env _ m₂ reached₂ returns₂ store₂ ⟨rfl, unbound⟩
    refine (copyNames_goes distinct store₂ (returns₂ ▸ control₁) unbound.declarative
      (fun name _ => unbound.absent name)
      fun name mem => (running name mem).lasts (reached₁.trans reached₂)).bind ?_
    intro _ _ m₃ _ _ store₃ copied
    exact .pure store₃ copied

/-- The next round of a loop is prepared where the round before has run. -/
theorem nextScope_inside_goes {names : List String} (distinct : names.Nodup)
    (store : (ordered kept).store past m.store) (control : (ordered kept).control m.control)
    (settled : ∀ name ∈ names, m.store.Settled env name) :
    (ordered kept).Goes past m (withScope env (nextScope names)) fun env' _ m' =>
      ∀ name ∈ names, m'.store.Settled env' name := by
  refine .bracket store nofun id fun _ => ?_
  -- Inside, the scope of the last round is the innermost one, whose names are copied.
  refine nextScope_goes distinct store (ordered_lawful.scopeEntered env control) ?_
  intro name mem
  rw [show (Bracket.entered _ m).control = m.control.withLexical env from rfl,
    lexical_withLexical control]
  exact settled name mem

/-- Every round of a loop finds the names of the loop with values, and leaves them with values. -/
theorem forRounds_goesOn (bound : Nat) (labels : List String) {names : List String}
    (distinct : names.Nodup) {test update : Option (Evaluation Value)} {body : Evaluation Ending}
    (first : ∀ kept x, test = some x → (ordered kept).Safe x)
    (after : ∀ kept x, update = some x → (ordered kept).Safe x)
    (inside : ∀ kept, (ordered kept).Safe body) :
    GoesOn (forRounds bound labels names test update body) names := by
  refine ⟨fun {kept past m} store control running => ?_⟩
  refine (nextScope_goes distinct store control running).bind
    fun env past₁ m₁ _ returns₁ store₁ settled₁ => ?_
  refine .iterate (I := fun state s => ∀ name ∈ names, s.Settled state.1 name)
    (Q := fun _ => True) ?_ store₁ (returns₁ ▸ control) settled₁
  rintro ⟨env, last⟩ past m store control settled
  refine Keeps.followedBy (Q := fun _ => True) (ordered_lawful.withScope env ?tested) store control
    fun proceed past₁ m₁ reached₁ _ store₁ control₁ _ => ?_
  case tested =>
    cases test with
    | none => exact .pure trivial
    | some test => exact (first kept test rfl).map
  split
  · refine (ordered_lawful.withScope env (inside kept)).followedBy store₁ control₁
      fun ending past₂ m₂ reached₂ _ store₂ control₂ _ => ?_
    unfold afterRound
    split
    · have there : ∀ name ∈ names, m₂.store.Settled env name :=
        fun name mem => (settled name mem).lasts (reached₁.trans reached₂)
      refine (nextScope_inside_goes distinct store₂ control₂ there).bind
        fun env' past₃ m₃ _ returns₃ store₃ copied => ?_
      cases update with
      | none => exact .pure store₃ copied
      | some update =>
        refine (ordered_lawful.withScope env' (after kept update rfl)).followedBy store₃
          (returns₃ ▸ control₂) fun _ past₄ m₄ reached₄ _ store₄ _ _ => ?_
        exact .pure store₄ fun name mem => (copied name mem).lasts reached₄
    · exact .pure store₂ trivial
  · exact .pure store₁ trivial

end ScriptEngine.Evaluate
