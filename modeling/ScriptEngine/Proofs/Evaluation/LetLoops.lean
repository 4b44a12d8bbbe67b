import ScriptEngine.Proofs.Evaluation.KeyLoops
import ScriptEngine.Proofs.Evaluation.Declarations
import ScriptEngine.Proofs.Evaluation.LoopForms
import ScriptEngine.Proofs.Evaluation.Rounds
import ScriptEngine.Proofs.Store.Closed

/-!
# Loops with environments for their rounds

A loop whose head declares names with `let` gives each of its rounds an environment of its own.
`LoopRounds` says which rounds a loop has; it describes every run, and no run in two ways
(`loopRounds_run`, `LoopRounds.eq_roundsOf`).
-/
namespace ScriptEngine

namespace Store

variable {s t u : Store} {last env : EnvironmentId} {name : String} {names : List String}

/-- The value of a name in an environment that has bindings of its own. -/
def value? (s : Store) (env : EnvironmentId) (name : String) : Option Value :=
  (s.binding? env name).bind Binding.value

theorem value?_eq {binding : Binding} (found : s.binding? env name = some binding) :
    s.value? env name = binding.value := by
  rw [value?, found, Option.bind_some]

/-- Some names of an environment have come into being, with the values that they have in another
one, and nothing else has changed. -/
structure Copies (last env : EnvironmentId) (names : List String) (s t : Store) : Prop where
  reaches : s.Reaches t
  objects : t.objects = s.objects
  others : ∀ id, id ≠ env → t.environment id = s.environment id
  outer : (t.environment env).outer = (s.environment env).outer
  copied : ∀ name ∈ names, ∃ value, s.value? last name = some value ∧
    t.binding? env name = some { Binding.permanent with value := some value }
  rest : ∀ name, name ∉ names → t.binding? env name = s.binding? env name

theorem Copies.refl (last env : EnvironmentId) (s : Store) : Copies last env [] s s where
  reaches := .refl s
  objects := rfl
  others _ _ := rfl
  outer := rfl
  copied := nofun
  rest _ _ := rfl

theorem Copies.value?_of_ne (copies : Copies last env names s t) {id : EnvironmentId}
    (other : id ≠ env) (name : String) : t.value? id name = s.value? id name := by
  rw [value?, value?, binding?, binding?, copies.others id other]

/-- Names that are copied one after another. -/
theorem Copies.cons (first : Copies last env [name] s t) (others : Copies last env names t u)
    (apart : env ≠ last) (new : name ∉ names) : Copies last env (name :: names) s u where
  reaches := first.reaches.trans others.reaches
  objects := others.objects.trans first.objects
  others id other := (others.others id other).trans (first.others id other)
  outer := others.outer.trans first.outer
  copied := by
    refine List.forall_mem_cons.2 ⟨?_, fun key mem => ?_⟩
    · obtain ⟨value, there, copied⟩ := first.copied name List.mem_cons_self
      exact ⟨value, there, (others.rest name new).trans copied⟩
    · obtain ⟨value, there, copied⟩ := others.copied key mem
      exact ⟨value, (first.value?_of_ne apart.symm key).symm.trans there, copied⟩
  rest key absent := by
    rw [List.mem_cons, not_or] at absent
    exact (others.rest key absent.2).trans
      (first.rest key fun mem => absent.1 (List.mem_singleton.1 mem))

/-- An environment has come into being beside another one. It has some names and no others, with the
values that they have in that other one, for good, and nothing else has changed. -/
structure Renews (last env : EnvironmentId) (names : List String) (s t : Store) : Prop where
  new : env.index = s.environments.size
  there : t.HasEnvironment env
  objects : t.objects = s.objects
  others : ∀ id, id ≠ env → t.environment id = s.environment id
  outer : (t.environment env).outer = (s.environment last).outer
  bound : ∀ name, t.hasBinding env name = true ↔ name ∈ names
  values : ∀ name ∈ names, ∃ value, s.value? last name = some value ∧
    t.value? env name = some value
  settled : ∀ name ∈ names, t.Settled env name

/-- What is copied to an environment that has just been opened. -/
theorem Copies.renews {outer : Option EnvironmentId}
    (copies : Copies last ⟨s.environments.size⟩ names
      (s.openEnvironment (.declarative .empty) outer).2 t)
    (link : (s.environment last).outer = outer) (there : s.HasEnvironment last) :
    Renews last ⟨s.environments.size⟩ names s t := by
  have unbound := s.unbound_openEnvironment outer
  have opened := s.environment_openEnvironment (.declarative .empty) outer
  have others : ∀ id : EnvironmentId, id ≠ ⟨s.environments.size⟩ →
      (s.openEnvironment (.declarative .empty) outer).2.environment id = s.environment id := by
    intro id other
    rw [opened, if_neg fun same => other (congrArg EnvironmentId.mk same)]
  have declarative : t.Declarative ⟨s.environments.size⟩ :=
    copies.reaches.declarative unbound.declarative
  have last_ne : last ≠ ⟨s.environments.size⟩ := by
    rintro rfl
    exact Nat.lt_irrefl _ there
  refine ⟨rfl, ?_, copies.objects, fun id other => ?_, ?_, fun name => ⟨fun bound => ?_, ?_⟩, ?_,
    fun name mem => ?_⟩
  · exact declarative.present
  · rw [copies.others id other, others id other]
  · rw [copies.outer, opened, if_pos rfl, link]
  · by_contra absent
    rw [← Bool.not_eq_false, declarative.hasBinding_eq_false_iff, copies.rest name absent] at bound
    exact bound (unbound.absent name)
  · intro mem
    obtain ⟨value, -, copied⟩ := copies.copied name mem
    exact hasBinding_of_binding? copied
  · intro name mem
    obtain ⟨value, had, copied⟩ := copies.copied name mem
    refine ⟨value, ?_, value?_eq copied⟩
    rwa [value?, binding?, others last last_ne] at had
  · obtain ⟨value, -, copied⟩ := copies.copied name mem
    exact ⟨_, copied, rfl, Option.some_ne_none value⟩

/-! ### Environments with names for good -/

section

variable {outer : EnvironmentId}

/-- The environment is right inside another one, and has some names with values for good. -/
structure Houses (s : Store) (outer : EnvironmentId) (names : List String) (env : EnvironmentId) :
    Prop where
  there : s.HasEnvironment env
  outer : (s.environment env).outer = some outer
  settled : ∀ name ∈ names, s.Settled env name

theorem Houses.mono (houses : s.Houses outer names env) (reached : s.Reaches t) :
    t.Houses outer names env where
  there := houses.there.mono reached
  outer := (reached.outer_eq houses.there).trans houses.outer
  settled name mem := (houses.settled name mem).lasts reached

/-- The environment of a round houses the names as well as the one before it. -/
theorem Renews.houses {last : EnvironmentId} (renews : s.Renews last env names t)
    (houses : s.Houses outer names last) : t.Houses outer names env where
  there := renews.there
  outer := renews.outer.trans houses.outer
  settled := renews.settled

end

end Store

namespace Operation

open Evaluation

variable {m after : Machine} {env : EnvironmentId} {name : String}

/-- A name that is there already cannot come into being. -/
theorem create_of_present {old : Binding} (found : m.store.binding? env name = some old)
    (binding : Binding) (fresh : binding.value = none) :
    (create env name binding fresh).run m = (.raised (.error (.alreadyDeclared name)), m) := by
  have edited := Store.Declarative.editBindings_create_of_present binding found
  change (ofRefusal (m.store.editBindings env _).1,
    { m with store := (m.store.editBindings env _).2 }) = _
  rw [edited]
  rfl

theorem createLexical_of_present {old : Binding} (found : m.store.binding? env name = some old)
    (isConst : Bool) :
    (createLexical env name isConst).run m = (.raised (.error (.alreadyDeclared name)), m) := by
  obtain ⟨bindings, record⟩ := (Store.Declarative.of_binding? found).record
  cases isConst with
  | true =>
    rw [createLexical, if_pos rfl, run_bind_note]
    simp only [createImmutable, run_bind, run_ask, andThen_value, record]
    exact create_of_present found _ rfl
  | false =>
    rw [createLexical, if_neg Bool.false_ne_true, run_bind_note]
    simp only [createMutable, run_bind, run_ask, andThen_value, record]
    exact create_of_present found _ rfl

/-- A `let` or `const` name that has come into being was not there before. -/
theorem createLexical_eq_value (declarative : m.store.Declarative env) {isConst : Bool}
    (made : (createLexical env name isConst).run m = (.value (), after)) :
    m.store.binding? env name = none ∧
      after = { m with store := m.store.withBinding env name (lexicalBinding isConst) } := by
  cases found : m.store.binding? env name with
  | none =>
    rw [createLexical_run declarative found isConst] at made
    cases made
    exact ⟨rfl, rfl⟩
  | some old =>
    rw [createLexical_of_present found isConst] at made
    cases made

end Operation

namespace Evaluate

open Evaluation Operation

variable {m after : Machine} {last env : EnvironmentId} {name : String} {names : List String}

/-! ### The environment of a round -/

/-- A name that has been copied was not there before, and has now the value that was copied. -/
theorem copies_of_copyBinding (declarative : m.store.Declarative env)
    (settled : m.store.Settled last name)
    (ran : (copyBinding last env name).run m = (.value (), after)) :
    m.store.binding? env name = none ∧ after.control = m.control ∧
      m.store.Copies last env [name] after.store := by
  have reached := (copyBinding last env name).steps m
  rw [ran] at reached
  obtain ⟨binding, found, -, initialized⟩ := settled
  obtain ⟨value, has⟩ := Option.ne_none_iff_exists'.1 initialized
  obtain ⟨_, between, noted, ran⟩ := bind_eq_value ran
  cases noted
  obtain ⟨_, _, read, ran⟩ := bind_eq_value ran
  rw [getBinding_run found has true] at read
  cases read
  obtain ⟨_, between, created, ran⟩ := bind_eq_value ran
  obtain ⟨absent, rfl⟩ := createLexical_eq_value declarative created
  have bindings := declarative.binding?_withBinding name (lexicalBinding false)
  have there := bindings env name
  rw [if_pos ⟨rfl, rfl⟩] at there
  rw [initializeLexical_run there value] at ran
  cases ran
  have held := Store.Declarative.of_binding? there
  have both := held.binding?_withBinding name { lexicalBinding false with value := some value }
  refine ⟨absent, rfl, reached, ?_, fun id other => ?_, ?_, ?_, fun key other => ?_⟩
  · simp only [Store.objects_withBinding]
  · rw [held.environment_withBinding, if_neg other, declarative.environment_withBinding,
      if_neg other]
  · rw [held.environment_withBinding, if_pos rfl, declarative.environment_withBinding, if_pos rfl]
  · refine List.forall_mem_singleton.2 ⟨value, (Store.value?_eq found).trans has, ?_⟩
    rw [both, if_pos ⟨rfl, rfl⟩]
    rfl
  · have other : key ≠ name := fun same => other (same ▸ List.mem_cons_self)
    rw [both, if_neg fun same => other same.2, bindings, if_neg fun same => other same.2]

/-- Names that have all been copied were not there before. -/
theorem copies_of_copyNames (declarative : m.store.Declarative env) (apart : env ≠ last)
    (settled : ∀ name ∈ names, m.store.Settled last name)
    (ran : (names.forM (copyBinding last env)).run m = (.value (), after)) :
    (∀ name ∈ names, m.store.binding? env name = none) ∧ after.control = m.control ∧
      m.store.Copies last env names after.store := by
  induction names generalizing m with
  | nil =>
    cases ran
    exact ⟨nofun, rfl, .refl last env _⟩
  | cons name rest ih =>
    obtain ⟨ready, settled⟩ := List.forall_mem_cons.1 settled
    obtain ⟨_, between, now, later⟩ := bind_eq_value ran
    obtain ⟨absent, returns, first⟩ := copies_of_copyBinding declarative ready now
    have reached : m.store.Reaches between.store := by
      have reached := (copyBinding last env name).steps m
      rwa [now] at reached
    obtain ⟨absent', returns', others⟩ := ih (reached.declarative declarative)
      (fun key mem => (settled key mem).lasts reached) later
    -- The name is there when the others are copied, so it is none of them.
    have new : name ∉ rest := by
      intro mem
      obtain ⟨value, -, copied⟩ := first.copied name List.mem_cons_self
      rw [absent' name mem] at copied
      cases copied
    refine ⟨List.forall_mem_cons.2 ⟨absent, fun key mem => ?_⟩, returns'.trans returns,
      first.cons others apart new⟩
    rw [← first.rest key fun same => new (List.mem_singleton.1 same ▸ mem)]
    exact absent' key mem

/-- The next environment of a loop that declares names comes into being beside the one of the round
before. -/
theorem renews_of_nextScope (nonempty : names ≠ [])
    (settled : ∀ name ∈ names, m.store.Settled m.control.lexical name)
    (ran : (nextScope names).run m = (.value env, after)) :
    after.control = m.control ∧ m.store.Renews m.control.lexical env names after.store := by
  have there : m.store.Declarative m.control.lexical := by
    obtain ⟨name, mem⟩ := List.exists_mem_of_ne_nil names nonempty
    obtain ⟨binding, found, -⟩ := settled name mem
    exact .of_binding? found
  obtain ⟨_, _, asked, ran⟩ := bind_eq_value ran
  cases asked
  rw [if_neg (by rwa [List.isEmpty_iff])] at ran
  obtain ⟨_, _, asked, ran⟩ := bind_eq_value ran
  cases asked
  obtain ⟨_, opened, opens, ran⟩ := bind_eq_value ran
  cases opens
  obtain ⟨_, between, copied, ran⟩ := bind_eq_value ran
  cases ran
  have unbound := m.store.unbound_openEnvironment (m.store.environment m.control.lexical).outer
  have reached : m.store.Reaches _ := (openEnvironment
    (m.store.environment m.control.lexical).outer).steps m
  have apart : (⟨m.store.environments.size⟩ : EnvironmentId) ≠ m.control.lexical := by
    intro same
    have present := there.present
    rw [← same] at present
    exact Nat.lt_irrefl _ present
  obtain ⟨-, returns, copies⟩ := copies_of_copyNames unbound.declarative apart
    (fun name mem => (settled name mem).lasts reached) copied
  exact ⟨returns, copies.renews rfl there.present⟩

/-! ### Rounds -/

/-- The test of a loop, which goes on for ever without one. -/
def condition : Option (Evaluation Value) → Evaluation Bool
  | some test => Value.isTrue <$> test
  | none => return true

/-- What is evaluated in the environment of a round before its test: for all rounds but the first
one, the update of the loop. -/
def updating (env : EnvironmentId) : Option (Evaluation Value) → Evaluation Unit
  | some update => do let _ ← withScope env update
  | none => return ()

/-- A round of a loop, from where it copies its names from to where its body starts. -/
structure LoopRound where
  /-- The environment of the round before, or of the loop itself. -/
  last : EnvironmentId
  /-- The machine at the end of the round before, or of the declaration in the head. -/
  before : Machine
  env : EnvironmentId
  /-- The machine when the environment has its names. -/
  ready : Machine
  /-- The machine after the update, where the test starts. -/
  start : Machine
  /-- The machine where the body starts. -/
  entered : Machine

/-- The round follows on another one, or is the first, and begins with its environment and with the
update if there is one. -/
structure LoopRound.Begins (names : List String) (update : Option (Evaluation Value))
    (last : EnvironmentId) (before : Machine) (round : LoopRound) : Prop where
  follows : round.last = last ∧ round.before = before
  copied : (withScope round.last (nextScope names)).run round.before =
    (.value round.env, round.ready)
  updated : (updating round.env update).run round.ready = (.value (), round.start)

/-- What an evaluation ends with that needs the value of another one. -/
inductive Stops {α β : Type} : Outcome α → Outcome β → Prop where
  | raised (r : Raised) : Stops (.raised r) (.raised r)
  | exhausted : Stops .exhausted .exhausted

section

variable (labels names : List String) (test update : Option (Evaluation Value))
  (body : Evaluation Ending)

/-- The beginning of a round up to its test. -/
def beginRound (first : Option (Evaluation Value)) (last : EnvironmentId) :
    Evaluation EnvironmentId := do
  let env ← withScope last (nextScope names)
  updating env first
  return env

/-- The round begins, and its body runs. -/
structure LoopRound.Enters (update : Option (Evaluation Value)) (last : EnvironmentId)
    (before : Machine) (round : LoopRound) : Prop where
  begins : round.Begins names update last before
  tested : (withScope round.env (condition test)).run round.start = (.value true, round.entered)

/-- The rounds of a loop whose body runs, and how the loop ends. The first round has its own update,
which is none where the loop begins. -/
inductive LoopRounds : Nat → Option (Evaluation Value) → EnvironmentId → Value → Machine →
    List LoopRound → Outcome Ending × Machine → Prop where
  /-- The round cannot begin. -/
  | unbegun {bound : Nat} {first : Option (Evaluation Value)} {last : EnvironmentId} {value : Value}
    {before after : Machine} {outcome : Outcome EnvironmentId} {outcome' : Outcome Ending}
    (run : (beginRound names first last).run before = (outcome, after))
    (stops : Stops outcome outcome') :
    LoopRounds bound first last value before [] (outcome', after)
  | exhausted {first : Option (Evaluation Value)} {last : EnvironmentId} {value : Value}
    {before : Machine} {round : LoopRound} (begins : round.Begins names first last before) :
    LoopRounds 0 first last value before [] (.exhausted, round.start)
  /-- The test has no value. -/
  | untested {bound : Nat} {first : Option (Evaluation Value)} {last : EnvironmentId}
    {value : Value} {before after : Machine} {round : LoopRound} {outcome : Outcome Bool}
    {outcome' : Outcome Ending} (begins : round.Begins names first last before)
    (tested : (withScope round.env (condition test)).run round.start = (outcome, after))
    (stops : Stops outcome outcome') :
    LoopRounds (bound + 1) first last value before [] (outcome', after)
  | done {bound : Nat} {first : Option (Evaluation Value)} {last : EnvironmentId} {value : Value}
    {before after : Machine} {round : LoopRound} (begins : round.Begins names first last before)
    (tested : (withScope round.env (condition test)).run round.start = (.value false, after)) :
    LoopRounds (bound + 1) first last value before [] (.value (.normal (some value)), after)
  /-- A round after which the loop does not go on is the last one. -/
  | left {bound : Nat} {first : Option (Evaluation Value)} {last : EnvironmentId} {value : Value}
    {before after : Machine} {round : LoopRound} {outcome : Outcome Ending}
    (enters : round.Enters names test first last before)
    (run : (withScope round.env body).run round.entered = (outcome, after))
    (abrupt : goesOn labels outcome = false) :
    LoopRounds (bound + 1) first last value before [round] (leaving value outcome, after)
  | next {bound : Nat} {first : Option (Evaluation Value)} {last : EnvironmentId} {value : Value}
    {before after : Machine} {round : LoopRound} {ending : Ending} {rounds : List LoopRound}
    {result : Outcome Ending × Machine} (enters : round.Enters names test first last before)
    (run : (withScope round.env body).run round.entered = (.value ending, after))
    (onward : ending.letsLoopContinue labels = true)
    (others : LoopRounds bound update round.env (ending.value?.getD value) after rounds result) :
    LoopRounds (bound + 1) first last value before (round :: rounds) result

/-- The rounds of a loop whose body runs, found by running it. -/
def roundsOf : Nat → Option (Evaluation Value) → EnvironmentId → Machine → List LoopRound
  | 0, _, _, _ => []
  | bound + 1, first, last, before =>
    match (withScope last (nextScope names)).run before with
    | (.value env, ready) =>
      match (updating env first).run ready with
      | (.value (), start) =>
        match (withScope env (condition test)).run start with
        | (.value true, entered) =>
          ⟨last, before, env, ready, start, entered⟩ ::
            match (withScope env body).run entered with
            | (.value ending, after) =>
              if ending.letsLoopContinue labels then roundsOf bound update env after else []
            | _ => []
        | _ => []
      | _ => []
    | _ => []

/-- The rounds of a loop from one on. -/
def inRound (bound : Nat) (env : EnvironmentId) (value : Value) : Evaluation Ending :=
  iterate bound
    (fun (env, value) => do
      let proceed ← withScope env (condition test)
      if proceed then
        let ending ← withScope env body
        afterRound labels value ending fun value => do
          let env ← beginRound names update env
          return .again (env, value)
      else return .done (.normal (some value)))
    (env, value)

/-- The rounds of a loop from the beginning of one on. -/
def roundsFrom (bound : Nat) (first : Option (Evaluation Value)) (last : EnvironmentId)
    (value : Value) : Evaluation Ending := do
  let env ← beginRound names first last
  inRound labels names test update body bound env value

end

variable {labels : List String} {test update : Option (Evaluation Value)} {body : Evaluation Ending}

theorem inRound_succ (bound : Nat) (env : EnvironmentId) (value : Value) :
    inRound labels names test update body (bound + 1) env value =
      withScope env (condition test) >>= fun proceed =>
        if proceed then
          withScope env body >>= fun ending =>
            if ending.letsLoopContinue labels then
              roundsFrom labels names test update body bound update env (ending.value?.getD value)
            else pure (ending.updateEmpty (some value))
        else pure (.normal (some value)) := by
  rw [inRound, iterate_succ, bind_assoc]
  refine congrArg (withScope env (condition test) >>= ·) (funext fun proceed => ?_)
  split
  · rw [bind_assoc]
    refine congrArg (withScope env body >>= ·) (funext fun ending => ?_)
    unfold afterRound
    split
    · rw [bind_assoc]
      rfl
    · rfl
  · rfl

/-! ### Every run has its rounds -/

section

variable {α β : Type} {x : Evaluation α} {f : α → Evaluation β} {m after : Machine}

theorem run_bind_of_value {a : α} (ran : x.run m = (.value a, after)) :
    (x >>= f).run m = (f a).run after := by
  rw [run_bind, ran, andThen_value]

theorem run_bind_of_stops {outcome : Outcome α} {outcome' : Outcome β}
    (ran : x.run m = (outcome, after)) (stops : Stops outcome outcome') :
    (x >>= f).run m = (outcome', after) := by
  rw [run_bind, ran]
  cases stops <;> rfl

/-- An evaluation has a value, or whatever needs one stops with it. -/
theorem value_or_stops (β : Type) (outcome : Outcome α) :
    (∃ a, outcome = .value a) ∨ ∃ outcome' : Outcome β, Stops outcome outcome' := by
  cases outcome with
  | value a => exact .inl ⟨a, rfl⟩
  | raised r => exact .inr ⟨_, .raised r⟩
  | exhausted => exact .inr ⟨_, .exhausted⟩

end

namespace LoopRound

variable {before : Machine} {round : LoopRound} {first : Option (Evaluation Value)}

theorem Begins.run (begins : round.Begins names first last before) :
    (beginRound names first last).run before = (.value round.env, round.start) := by
  obtain ⟨⟨rfl, rfl⟩, copied, updated⟩ := begins
  rw [beginRound, run_bind_of_value copied, run_bind_of_value updated]
  rfl

/-- Where the beginning of a round has a value, the round has begun. -/
theorem begins_of_run {start : Machine}
    (ran : (beginRound names first last).run before = (.value env, start)) (entered : Machine) :
    ∃ ready, Begins names first last before ⟨last, before, env, ready, start, entered⟩ := by
  obtain ⟨env', ready, copied, ran⟩ := bind_eq_value ran
  obtain ⟨_, start', updated, ran⟩ := bind_eq_value ran
  cases ran
  exact ⟨ready, ⟨rfl, rfl⟩, copied, updated⟩

theorem Begins.unique {round' : LoopRound} (begins : round.Begins names first last before)
    (begins' : round'.Begins names first last before) :
    ∃ entered, round' = { round with entered } := by
  obtain ⟨last, before, env, ready, start, entered⟩ := round
  obtain ⟨last', before', env', ready', start', entered'⟩ := round'
  obtain ⟨⟨rfl, rfl⟩, copied, updated⟩ := begins
  obtain ⟨⟨rfl, rfl⟩, copied', updated'⟩ := begins'
  dsimp only at copied copied' updated updated'
  rw [copied] at copied'
  cases copied'
  rw [updated] at updated'
  cases updated'
  exact ⟨entered', rfl⟩

/-- A round whose body runs has begun. -/
theorem Enters.not_stops {start : Machine} {outcome : Outcome EnvironmentId}
    {outcome' : Outcome Ending} (enters : round.Enters names test first last before)
    (ran : (beginRound names first last).run before = (outcome, start)) :
    ¬ Stops outcome outcome' := by
  rw [enters.begins.run] at ran
  cases ran
  exact nofun

/-- The test of a round whose body runs is true. -/
theorem Enters.outcome_eq {round' : LoopRound} {outcome : Outcome Bool} {after : Machine}
    (enters : round.Enters names test first last before)
    (begins : round'.Begins names first last before)
    (tested : (withScope round'.env (condition test)).run round'.start = (outcome, after)) :
    outcome = .value true ∧ after = round.entered := by
  obtain ⟨_, rfl⟩ := enters.begins.unique begins
  have same := tested.symm.trans enters.tested
  exact ⟨congrArg Prod.fst same, congrArg Prod.snd same⟩

end LoopRound

variable {bound : Nat} {first : Option (Evaluation Value)} {value : Value} {before : Machine}
  {round : LoopRound}

theorem roundsFrom_begun (begins : round.Begins names first last before) :
    (roundsFrom labels names test update body bound first last value).run before =
      (inRound labels names test update body bound round.env value).run round.start :=
  run_bind_of_value begins.run

theorem inRound_done
    (tested : (withScope env (condition test)).run m = (.value false, after)) :
    (inRound labels names test update body (bound + 1) env value).run m =
      (.value (.normal (some value)), after) := by
  rw [inRound_succ, run_bind_of_value tested]
  rfl

theorem inRound_next {entered : Machine} {ending : Ending}
    (tested : (withScope env (condition test)).run m = (.value true, entered))
    (run : (withScope env body).run entered = (.value ending, after))
    (onward : ending.letsLoopContinue labels = true) :
    (inRound labels names test update body (bound + 1) env value).run m =
      (roundsFrom labels names test update body bound update env
        (ending.value?.getD value)).run after := by
  rw [inRound_succ, run_bind_of_value tested, if_pos rfl, run_bind_of_value run, if_pos onward]

theorem inRound_left {entered : Machine} {outcome : Outcome Ending}
    (tested : (withScope env (condition test)).run m = (.value true, entered))
    (run : (withScope env body).run entered = (outcome, after))
    (abrupt : goesOn labels outcome = false) :
    (inRound labels names test update body (bound + 1) env value).run m =
      (leaving value outcome, after) := by
  rw [inRound_succ, run_bind_of_value tested, if_pos rfl, run_bind, run]
  cases outcome with
  | value ending =>
    have abrupt : ending.letsLoopContinue labels = false := abrupt
    rw [andThen_value, if_neg (ne_true_of_eq_false abrupt)]
    rfl
  | raised | exhausted => rfl

theorem roundsOf_eq_nil (none : ∀ round, ¬ LoopRound.Enters names test first last before round) :
    roundsOf labels names test update body (bound + 1) first last before = [] := by
  unfold roundsOf
  split
  next env ready copied =>
    split
    next start updated =>
      split
      next entered tested =>
        exact absurd ⟨⟨⟨rfl, rfl⟩, copied, updated⟩, tested⟩
          (none ⟨last, before, env, ready, start, entered⟩)
      · rfl
    · rfl
  · rfl

theorem roundsOf_enters (enters : round.Enters names test first last before) :
    roundsOf labels names test update body (bound + 1) first last before = round ::
      match (withScope round.env body).run round.entered with
      | (.value ending, after) =>
        if ending.letsLoopContinue labels then
          roundsOf labels names test update body bound update round.env after
        else []
      | _ => [] := by
  obtain ⟨⟨⟨rfl, rfl⟩, copied, updated⟩, tested⟩ := enters
  rw [roundsOf, copied]
  simp only [updated, tested]

theorem roundsOf_left {outcome : Outcome Ending}
    (enters : round.Enters names test first last before)
    (run : (withScope round.env body).run round.entered = (outcome, after))
    (abrupt : goesOn labels outcome = false) :
    roundsOf labels names test update body (bound + 1) first last before = [round] := by
  rw [roundsOf_enters enters, run]
  cases outcome with
  | value ending => exact congrArg (round :: ·) (if_neg (ne_true_of_eq_false abrupt))
  | raised | exhausted => rfl

theorem roundsOf_next {ending : Ending} (enters : round.Enters names test first last before)
    (run : (withScope round.env body).run round.entered = (.value ending, after))
    (onward : ending.letsLoopContinue labels = true) :
    roundsOf labels names test update body (bound + 1) first last before =
      round :: roundsOf labels names test update body bound update round.env after := by
  rw [roundsOf_enters enters, run]
  exact congrArg (round :: ·) (if_pos onward)

/-- Every run of a loop has its rounds. -/
theorem loopRounds_run (labels names : List String) (test update : Option (Evaluation Value))
    (body : Evaluation Ending) (bound : Nat) (first : Option (Evaluation Value))
    (last : EnvironmentId) (value : Value) (before : Machine) :
    ∃ rounds, LoopRounds labels names test update body bound first last value before rounds
      ((roundsFrom labels names test update body bound first last value).run before) := by
  induction bound generalizing first last value before with
  | zero =>
    cases began : (beginRound names first last).run before with
    | mk outcome start =>
      rcases value_or_stops Ending outcome with ⟨env, rfl⟩ | ⟨outcome', stops⟩
      · obtain ⟨ready, begins⟩ := LoopRound.begins_of_run began start
        rw [roundsFrom_begun begins]
        exact ⟨[], .exhausted begins⟩
      · rw [roundsFrom, run_bind_of_stops began stops]
        exact ⟨[], .unbegun began stops⟩
  | succ bound ih =>
    cases began : (beginRound names first last).run before with
    | mk outcome start =>
      rcases value_or_stops Ending outcome with ⟨env, rfl⟩ | ⟨outcome', stops⟩
      · cases tested : (withScope env (condition test)).run start with
        | mk outcome entered =>
          obtain ⟨ready, begins⟩ := LoopRound.begins_of_run began entered
          rw [roundsFrom_begun begins]
          rcases value_or_stops Ending outcome with ⟨proceed, rfl⟩ | ⟨outcome', stops⟩
          · cases proceed with
            | false =>
              rw [inRound_done tested]
              exact ⟨[], .done begins tested⟩
            | true =>
              cases run : (withScope env body).run entered with
              | mk outcome after =>
                cases onward : goesOn labels outcome with
                | false =>
                  rw [inRound_left tested run onward]
                  exact ⟨_, .left ⟨begins, tested⟩ run onward⟩
                | true =>
                  cases outcome with
                  | value ending =>
                    obtain ⟨rounds, others⟩ := ih update env (ending.value?.getD value) after
                    rw [inRound_next tested run onward]
                    exact ⟨_, .next ⟨begins, tested⟩ run onward others⟩
                  | raised | exhausted => cases onward
          · rw [inRound_succ, run_bind_of_stops tested stops]
            exact ⟨[], .untested begins tested stops⟩
      · rw [roundsFrom, run_bind_of_stops began stops]
        exact ⟨[], .unbegun began stops⟩

namespace LoopRounds

variable {rounds rounds' : List LoopRound} {result result' : Outcome Ending × Machine}

/-- The rounds, and how they end, are those of the run and no others. -/
theorem eq_run
    (all : LoopRounds labels names test update body bound first last value m rounds result) :
    result = (roundsFrom labels names test update body bound first last value).run m := by
  induction all with
  | unbegun run stops => exact (run_bind_of_stops run stops).symm
  | exhausted begins =>
    rw [roundsFrom_begun begins]
    rfl
  | untested begins tested stops =>
    rw [roundsFrom_begun begins, inRound_succ, run_bind_of_stops tested stops]
  | done begins tested => rw [roundsFrom_begun begins, inRound_done tested]
  | left enters run abrupt =>
    rw [roundsFrom_begun enters.begins, inRound_left enters.tested run abrupt]
  | next enters run onward _ ih =>
    rw [ih, roundsFrom_begun enters.begins, inRound_next enters.tested run onward]

/-- There is one way to describe the rounds. -/
theorem eq_roundsOf
    (all : LoopRounds labels names test update body bound first last value m rounds result) :
    rounds = roundsOf labels names test update body bound first last m := by
  induction all with
  | exhausted => rfl
  | @unbegun bound _ _ _ _ _ _ _ run stops =>
    cases bound with
    | zero => rfl
    | succ => exact (roundsOf_eq_nil fun _ enters => enters.not_stops run stops).symm
  | untested begins tested stops =>
    refine (roundsOf_eq_nil fun _ enters => ?_).symm
    cases (enters.outcome_eq begins tested).1
    cases stops
  | done begins tested =>
    refine (roundsOf_eq_nil fun _ enters => ?_).symm
    cases (enters.outcome_eq begins tested).1
  | left enters run abrupt => exact (roundsOf_left enters run abrupt).symm
  | next enters run onward _ ih => rw [roundsOf_next enters run onward, ih]

end LoopRounds

/-! ### The whole loop -/

theorem forRounds_eq (bound : Nat) (labels names : List String)
    (test update : Option (Evaluation Value)) (body : Evaluation Ending) :
    forRounds bound labels names test update body =
      nextScope names >>= fun env =>
        inRound labels names test update body bound env .undefined := by
  unfold forRounds inRound beginRound
  refine congrArg (nextScope names >>= ·) (funext fun env => ?_)
  refine congrArg (iterate bound · _) (funext fun state => ?_)
  obtain ⟨env, value⟩ := state
  cases test <;> cases update <;> simp only [bind_assoc, pure_bind, updating] <;> rfl

/-- The first round copies its names from where the loop is. -/
theorem forRounds_run (bound : Nat) (labels names : List String)
    (test update : Option (Evaluation Value)) (body : Evaluation Ending) (m : Machine) :
    (forRounds bound labels names test update body).run m =
      (roundsFrom labels names test update body bound none m.control.lexical .undefined).run m := by
  rw [forRounds_eq, roundsFrom, beginRound, bind_assoc, run_bind, run_bind, run_withScope_lexical]
  rfl

/-- The declaration in the head of a loop, which runs in an environment of its own. -/
def enterHead (call : Caller) (head : Declaration) (scope : Scope) : Evaluation EnvironmentId := do
  let env ← openScopeHere
  declareLexical env scope
  withScope env (runDeclaration call head)
  return env

/-- A loop runs its rounds in the environment in which the declaration of its head has run. -/
theorem forLoop_entered {call : Caller} {head : Declaration} {scope : Scope} {entry : Machine}
    {loop : EnvironmentId} (isLet : head.kind = .let)
    (entered : (enterHead call head scope).run m = (.value loop, entry))
    (rounds : List String → Evaluation Ending) :
    (forLoop call (some (.declaration head)) scope rounds).run m =
      (withScope loop (rounds (head.declarators.map (·.id.name)))).run entry := by
  obtain ⟨env, opened, opens, entered⟩ := bind_eq_value entered
  obtain ⟨_, declared, declares, entered⟩ := bind_eq_value entered
  obtain ⟨_, between, runs, entered⟩ := bind_eq_value entered
  cases entered
  simp only [forLoop, isLet, if_pos]
  rw [run_bind_of_value opens, run_bind_of_value declares, run_withScope_bind,
    run_bind_of_value runs]

/-! ### Environments of rounds -/

variable {outer : EnvironmentId}

section

variable {α : Type} {x : Evaluation α} {outcome : Outcome α}

theorem reaches_of_run (ran : x.run m = (outcome, after)) : m.store.Reaches after.store := by
  have reached := x.steps m
  rwa [ran] at reached

theorem control_of_run (ran : x.run m = (outcome, after)) : after.control = m.control := by
  have returns := x.returns m
  rwa [ran] at returns

end

theorem withScope_eq_value {α : Type} {x : Evaluation α} {a : α}
    (ran : (withScope env x).run m = (.value a, after)) :
    ∃ ended, x.run ((Bracket.scope env).entered m) = (.value a, ended) ∧
      after.store = ended.store ∧ after.control = m.control := by
  have returns := control_of_run ran
  have whole : (withScope env x).run m = ((x.run ((Bracket.scope env).entered m)).1,
      (Bracket.scope env).left m (x.run ((Bracket.scope env).entered m)).2) := rfl
  rw [whole] at ran
  refine ⟨(x.run ((Bracket.scope env).entered m)).2, ?_, ?_, returns⟩
  · rw [← show (x.run ((Bracket.scope env).entered m)).1 = .value a from congrArg Prod.fst ran]
  · rw [← show (Bracket.scope env).left m (x.run ((Bracket.scope env).entered m)).2 = after from
      congrArg Prod.snd ran]
    rfl

/-- The environment in which the head of a loop has been declared houses its names. -/
theorem bound_of_declareLexical {listed : List LexicalName} (declarative : m.store.Declarative env)
    (ran : (listed.forM (declareLexicalName env)).run m = (.value (), after)) :
    ∀ l ∈ listed, ∃ binding,
      after.store.binding? env l.name = some binding ∧ binding.deletable = false := by
  induction listed generalizing m with
  | nil => exact nofun
  | cons first rest ih =>
    obtain ⟨_, between, now, later⟩ := bind_eq_value ran
    obtain ⟨-, rfl⟩ := createLexical_eq_value declarative now
    have reached := reaches_of_run (x := rest.forM (declareLexicalName env)) later
    refine List.forall_mem_cons.2 ⟨?_, ih (declarative.withBinding _ _ declarative) later⟩
    have made : (m.store.withBinding env first.name (lexicalBinding first.isConst)).binding? env
        first.name = some (lexicalBinding first.isConst) := by
      rw [declarative.binding?_withBinding, if_pos ⟨rfl, rfl⟩]
    exact reached.binding_lasts made (by cases first.isConst <;> rfl)

/-- A scope is opened right inside the one of the code that is running. -/
theorem openScopeHere_eq_value (ran : openScopeHere.run m = (.value env, after)) :
    env.index = m.store.environments.size ∧ after.store.Unbound env ∧
      (after.store.environment env).outer = some m.control.lexical := by
  cases ran
  have opened := (m.store.environment_openEnvironment (.declarative .empty) (some m.control.lexical)
    ⟨m.store.environments.size⟩).trans (if_pos rfl)
  exact ⟨rfl, m.store.unbound_openEnvironment _, congrArg Environment.outer opened⟩

/-- A loop whose head has been entered has an environment of its own for its names. -/
theorem houses_of_enterHead {call : Caller} {head : Declaration} {scope : Scope} {entry : Machine}
    {loop : EnvironmentId} (lexical : head.kind ≠ .var)
    (listed : ∀ part ∈ head.declarators, part.id.name ∈ scope.lexical.map LexicalName.name)
    (running : m.control.frames ≠ [])
    (entered : (enterHead call head scope).run m = (.value loop, entry)) :
    loop.index = m.store.environments.size ∧ entry.control = m.control ∧
      m.store.Reaches entry.store ∧
      entry.store.Houses m.control.lexical (head.declarators.map (·.id.name)) loop := by
  have reached := reaches_of_run entered
  have returns := control_of_run entered
  obtain ⟨env, opened, opens, entered⟩ := bind_eq_value entered
  obtain ⟨_, declared, declares, entered⟩ := bind_eq_value entered
  obtain ⟨_, between, runs, entered⟩ := bind_eq_value entered
  cases entered
  obtain ⟨new, unbound, outer⟩ := openScopeHere_eq_value opens
  have there : opened.store.HasEnvironment loop := unbound.declarative.present
  have later := (reaches_of_run declares).trans (reaches_of_run runs)
  obtain ⟨ended, ran, store, -⟩ := withScope_eq_value runs
  have here : ((Bracket.scope loop).entered declared).control.lexical = loop :=
    lexical_withLexical (by rwa [control_of_run declares, control_of_run opens]) loop
  -- The names are there when the declaration runs, and have their values when it has run.
  have settled := runDeclaration_settles lexical ran fun part mem => by
    obtain ⟨l, listed, same⟩ := List.mem_map.1 (listed part mem)
    rw [here, ← same]
    exact bound_of_declareLexical unbound.declarative declares l listed
  refine ⟨new, returns, reached, there.mono later, (later.outer_eq there).trans outer,
    fun name mem => ?_⟩
  obtain ⟨part, among, rfl⟩ := List.mem_map.1 mem
  rw [store, ← here]
  exact settled part among

namespace LoopRound

variable {before : Machine} {round : LoopRound} {first : Option (Evaluation Value)}

/-- The round is entered from where the body of another one has ended, and copies its names from the
environment of that one. -/
structure Follows (names : List String) (test update : Option (Evaluation Value))
    (body : Evaluation Ending) (earlier later : LoopRound) : Prop where
  ended : ∃ ending,
    (withScope earlier.env body).run earlier.entered = (.value ending, later.before)
  enters : later.Enters names test update earlier.env later.before

/-- The round has an environment of its own beside the one of the round before, which its body runs
in. -/
structure Renewed (names : List String) (outer : EnvironmentId) (round : LoopRound) : Prop where
  renews : round.before.store.Renews round.last round.env names round.ready.store
  houses : round.ready.store.Houses outer names round.env
  began : round.before.store.Reaches round.ready.store
  reaches : round.ready.store.Reaches round.entered.store
  inside : ((Bracket.scope round.env).entered round.entered).control.lexical = round.env

theorem Enters.renewed (enters : round.Enters names test first last before) (nonempty : names ≠ [])
    (running : before.control.frames ≠ []) (houses : before.store.Houses outer names last) :
    round.Renewed names outer ∧ round.entered.control = before.control := by
  obtain ⟨⟨⟨rfl, rfl⟩, copied, updated⟩, tested⟩ := enters
  have here : ((Bracket.scope round.last).entered round.before).control.lexical = round.last :=
    lexical_withLexical running round.last
  obtain ⟨ended, ran, store, ready⟩ := withScope_eq_value copied
  obtain ⟨-, renews⟩ := renews_of_nextScope nonempty
    (fun name mem => here.symm ▸ houses.settled name mem) ran
  rw [here, ← store] at renews
  have control := (control_of_run tested).trans ((control_of_run updated).trans ready)
  refine ⟨⟨renews, renews.houses houses, reaches_of_run copied,
    (reaches_of_run updated).trans (reaches_of_run tested), ?_⟩, control⟩
  exact lexical_withLexical (by rwa [control]) round.env

end LoopRound

namespace LoopRounds

variable {bound : Nat} {first : Option (Evaluation Value)} {value : Value}
  {rounds : List LoopRound} {result : Outcome Ending × Machine}

/-- The first round is entered from where the loop begins, and every other one from where the body
of the round before has ended. -/
theorem chain
    (all : LoopRounds labels names test update body bound first last value m rounds result) :
    (∀ round ∈ rounds.head?, round.Enters names test first last m) ∧
      rounds.IsChain (LoopRound.Follows names test update body) := by
  induction all with
  | unbegun | exhausted | untested | done => exact ⟨nofun, .nil⟩
  | left enters =>
    refine ⟨?_, .singleton _⟩
    rintro _ ⟨⟩
    exact enters
  | @next _ _ _ _ _ _ _ _ rounds _ enters run _ _ ih =>
    refine ⟨?_, ?_⟩
    · rintro _ ⟨⟩
      exact enters
    · cases rounds with
      | nil => exact .singleton _
      | cons later rest =>
        have enters' := ih.1 later rfl
        have before := enters'.begins.follows.2
        exact .cons_cons ⟨⟨_, before ▸ run⟩, before ▸ enters'⟩ ih.2

/-- The loop ends with what comes after its rounds. -/
theorem ready_reaches
    (all : LoopRounds labels names test update body bound first last value m rounds result) :
    ∀ round ∈ rounds, round.ready.store.Reaches result.2.store := by
  have entered : ∀ {first last m round}, LoopRound.Enters names test first last m round →
      round.ready.store.Reaches round.entered.store := fun enters =>
    (reaches_of_run enters.begins.updated).trans (reaches_of_run enters.tested)
  induction all with
  | unbegun | exhausted | untested | done => exact nofun
  | left enters run => exact List.forall_mem_singleton.2 ((entered enters).trans (reaches_of_run run))
  | next enters run _ others ih =>
    have later := reaches_of_run others.eq_run.symm
    exact List.forall_mem_cons.2
      ⟨((entered enters).trans (reaches_of_run run)).trans later, ih⟩

/-- Every round has an environment of its own, and starts when the ones before it are over. -/
theorem renewed
    (all : LoopRounds labels names test update body bound first last value m rounds result)
    (nonempty : names ≠ []) (running : m.control.frames ≠ [])
    (houses : m.store.Houses outer names last) :
    (rounds.Pairwise fun earlier later => earlier.ready.store.Reaches later.before.store) ∧
      ∀ round ∈ rounds, m.store.Reaches round.before.store ∧ round.Renewed names outer := by
  induction all with
  | unbegun | exhausted | untested | done => exact ⟨.nil, nofun⟩
  | left enters =>
    obtain ⟨renewed, control⟩ := enters.renewed nonempty running houses
    exact ⟨List.pairwise_singleton _ _,
      List.forall_mem_singleton.2 ⟨enters.begins.follows.2 ▸ .refl _, renewed⟩⟩
  | @next _ _ _ _ before after round _ _ _ enters run _ _ ih =>
    obtain ⟨renewed, control⟩ := enters.renewed nonempty running houses
    -- What the body does leaves the environment of the round in place for the next one.
    have ran : round.ready.store.Reaches after.store := renewed.reaches.trans (reaches_of_run run)
    obtain ⟨pairwise, each⟩ := ih (by rwa [control_of_run run, control]) (renewed.houses.mono ran)
    have follows := enters.begins.follows.2
    refine ⟨.cons (fun later mem => ran.trans (each later mem).1) pairwise,
      List.forall_mem_cons.2 ⟨⟨follows ▸ .refl _, renewed⟩, fun later mem => ?_⟩⟩
    obtain ⟨since, renewed'⟩ := each later mem
    exact ⟨((follows ▸ renewed.began).trans ran).trans since, renewed'⟩

end LoopRounds

end Evaluate

end ScriptEngine
