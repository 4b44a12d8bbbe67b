import ScriptEngine.Proofs.Engine.Lasting
import ScriptEngine.Proofs.Evaluation.LetLoops
import ScriptEngine.Proofs.Tree.Accepted

/-!
# Closures of loops

A function that is made in a round of a loop looks the names of the loop up in the environment of
that round, or in one inside of it. The environments of two rounds are beside each other, so nothing
that happens to a name in one of them can be seen from the other.

Main result: which rounds a loop has that declares names with `let`, and that assigning to a name in
the environment of a round does not change what functions of the rounds before it read
(`execute_for_rounds`).
-/
namespace ScriptEngine

open Evaluation Operation Evaluate

namespace Store

variable {s t : Store} {env outer : EnvironmentId} {names : List String}

/-! ### Through the life of an engine -/

theorem Houses.lasts (houses : s.Houses outer names env) (precedes : s.Precedes t) :
    t.Houses outer names env := by
  induction precedes with
  | refl => exact houses
  | ran _ reached ih => exact ih.mono reached
  | @set t u _ grown ih =>
    have same : ∀ id, u.environment id = t.environment id := fun id => by
      rw [environment, environment, grown.environments]
    refine ⟨?_, (same env).symm ▸ ih.outer, fun name mem => ?_⟩
    · rw [HasEnvironment, grown.environments]
      exact ih.there
    · obtain ⟨binding, found, rest⟩ := ih.settled name mem
      exact ⟨binding, by rwa [binding?, same env], rest⟩

theorem Inside.lasts (inside : s.Inside outer env) (precedes : s.Precedes t) :
    t.Inside outer env := by
  induction precedes with
  | refl => exact inside
  | ran _ reached ih => exact ih.mono reached
  | @set t u _ grown ih =>
    clear inside
    induction ih with
    | here => exact .here
    | within link _ ih =>
      exact .within (by rwa [environment, grown.environments]) ih

/-- The function closes over an environment, or over one inside of it. -/
def ClosesInside (s : Store) (f : ObjectId) (env : EnvironmentId) : Prop :=
  ∃ code closure, (s.object f).kind = .script code closure ∧ s.Inside env closure

theorem ClosesInside.lasts {f : ObjectId} (closes : s.ClosesInside f env)
    (precedes : s.Precedes t) : t.ClosesInside f env := by
  obtain ⟨code, closure, kind, inside⟩ := closes
  refine ⟨code, closure, ?_, inside.lasts precedes⟩
  induction precedes with
  | refl => exact kind
  | ran _ reached ih => exact reached.kind_script ih
  | @set t u _ grown ih =>
    have there : t.HasObject f := by
      by_contra past
      rw [t.object_of_size_le (Nat.le_of_not_lt past)] at ih
      cases ih
    exact (grown.kind f there).trans ih

/-- Only one environment takes the properties of an object for bindings. -/
def Bare (s : Store) : Prop :=
  ∀ env id, (s.environment env).record = .object id → env = WellKnown.globalObjectEnvironment

theorem bare_store : WellKnown.store.Bare := by
  rintro ⟨i⟩ id record
  match i with
  | 0 => rfl
  | 1 => cases record
  | _ + 2 => cases record

theorem Bare.step (bare : s.Bare) (step : s.Step t) : t.Bare := by
  intro env id record
  rcases step.environment_change env with change | ⟨-, outer, new⟩
  · refine bare env id ?_
    generalize s.environment env = before at change
    generalize t.environment env = after at record change
    cases change with
    | same => exact record
    | edit => cases record
  · rw [new] at record
    cases record

theorem Bare.reaches (bare : s.Bare) (reached : s.Reaches t) : t.Bare := by
  induction reached with
  | refl => exact bare
  | tail _ last ih => exact ih.step last

theorem Bare.lasts (bare : s.Bare) (precedes : s.Precedes t) : t.Bare := by
  induction precedes with
  | refl => exact bare
  | ran _ reached ih => exact ih.reaches reached
  | set _ grown ih =>
    intro env id record
    rw [environment, grown.environments] at record
    exact ih env id record

/-- Inside an environment that is inside another one there are only bindings. -/
theorem Bare.declarative_of_inside (bare : s.Bare) (links : s.LinksDown) {around : EnvironmentId}
    (link : (s.environment outer).outer = some around) (inside : s.Inside outer env) :
    ∃ bindings, (s.environment env).record = .declarative bindings := by
  cases record : (s.environment env).record with
  | declarative bindings => exact ⟨bindings, rfl⟩
  | object id =>
    have below := Nat.lt_of_lt_of_le (links.outer link) (links.index_le_of_inside inside)
    rw [bare env id record] at below
    exact absurd below (Nat.not_lt_zero _)

/-- Links stay as they are where bindings change. -/
theorem LinksDown.of_outer (links : s.LinksDown) (objects : t.objects = s.objects)
    (same : ∀ env, (t.environment env).outer = (s.environment env).outer) : t.LinksDown where
  prototype {id p} link := links.prototype (show (s.object id).prototype = some p by
    rwa [object, objects] at link)
  outer {env next} link := links.outer ((same env).symm.trans link)

/-- A new environment is inside one that is there. -/
theorem LinksDown.openScope (links : s.LinksDown) (there : s.HasEnvironment outer) :
    (s.openEnvironment (.declarative .empty) (some outer)).2.LinksDown where
  prototype link := links.prototype link
  outer {env next} link := by
    rw [environment_openEnvironment] at link
    split at link
    next new =>
      cases link
      exact new ▸ there
    · exact links.outer link

end Store

namespace Evaluate

variable {call : Caller} {m after : Machine} {env : EnvironmentId}

/-- How reading a name ends. -/
def reading (call : Caller) (id : Identifier) (m : Machine) : Outcome Value :=
  ((evaluate call (.identifier id)).run m).1

/-- What is read for a name depends on the bindings of the environment in which it is found. -/
theorem reading_congr {id : Identifier} {m m' : Machine} {holder : EnvironmentId}
    {bindings : Bindings} (found : m.store.resolve m.control.lexical id.name = some holder)
    (found' : m'.store.resolve m'.control.lexical id.name = some holder)
    (record : (m.store.environment holder).record = .declarative bindings)
    (record' : (m'.store.environment holder).record = .declarative bindings) :
    reading call id m = reading call id m' := by
  simp only [reading, evaluate, resolveHere, resolve, askControl, getValue, getBinding, run_bind,
    run_ask, andThen_value, found, found', record, record']
  cases bindings.read id.name <;> rfl

/-- Writing to a name in an environment with bindings of its own changes nothing else. -/
theorem putValue_elsewhere {name : String} (declarative : m.store.Declarative env)
    (strict : Bool) (value : Value) {outcome : Outcome Unit}
    (ran : (putValue call ⟨.environment env, name, strict⟩ value).run m = (outcome, after)) :
    after.store.objects = m.store.objects ∧
      after.store.environments.size = m.store.environments.size ∧
      ∀ id, id ≠ env → after.store.environment id = m.store.environment id := by
  obtain ⟨bindings, record⟩ := declarative.record
  simp only [putValue, setBinding, run_bind, run_ask, andThen_value, record] at ran
  cases edited : m.store.editBindings env (·.assign name value strict) with
  | mk refusal t =>
    have ran : (ofRefusal refusal, { m with store := t }) = (outcome, after) := by
      rw [← ran]
      simp only [assign, editBindings, stepOrFail, edited]
    cases ran
    refine ⟨Store.objects_editBindings edited, Store.size_environments_editBindings edited,
      fun id other => ?_⟩
    cases refusal with
    | ok =>
      rcases Store.environment_editBindings edited id with same | ⟨_, _, _, same, -⟩
      · exact same
      · exact absurd same other
    | error cause => rw [Store.eq_of_editBindings_error edited]

/-- Code inside an environment that has a name for good reads the same for it in every store in
which the environments inside are the same. -/
theorem reading_of_same {s t : Store} {outer inner : EnvironmentId} {names : List String}
    (links : s.LinksDown) (links' : t.LinksDown) (bare : s.Bare)
    (houses : s.Houses outer names inner)
    (same : ∀ id, s.Inside inner id → t.environment id = s.environment id) {id : Identifier}
    (mem : id.name ∈ names) {c : Control} (inside : s.Inside inner c.lexical) :
    reading call id ⟨t, c⟩ = reading call id ⟨s, c⟩ := by
  obtain ⟨binding, found, -⟩ := houses.settled id.name mem
  have record := fun id (within : s.Inside inner id) =>
    bare.declarative_of_inside links houses.outer within
  obtain ⟨holder, within, before, now⟩ := links.resolve_of_inside links' inside
    (Store.hasBinding_of_binding? found) same fun id within => by
      obtain ⟨bindings, record⟩ := record id within
      simp only [Store.hasBinding, same id within, record]
  obtain ⟨bindings, record⟩ := record holder within
  exact reading_congr now before (by rw [same holder within]; exact record) record

/-- How reading a name ends at the start of a call of a function. -/
def readingInCall (call : Caller) (id : Identifier) (f : ObjectId) (closure : EnvironmentId)
    (receiver : Value) (strict : Bool) (m : Machine) : Outcome Value :=
  ((do
    let env ← openScope closure
    withFrame ⟨env, env, receiver, strict, some f⟩ (evaluate call (.identifier id))).run m).1

/-- Whatever is written to a name in one environment, code inside another one reads for it what it
has read before. -/
structure Shielded (id : Identifier) (m : Machine) (env inner : EnvironmentId) : Prop where
  /-- Where it is running. -/
  running : ∀ (call call' : Caller) (strict : Bool) (value : Value) (c : Control),
    m.store.Inside inner c.lexical →
    reading call' id
        ⟨((putValue call ⟨.environment env, id.name, strict⟩ value).run m).2.store, c⟩ =
      reading call' id ⟨m.store, c⟩
  /-- In a function that is called. -/
  called : ∀ (call call' : Caller) (strict : Bool) (value : Value) (f : ObjectId)
    (code : FunctionCode) (closure : EnvironmentId) (receiver : Value),
    (m.store.object f).kind = .script code closure → m.store.Inside inner closure →
    readingInCall call' id f closure receiver code.strict
        ((putValue call ⟨.environment env, id.name, strict⟩ value).run m).2 =
      readingInCall call' id f closure receiver code.strict m

theorem readingInCall_eq (id : Identifier) (f : ObjectId) (closure : EnvironmentId)
    (receiver : Value) (strict : Bool) (m : Machine) :
    let env : EnvironmentId := ⟨m.store.environments.size⟩
    readingInCall call id f closure receiver strict m =
      reading call id ⟨(m.store.openEnvironment (.declarative .empty) (some closure)).2,
        m.control.push ⟨env, env, receiver, strict, some f⟩⟩ := rfl

/-- Code inside one of two environments beside each other reads the same for their names whatever is
written to them in the other one. -/
theorem shielded {outer inner : EnvironmentId} {names : List String} (links : m.store.LinksDown)
    (bare : m.store.Bare) (houses : m.store.Houses outer names env)
    (houses' : m.store.Houses outer names inner) (apart : inner ≠ env) {id : Identifier}
    (mem : id.name ∈ names) : Shielded id m env inner := by
  obtain ⟨binding, found, -⟩ := houses.settled id.name mem
  have written : ∀ (call : Caller) (strict : Bool) (value : Value),
      let after := ((putValue call ⟨.environment env, id.name, strict⟩ value).run m).2
      after.control = m.control ∧ after.store.LinksDown ∧
        after.store.environments.size = m.store.environments.size ∧
        ∀ id, id ≠ env → after.store.environment id = m.store.environment id := by
    intro call strict value after
    have ran : (putValue call ⟨.environment env, id.name, strict⟩ value).run m = (_, after) := rfl
    obtain ⟨objects, size, others⟩ := putValue_elsewhere (.of_binding? found) strict value ran
    refine ⟨control_of_run ran, links.of_outer objects fun id => ?_, size, others⟩
    by_cases here : id = env
    · subst here
      exact (reaches_of_run ran).outer_eq houses.there
    · rw [others id here]
  -- The environment that is written to is not inside the other one, so nothing changes there.
  constructor
  · intro call call' strict value c inside
    obtain ⟨-, links', -, others⟩ := written call strict value
    refine reading_of_same links links' bare houses' (fun id within => others id ?_) mem inside
    rintro rfl
    exact links.not_inside houses'.outer houses.outer apart within
  · intro call call' strict value f code closure receiver _ inside
    obtain ⟨control, links', size, others⟩ := written call strict value
    generalize ((putValue call ⟨.environment env, id.name, strict⟩ value).run m).2 = after at *
    have there : m.store.HasEnvironment closure := inside.present houses'.there
    have there' : after.store.HasEnvironment closure := by rwa [Store.HasEnvironment, size]
    have opens := (Store.Step.openEnvironment m.store (some closure)).reaches
    have opened := m.store.environment_openEnvironment (.declarative .empty) (some closure)
    have opened' := after.store.environment_openEnvironment (.declarative .empty) (some closure)
    rw [readingInCall_eq, readingInCall_eq, control, size]
    refine reading_of_same (links.openScope there) (links'.openScope there') (bare.reaches opens)
      (houses'.mono opens) (fun id within => ?_) mem ?_
    · rw [opened, opened', size]
      split
      · rfl
      · refine others id ?_
        rintro rfl
        exact (links.openScope there).not_inside (houses'.mono opens).outer
          (houses.mono opens).outer apart within
    · exact .within (by rw [opened]; exact congrArg Environment.outer (if_pos rfl))
        (inside.mono opens)

/-! ### Functions that are made -/

theorem kind_of_newFunction {code : FunctionCode} {place : String} {f : ObjectId}
    (made : (newFunction code env place).run m = (.value f, after)) :
    (after.store.object f).kind = .script code env := by
  obtain ⟨f', first, allocated, made⟩ := bind_eq_value made
  obtain ⟨_, second, allocated', made⟩ := bind_eq_value made
  obtain ⟨_, third, defined, made⟩ := bind_eq_value made
  cases made
  have kind : (first.store.object f).kind = .script code env := by
    cases allocated
    exact congrArg Object.kind ((m.store.object_allocate _ _).trans (if_pos rfl))
  exact ((reaches_of_run allocated').trans (reaches_of_run defined)).kind_script kind

/-- The function of an expression closes over where it is evaluated. -/
theorem closesInside_of_functionExpression {code : FunctionCode} {place : String} {f : ObjectId}
    (inside : m.store.Inside env m.control.lexical)
    (made : (functionExpression code place).run m = (.value f, after)) :
    after.store.ClosesInside f env := by
  have reached := reaches_of_run made
  unfold functionExpression at made
  split at made
  · obtain ⟨_, _, asked, made⟩ := bind_eq_value made
    cases asked
    exact ⟨code, _, kind_of_newFunction made, inside.mono reached⟩
  -- A function with a name has one more environment between, for this name.
  · obtain ⟨own, opened, opens, made⟩ := bind_eq_value made
    obtain ⟨-, unbound, link⟩ := openScopeHere_eq_value opens
    obtain ⟨f', first, allocated, made⟩ := bind_eq_value made
    obtain ⟨_, second, created, made⟩ := bind_eq_value made
    obtain ⟨_, third, initialized, made⟩ := bind_eq_value made
    cases made
    have later := (reaches_of_run created).trans (reaches_of_run initialized)
    have within : opened.store.Inside env own :=
      .within link (inside.mono (reaches_of_run opens))
    exact ⟨code, own, later.kind_script (kind_of_newFunction allocated),
      within.mono ((reaches_of_run allocated).trans later)⟩

end Evaluate

namespace Engine

open Evaluate

/--
A loop that declares names with `let` has an environment of its own, in which they get their first
values. Its rounds are given by the run: the first one is entered from there, and every other one
from where the body of the round before has ended, with the update evaluated in the environment of
the round to come. The environment of a round is new; it has the names of the loop and no others,
with the values that they have in the last environment by then, and the same environment outside of
it as the loop has; and the body runs in it.

A function of an expression that is evaluated in an environment, or inside of it, closes over where
that is, for good. At every later moment in the life of an engine, whatever is written to a name in
the environment of a round makes no difference to what code inside the environment of a round before
it, or of the loop, reads for the name, be it running or in a function that is called.
-/
theorem execute_for_rounds {call : Caller} {head : Declaration} {scope : Scope} {m entry : Machine}
    {loop : EnvironmentId} (isLet : head.kind = .let) (declares : head.declarators ≠ [])
    (listed : ∀ part ∈ head.declarators, part.id.name ∈ scope.lexical.map LexicalName.name)
    (running : m.control.frames ≠ [])
    (entered : (enterHead call head scope).run m = (.value loop, entry)) (bound : Nat)
    (labels : List String) (span : Span) (test update : Option Expression) (body : Statement) :
    let names := head.declarators.map (·.id.name)
    let test' := test.map (evaluate call)
    let update' := update.map (evaluate call)
    let body' := execute call bound [] body
    let whole := forRounds bound labels names test' update' body'
    let start := (Bracket.scope loop).entered entry
    (execute call bound labels
          (.forLoop span (some (.declaration head)) test update body scope)).run m =
        (withScope loop whole >>= fun ending => pure (ending.endBreak .undefined)).run entry ∧
      entry.store.Houses m.control.lexical names loop ∧
      (∀ env here code place f made, here.store.Inside env here.control.lexical →
        (functionExpression code place).run here = (.value f, made) →
        ∀ s, made.store.Precedes s → s.ClosesInside f env) ∧
      ∃ rounds,
        (∀ rounds' result,
          LoopRounds labels names test' update' body' bound none loop .undefined start rounds'
              result ↔
            rounds' = rounds ∧ result = whole.run start) ∧
        (∀ first ∈ rounds.head?, first.Enters names test' none loop start) ∧
        rounds.IsChain (LoopRound.Follows names test' update' body') ∧
        (∀ round ∈ rounds, round.Renewed names m.control.lexical) ∧
        ∀ before later after, rounds = before ++ later :: after →
          ∀ earlier ∈ loop :: before.map LoopRound.env,
            ∀ {confined : Prop} {moments : List Moment} {e : Engine},
              GroundedHistory confined moments e → ∀ now ∈ moments,
              later.ready.store.Precedes now.machine.store →
              ∀ id : Identifier, id.name ∈ names →
                Shielded id now.machine later.env earlier := by
  intro names test' update' body' whole start
  have nonempty : names ≠ [] := by simpa [names] using declares
  obtain ⟨-, control, -, houses⟩ :=
    houses_of_enterHead (by rw [isLet]; exact nofun) listed running entered
  have here : start.control.lexical = loop := lexical_withLexical (by rwa [control]) loop
  have running' : start.control.frames ≠ [] := by
    change (entry.control.withLexical loop).frames ≠ []
    rw [control]
    unfold Control.withLexical
    split
    · exact nofun
    · exact running
  have run : whole.run start = (roundsFrom labels names test' update' body' bound none loop
      .undefined).run start := here ▸ forRounds_run bound labels names test' update' body' start
  obtain ⟨rounds, all⟩ := loopRounds_run labels names test' update' body' bound none loop
    .undefined start
  obtain ⟨pairwise, each⟩ := all.renewed nonempty running' houses
  obtain ⟨first, chain⟩ := all.chain
  have made := fun env here code place f made inside ran s precedes =>
    (@closesInside_of_functionExpression here made env code place f inside ran).lasts
      (t := s) precedes
  refine ⟨?_, houses, made, rounds, fun rounds' result => ⟨fun all' => ?_, ?_⟩, first, chain,
    fun round mem => (each round mem).2, ?_⟩
  · unfold execute
    rw [run_bind, forLoop_entered isLet entered, ← run_bind]
  · exact ⟨all'.eq_roundsOf.trans all.eq_roundsOf.symm, all'.eq_run.trans run.symm⟩
  · rintro ⟨rfl, rfl⟩
    rw [run]
    exact all
  · intro before later after split earlier mem confined moments e history now mem' precedes id named
    subst split
    obtain ⟨since, renewed⟩ := each later (List.mem_append_right _ List.mem_cons_self)
    have already : later.before.store.Houses m.control.lexical names earlier := by
      rcases List.mem_cons.1 mem with rfl | mem
      · exact houses.mono since
      · obtain ⟨round, among, rfl⟩ := List.mem_map.1 mem
        have behind := (List.pairwise_append.1 pairwise).2.2 round among later List.mem_cons_self
        exact (each round (List.mem_append_left _ among)).2.houses.mono behind
    -- The environment of a round is new, so it is none of those that are there already.
    have apart : earlier ≠ later.env := by
      rintro rfl
      have there := already.there
      rw [Store.HasEnvironment, renewed.renews.new] at there
      exact Nat.lt_irrefl _ there
    exact shielded (history.allows.1 now mem').closed.toLinksDown
      (Store.bare_store.lasts (history.inOrder.started now mem'))
      (renewed.houses.lasts precedes) ((already.mono renewed.began).lasts precedes) apart named

section

variable {call : Caller} {bound : Nat}

/-- What a sequence begins with comes to a store before the last one. -/
private theorem reaches_bind {α β : Type} (x : Evaluation α) (f : α → Evaluation β) (m : Machine) :
    (x.run m).2.store.Reaches ((x >>= f).run m).2.store :=
  (passage_andThen f (x.run m)).leads.reaches

private theorem reaches_executeScript {statement : Statement} (rest : List Statement)
    (m : Machine) :
    ((executeOutermost call bound statement).run m).2.store.Reaches
      ((executeScript call bound none (statement :: rest)).run m).2.store :=
  reaches_bind (executeOutermost call bound statement) _ m

/-- The frame of the statements of a script in the global environment. -/
def globalFrame (strict : Bool) : Frame :=
  ⟨WellKnown.globalEnvironment, WellKnown.globalEnvironment, .object WellKnown.globalObject, strict,
    none⟩

/-- A script that declares nothing comes to what its first statement ends with. -/
private theorem reaches_runScript {tree : ScriptTree} {statement : Statement}
    {rest : List Statement} {strict : Bool} (body : tree.body = statement :: rest)
    (bare : tree.scope = ⟨strict, [], [], [], []⟩) (m : Machine) :
    ((executeOutermost call bound statement).run
      ⟨m.store, m.control.push (globalFrame strict)⟩).2.store.Reaches
        ((runScript call bound tree WellKnown.globalEnvironment).run m).2.store := by
  have declared : (declareScript WellKnown.globalEnvironment ⟨strict, [], [], [], []⟩).run m =
    (.value WellKnown.globalEnvironment, m) := rfl
  let statements := executeScript call bound none (statement :: rest)
  let framed := (withFrame (globalFrame strict) statements).run m
  refine Store.Reaches.trans (t := framed.2.store) ?_ ?_
  · exact reaches_executeScript rest ⟨m.store, m.control.push (globalFrame strict)⟩
  -- An error that is caught has left its store.
  have caught : (attemptRun framed).2 = framed.2 := by
    obtain ⟨outcome, after⟩ := framed
    cases outcome <;> rfl
  unfold runScript
  rw [body, bare, run_bind, show (attempt .script _).run m = attemptRun _ from rfl, run_bind,
    declared, andThen_value]
  rw [← caught]
  exact (passage_andThen _ _).leads.reaches

/-- The rounds of the loop that a script begins with come before the end of the script. -/
private theorem ready_precedes {tree : ScriptTree} {span : Span} {init : Option ForInit}
    {test update : Option Expression} {body : Statement} {scope : Scope} {rest : List Statement}
    {strict : Bool} {names : List String} {loop : EnvironmentId} {m entry : Machine}
    {rounds : List LoopRound}
    (begins : tree.body = .forLoop span init test update body scope :: rest)
    (bare : tree.scope = ⟨strict, [], [], [], []⟩)
    (run : (execute call bound [] (.forLoop span init test update body scope)).run
        ⟨m.store, m.control.push (globalFrame strict)⟩ =
      (withScope loop (forRounds bound [] names (test.map (evaluate call))
        (update.map (evaluate call)) (execute call bound [] body)) >>= fun ending =>
          pure (ending.endBreak .undefined)).run entry)
    (all : LoopRounds [] names (test.map (evaluate call)) (update.map (evaluate call))
      (execute call bound [] body) bound none loop .undefined ((Bracket.scope loop).entered entry)
      rounds ((forRounds bound [] names (test.map (evaluate call)) (update.map (evaluate call))
        (execute call bound [] body)).run ((Bracket.scope loop).entered entry))) :
    ∀ round ∈ rounds, round.ready.store.Precedes
      ((runScript call bound tree WellKnown.globalEnvironment).run m).2.store := by
  intro round mem
  let start : Machine := ⟨m.store, m.control.push (globalFrame strict)⟩
  let statement : Statement := .forLoop span init test update body scope
  have looped := reaches_bind (withScope loop (forRounds bound [] names (test.map (evaluate call))
    (update.map (evaluate call)) (execute call bound [] body))) (fun ending =>
      pure (ending.endBreak .undefined)) entry
  rw [← run] at looped
  have finished : ((execute call bound [] statement).run start).2.store.Reaches
      ((executeOutermost call bound statement).run start).2.store := reaches_bind _ _ start
  have scripted : ((executeOutermost call bound statement).run start).2.store.Reaches
      ((runScript call bound tree WellKnown.globalEnvironment).run m).2.store :=
    reaches_runScript begins bare m
  exact .ran .refl ((((all.ready_reaches round mem).trans looped).trans finished).trans scripted)

end

/-- The value of a global name is a function that closes over an environment. -/
private def closesOver (s : Store) (name : String) (env : EnvironmentId) : Bool :=
  match s.global.property? name with
  | some (.data (.object f) _ _ _) =>
    match (s.object f).kind with
    | .script _ closure => closure == env
    | _ => false
  | _ => false

private theorem closesInside_of_closesOver {s : Store} {name : String} {env : EnvironmentId}
    (closes : closesOver s name env = true) :
    ∃ f writable enumerable configurable,
      s.global.property? name = some (.data (.object f) writable enumerable configurable) ∧
        s.ClosesInside f env := by
  unfold closesOver at closes
  split at closes
  next f _ _ _ found =>
    split at closes
    next code closure kind =>
      exact ⟨f, _, _, _, found, code, env, eq_of_beq closes ▸ kind, .here⟩
    · cases closes
  · cases closes

/-- A script is a loop over `i` that has three rounds, and leaves in `f` a function that closes over
the environment of the first one. -/
private def keepsFirst (e : Engine) (p : Program) : Bool :=
  match p.tree.body, p.tree.scope with
  | [.forLoop _ (some (.declaration head)) (some test) (some update) body scope],
      ⟨false, [], [], [], []⟩ =>
    head.kind == .let && head.declarators.map (·.id.name) == ["i"] &&
      scope.lexical.map LexicalName.name == ["i"] &&
      match (enterHead e.caller head scope).run
          ⟨e.machine.store, e.machine.control.push (globalFrame false)⟩ with
      | (.value loop, entry) =>
        match roundsOf [] ["i"] (some (evaluate e.caller test)) (some (evaluate e.caller update))
            (execute e.caller loopBound [] body) loopBound none loop
            ((Bracket.scope loop).entered entry) with
        | [first, _, _] =>
          closesOver ((runScript e.caller loopBound p.tree WellKnown.globalEnvironment).run
            e.machine).2.store "f" first.env
        | _ => false
      | _ => false
  | _, _ => false

/-- A loop with three rounds, where a function that is made in the first one is kept. -/
private def keepingLoop : Sample
    "for (let i = 0; i < 3; i++) if (i < 1) f = function () \x7b return i \x7d"
    (keepsFirst (create { builtins := false })) :=
  .ofSource (by decide +kernel)

/-- When the script has ended, the function reads what it has read before, whatever is assigned to
`i` in the rounds after its own. -/
theorem execute_for_rounds_kept :
    let e := create { builtins := false }
    let source := "for (let i = 0; i < 3; i++) if (i < 1) f = function () \x7b return i \x7d"
    let m : Machine := ⟨e.machine.store, e.machine.control.push (globalFrame false)⟩
    ∃ p span head test update body scope, Program.compile source "" false = .ok p ∧
      p.tree.body = [.forLoop span (some (.declaration head)) (some test) (some update) body scope] ∧
      ∃ loop entry first second third result,
        (enterHead e.caller head scope).run m = (.value loop, entry) ∧
        LoopRounds [] ["i"] (some (evaluate e.caller test)) (some (evaluate e.caller update))
          (execute e.caller loopBound [] body) loopBound none loop .undefined
          ((Bracket.scope loop).entered entry) [first, second, third] result ∧
        (∀ round ∈ [first, second, third], round.Renewed ["i"] WellKnown.globalEnvironment) ∧
        let ended :=
          (e.perform (runScript e.caller loopBound p.tree WellKnown.globalEnvironment)).2.machine
        ∃ f writable enumerable configurable,
          ended.store.global.property? "f" =
              some (.data (.object f) writable enumerable configurable) ∧
            ended.store.ClosesInside f first.env ∧
            ∀ later ∈ [second, third], Shielded ⟨"i", span⟩ ended later.env first.env := by
  intro e source m
  obtain ⟨p, compiled, passed⟩ := keepingLoop
  have created : GroundedHistory False [e.moment] e := .create _
  have there : e.machine.store.HasEnvironment WellKnown.globalEnvironment :=
    show 1 < e.machine.store.environments.size by decide
  unfold keepsFirst at passed
  split at passed
  next span head test update body scope statements bare =>
    obtain ⟨shape, kept⟩ := Bool.and_eq_true_iff.1 passed
    obtain ⟨named, listed⟩ := Bool.and_eq_true_iff.1 shape
    obtain ⟨kind, names⟩ := Bool.and_eq_true_iff.1 named
    have names := eq_of_beq names
    have listed := eq_of_beq listed
    split at kept
    next loop entry entered =>
      obtain ⟨run, -, -, rounds, only, -, -, each, shielded⟩ := execute_for_rounds
        (eq_of_beq kind) (fun none => by simp [none] at names)
        (fun part mem => by
          rw [listed, ← names]
          exact List.mem_map_of_mem mem)
        (List.cons_ne_nil _ _) entered loopBound [] span (some test) (some update) body
      rw [names] at run only each shielded
      -- There is just one list of rounds, so it is the one that has been computed.
      have all := (only rounds _).2 ⟨rfl, rfl⟩
      split at kept
      next first second third found =>
        obtain rfl : rounds = [first, second, third] := all.eq_roundsOf.trans found
        obtain ⟨f, _, _, _, global, closes⟩ := closesInside_of_closesOver kept
        -- The script belongs to the history of the engine, and the rounds come before its end.
        have history := created.evaluate (.executeIn loopBound p there fun _ => rfl)
        have precedes := ready_precedes statements bare run all
        have reads : ∀ before later after, [first, second, third] = before ++ later :: after →
            ∀ earlier ∈ loop :: before.map LoopRound.env, Shielded ⟨"i", span⟩
              (e.perform (runScript e.caller loopBound p.tree
                WellKnown.globalEnvironment)).2.machine later.env earlier :=
          fun before later after split earlier mem =>
            shielded before later after split earlier mem history _
              (List.mem_append_right _ List.mem_cons_self)
              (precedes later (split ▸ List.mem_append_right _ List.mem_cons_self))
              ⟨"i", span⟩ List.mem_cons_self
        refine ⟨p, span, head, test, update, body, scope, compiled, statements, loop, entry, first,
          second, third, _, entered, all, each, f, _, _, _, global, closes, ?_⟩
        refine List.forall_mem_cons.2 ⟨?_, List.forall_mem_singleton.2 ?_⟩
        · exact reads [first] second [third] rfl first.env (by simp)
        · exact reads [first, second] third [] rfl first.env (by simp)
      · cases kept
    · cases kept
  · cases passed

end Engine

end ScriptEngine
