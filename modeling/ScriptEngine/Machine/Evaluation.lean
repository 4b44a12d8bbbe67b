import ScriptEngine.Machine.Moment

/-!
# Evaluations

An evaluation takes a machine to an outcome and a machine, through moments that lie in between.
What every passage has holds of every evaluation by the way it is built: the store changes only by
elementary steps, the control state comes back as it was, whatever the outcome, and calls in
progress are counted. Scopes, frames and calls are entered by brackets that undo what they did;
nothing else touches the control state.

Two more things hold by the way evaluations are built. What a host function raises ends everything
that waits for it, up to an attempt; the incidents of an evaluation are what this is about. And of
the frames only the innermost one matters, since nothing asks for another.
-/
namespace ScriptEngine

/-- How an evaluation ends. One whose loops run longer than they are given time for is
exhausted. -/
inductive Outcome (α : Type) where
  | value (value : α)
  | raised (raised : Raised)
  | exhausted

/-- Who looks at what an evaluation raises. -/
inductive Attempt where
  /-- A `try` statement. -/
  | statement
  /-- The run of a whole script, and whoever reads or describes what it leaves. -/
  | script
deriving DecidableEq

/-- What shows how far something raised gets. -/
inductive Incident where
  /-- A host function has ended with something raised, and left a store. -/
  | failed (raised : Raised) (store : Store)
  /-- Somebody has looked at what an evaluation raises, if it raises anything. -/
  | attempted (why : Attempt)
  /-- The constructor of functions has been called. -/
  | compiling

/-- Unless there was an attempt, what a host function has raised is what is raised in the end, and
nothing has changed since. -/
def Forwards {α : Type} (m : Machine) (incidents : List Incident) (result : Outcome α × Machine) :
    Prop :=
  (∀ why, .attempted why ∉ incidents) →
    ∀ r s, .failed r s ∈ incidents → result = (.raised r, ⟨s, m.control⟩)

/-- Two evaluations end in the same way and leave the same store. -/
def Outcome.Agree {α : Type} (first second : Outcome α × Machine) : Prop :=
  first.1 = second.1 ∧ first.2.store = second.2.store

@[ext]
structure Evaluation (α : Type) where
  run : Machine → Outcome α × Machine
  moments : Machine → List Moment
  incidents : Machine → List Incident
  passage : ∀ m, Passage m (moments m) (run m).2
  forwards : ∀ m, Forwards m (incidents m) (run m)
  near : ∀ (s : Store) (c c' : Control), c.Beside c' → Outcome.Agree (run ⟨s, c⟩) (run ⟨s, c'⟩)

namespace Evaluation

variable {α β σ : Type}

/-- Without incidents there is nothing to forward. -/
theorem forwards_nil (m : Machine) (result : Outcome α × Machine) : Forwards m [] result :=
  fun _ _ _ mem => nomatch mem

theorem steps (x : Evaluation α) (m : Machine) : m.store.Reaches (x.run m).2.store :=
  (x.passage m).leads.reaches

theorem returns (x : Evaluation α) (m : Machine) : (x.run m).2.control = m.control :=
  (x.passage m).returns

/-- Continues with the value of an outcome, if it is one. -/
def andThen (f : α → Evaluation β) : Outcome α × Machine → Outcome β × Machine
  | (.value a, m) => (f a).run m
  | (.raised r, m) => (.raised r, m)
  | (.exhausted, m) => (.exhausted, m)

/-- The moments of what continues with the value of an outcome. -/
def momentsAfter (f : α → Evaluation β) : Outcome α × Machine → List Moment
  | (.value a, m) => (f a).moments m
  | (.raised _, _) | (.exhausted, _) => []

/-- The incidents of what continues with the value of an outcome. -/
def incidentsAfter (f : α → Evaluation β) : Outcome α × Machine → List Incident
  | (.value a, m) => (f a).incidents m
  | (.raised _, _) | (.exhausted, _) => []

theorem passage_andThen (f : α → Evaluation β) (result : Outcome α × Machine) :
    Passage result.2 (momentsAfter f result) (andThen f result).2 := by
  obtain ⟨outcome, m⟩ := result
  cases outcome with
  | value a => exact (f a).passage m
  | raised _ => exact .refl m
  | exhausted => exact .refl m

/-- What the first of two evaluations forwards is not stopped by the second, which then does not
run. -/
theorem forwards_andThen (f : α → Evaluation β) {m : Machine} {incidents : List Incident}
    {result : Outcome α × Machine} (first : Forwards m incidents result)
    (returns : result.2.control = m.control) :
    Forwards m (incidents ++ incidentsAfter f result) (andThen f result) := by
  intro quiet r s mem
  rcases List.mem_append.1 mem with mem | mem
  · rw [first (fun why mem => quiet why (List.mem_append_left _ mem)) r s mem]
    rfl
  · obtain ⟨outcome, after⟩ := result
    cases outcome with
    | value a =>
      have later := (f a).forwards after (fun why mem => quiet why (List.mem_append_right _ mem))
        r s mem
      exact later.trans (by rw [returns])
    | raised _ | exhausted => cases mem

theorem near_andThen (f : α → Evaluation β) {first second : Outcome α × Machine}
    (agree : Outcome.Agree first second) (beside : first.2.control.Beside second.2.control) :
    Outcome.Agree (andThen f first) (andThen f second) := by
  obtain ⟨outcome, s, c⟩ := first
  obtain ⟨outcome', s', c'⟩ := second
  obtain ⟨same, stores⟩ := agree
  cases same
  cases stores
  cases outcome with
  | value a => exact (f a).near s c c' beside
  | raised _ | exhausted => exact ⟨rfl, rfl⟩

/-- Ends at once. -/
def ending (outcome : Outcome α) : Evaluation α where
  run m := (outcome, m)
  moments _ := []
  incidents _ := []
  passage m := .refl m
  forwards m := forwards_nil m _
  near _ _ _ _ := ⟨rfl, rfl⟩

protected def pure (a : α) : Evaluation α := ending (.value a)

protected def bind (x : Evaluation α) (f : α → Evaluation β) : Evaluation β where
  run m := andThen f (x.run m)
  moments m := x.moments m ++ momentsAfter f (x.run m)
  incidents m := x.incidents m ++ incidentsAfter f (x.run m)
  passage m := (x.passage m).trans (passage_andThen f (x.run m))
  forwards m := forwards_andThen f (x.forwards m) (x.returns m)
  near s c c' beside := near_andThen f (x.near s c c' beside) (by
    rw [x.returns, x.returns]
    exact beside)

instance : Monad Evaluation where
  pure := Evaluation.pure
  bind := Evaluation.bind

theorem map_id (x : Evaluation α) : id <$> x = x := by
  ext m : 2
  · change andThen _ (x.run m) = x.run m
    obtain ⟨outcome, m⟩ := x.run m
    cases outcome <;> rfl
  · change x.moments m ++ momentsAfter _ (x.run m) = x.moments m
    obtain ⟨outcome, after⟩ := x.run m
    cases outcome <;> exact List.append_nil _
  · change x.incidents m ++ incidentsAfter _ (x.run m) = x.incidents m
    obtain ⟨outcome, after⟩ := x.run m
    cases outcome <;> exact List.append_nil _

theorem bind_bind {γ : Type} (x : Evaluation α) (f : α → Evaluation β) (g : β → Evaluation γ) :
    x >>= f >>= g = x >>= fun a => f a >>= g := by
  ext m : 2
  · change andThen g (andThen f (x.run m)) = andThen (fun a => Evaluation.bind (f a) g) (x.run m)
    obtain ⟨outcome, m⟩ := x.run m
    cases outcome <;> rfl
  · change x.moments m ++ momentsAfter f (x.run m) ++ momentsAfter g (andThen f (x.run m)) =
      x.moments m ++ momentsAfter (fun a => Evaluation.bind (f a) g) (x.run m)
    rw [List.append_assoc]
    obtain ⟨outcome, after⟩ := x.run m
    cases outcome <;> rfl
  · change x.incidents m ++ incidentsAfter f (x.run m) ++
        incidentsAfter g (andThen f (x.run m)) =
      x.incidents m ++ incidentsAfter (fun a => Evaluation.bind (f a) g) (x.run m)
    rw [List.append_assoc]
    obtain ⟨outcome, after⟩ := x.run m
    cases outcome <;> rfl

instance : LawfulMonad Evaluation :=
  LawfulMonad.mk' Evaluation map_id (fun _ _ => rfl) bind_bind

/-- Ends without a value. -/
def raise (r : Raised) : Evaluation α := ending (.raised r)

/-- Raises an error of the engine. -/
def fail (cause : Cause) : Evaluation α := raise (.error cause)

/-- Ends because the time for a loop is over. -/
def exhaust : Evaluation α := ending .exhausted

/-- Asks something of the store. -/
def ask (question : Store → α) : Evaluation α where
  run m := (.value (question m.store), m)
  moments _ := []
  incidents _ := []
  passage m := .refl m
  forwards m := forwards_nil m _
  near _ _ _ _ := ⟨rfl, rfl⟩

/-- Asks something of the control state, but not of the frames behind the innermost one. -/
def askControl (question : Control → α)
    (near : Control.Nearby question := by
      first
        | exact Control.nearby_lexical
        | exact Control.nearby_receiver
        | exact Control.nearby_strict
        | exact Control.nearby_depth) :
    Evaluation α where
  run m := (.value (question m.control), m)
  moments _ := []
  incidents _ := []
  passage m := .refl m
  forwards m := forwards_nil m _
  near _ c c' beside := ⟨congrArg Outcome.value (near c c' beside), rfl⟩

/-- Lets an event be known. Nothing changes by it. -/
def note (event : Event) : Evaluation Unit where
  run m := (.value (), m)
  moments m := [⟨m, 0, some event⟩]
  incidents _ := []
  passage _ := .single .same (some event)
  forwards m := forwards_nil m _
  near _ _ _ _ := ⟨rfl, rfl⟩

/-- Lets an event be known if there is reason to. Nothing changes by it. -/
def noteIf (reason : Store → Bool) (event : Event) : Evaluation Unit where
  run m := (.value (), m)
  moments m := if reason m.store then [⟨m, 0, some event⟩] else []
  incidents _ := []
  passage m := by
    cases reason m.store with
    | true => exact .single .same (some event)
    | false => exact .refl m
  forwards m := forwards_nil m _
  near _ _ _ _ := ⟨rfl, rfl⟩

/-- Lets it be known that the constructor of functions has been called. Nothing changes by it. -/
def compiling : Evaluation Unit where
  run m := (.value (), m)
  moments _ := []
  incidents _ := [.compiling]
  passage m := .refl m
  forwards _ _ _ _ mem := nomatch List.mem_singleton.1 mem
  near _ _ _ _ := ⟨rfl, rfl⟩

/-- Takes an elementary step. -/
def step (change : Store → α × Store) (h : ∀ s : Store, s.Step (change s).2) : Evaluation α where
  run m :=
    let (a, store) := change m.store
    (.value a, { m with store })
  moments m := [⟨{ m with store := (change m.store).2 }, 0, none⟩]
  incidents _ := []
  passage m := .single (.step (h m.store)) none
  forwards m := forwards_nil m _
  near _ _ _ _ := ⟨rfl, rfl⟩

/-- The outcome of a change that may be refused. -/
def ofRefusal : Except Cause Unit → Outcome Unit
  | .ok () => .value ()
  | .error cause => .raised (.error cause)

/-- Takes an elementary step, or fails and leaves the store as it was. -/
def stepOrFail (change : Store → Except Cause Unit × Store)
    (step : ∀ s t : Store, change s = (.ok (), t) → s.Step t)
    (refusal : ∀ (s t : Store) (cause : Cause), change s = (.error cause, t) → t = s) :
    Evaluation Unit where
  run m :=
    let (outcome, store) := change m.store
    (ofRefusal outcome, { m with store })
  moments m := [⟨{ m with store := (change m.store).2 }, 0, none⟩]
  incidents _ := []
  passage m := by
    refine .single ?_ none
    cases eq : change m.store with
    | mk outcome store =>
      cases outcome with
      | ok => exact .step (step m.store store eq)
      | error cause => exact refusal m.store store cause eq ▸ .same
  forwards m := forwards_nil m _
  near _ _ _ _ := ⟨rfl, rfl⟩

/-- The outcome of an evaluation as a value, so that what was raised can be looked at. -/
def attemptRun : Outcome α × Machine → Outcome (Except Raised α) × Machine
  | (.value a, m) => (.value (.ok a), m)
  | (.raised r, m) => (.value (.error r), m)
  | (.exhausted, m) => (.exhausted, m)

/-- Evaluates and hands over what was raised, if anything was. -/
def attempt (why : Attempt) (x : Evaluation α) : Evaluation (Except Raised α) where
  run m := attemptRun (x.run m)
  moments := x.moments
  incidents m := x.incidents m ++ [.attempted why]
  passage m := by
    have passage := x.passage m
    revert passage
    obtain ⟨outcome, after⟩ := x.run m
    cases outcome <;> exact id
  forwards _ quiet := absurd (List.mem_append_right _ List.mem_cons_self) (quiet why)
  near s c c' beside := by
    have agree := x.near s c c' beside
    revert agree
    obtain ⟨outcome, after⟩ := x.run ⟨s, c⟩
    obtain ⟨outcome', after'⟩ := x.run ⟨s, c'⟩
    rintro ⟨same, stores⟩
    cases same
    cases outcome <;> exact ⟨rfl, stores⟩

/-- What is to be told of the end of a host function. -/
def report : Outcome α × Machine → List Incident
  | (.raised r, after) => [.failed r after.store]
  | (.value _, _) | (.exhausted, _) => []

/-- Evaluates what a host function does. That it ends with something raised becomes known; nothing
else changes by it. -/
def reporting (x : Evaluation α) : Evaluation α where
  run := x.run
  moments := x.moments
  incidents m := x.incidents m ++ report (x.run m)
  passage := x.passage
  forwards m := by
    intro quiet r s mem
    rcases List.mem_append.1 mem with mem | mem
    · exact x.forwards m (fun why mem => quiet why (List.mem_append_left _ mem)) r s mem
    · have returns := x.returns m
      revert mem returns
      obtain ⟨outcome, after⟩ := x.run m
      cases outcome with
      | raised _ =>
        intro mem returns
        cases List.mem_singleton.1 mem
        exact congrArg (fun c => (Outcome.raised r, (⟨after.store, c⟩ : Machine))) returns
      | value _ | exhausted => exact fun mem _ => nomatch mem
  near := x.near

/-- The value of an attempt, raising again what it raised. -/
def ofExcept : Except Raised α → Evaluation α
  | .ok a => pure a
  | .error r => raise r

/-- Evaluates with another control state, and comes back from the one that is left behind. -/
def bracket (b : Bracket) (x : Evaluation α) : Evaluation α where
  run m :=
    match b.refusal m.control with
    | some cause => (.raised (.error cause), m)
    | none =>
      let (outcome, after) := x.run (b.entered m)
      (outcome, b.left m after)
  moments m :=
    match b.refusal m.control with
    | some _ => []
    | none => b.around m (x.run (b.entered m)).2 (x.moments (b.entered m))
  incidents m :=
    match b.refusal m.control with
    | some _ => []
    | none => x.incidents (b.entered m)
  passage m := by
    cases free : b.refusal m.control with
    | some _ => exact .refl m
    | none => exact b.passage free (x.passage (b.entered m))
  forwards m := by
    cases free : b.refusal m.control with
    | some _ => exact forwards_nil m _
    | none =>
      intro quiet r s mem
      have inside := x.forwards (b.entered m) quiet r s mem
      have returns := b.control_left (x.returns (b.entered m))
      simp only [inside] at returns ⊢
      exact congrArg (fun c => (Outcome.raised r, (⟨s, c⟩ : Machine))) returns
  near s c c' beside := by
    obtain ⟨refusal, entered⟩ := b.near c c' beside
    simp only [← refusal]
    cases b.refusal c with
    | some _ => exact ⟨rfl, rfl⟩
    | none => exact x.near s (b.enter c) (b.enter c') entered

/-- Evaluates with names looked up in another environment. -/
def withScope (env : EnvironmentId) (x : Evaluation α) : Evaluation α := bracket (.scope env) x

/-- Evaluates in a frame of its own. -/
def withFrame (frame : Frame) (x : Evaluation α) : Evaluation α := bracket (.frame frame) x

/-- Evaluates as a call, unless too many calls are in progress already. -/
def enteringCall (x : Evaluation α) : Evaluation α := bracket .call x

/-- What one round of a loop decides. -/
inductive Round (σ α : Type) where
  | again (state : σ)
  | done (value : α)

def iterateRun (body : σ → Evaluation (Round σ α)) : Nat → σ → Machine → Outcome α × Machine
  | 0, _, m => (.exhausted, m)
  | bound + 1, state, m =>
    match (body state).run m with
    | (.value (.done a), m) => (.value a, m)
    | (.value (.again state), m) => iterateRun body bound state m
    | (.raised r, m) => (.raised r, m)
    | (.exhausted, m) => (.exhausted, m)

def iterateMoments (body : σ → Evaluation (Round σ α)) : Nat → σ → Machine → List Moment
  | 0, _, _ => []
  | bound + 1, state, m =>
    (body state).moments m ++
      match (body state).run m with
      | (.value (.again state), m) => iterateMoments body bound state m
      | _ => []

def iterateIncidents (body : σ → Evaluation (Round σ α)) : Nat → σ → Machine → List Incident
  | 0, _, _ => []
  | bound + 1, state, m =>
    (body state).incidents m ++
      match (body state).run m with
      | (.value (.again state), m) => iterateIncidents body bound state m
      | _ => []

theorem iterate_passage (body : σ → Evaluation (Round σ α)) (bound : Nat) (state : σ)
    (m : Machine) :
    Passage m (iterateMoments body bound state m) (iterateRun body bound state m).2 := by
  induction bound generalizing state m with
  | zero => exact .refl m
  | succ bound ih =>
    unfold iterateMoments iterateRun
    refine ((body state).passage m).trans ?_
    obtain ⟨outcome, after⟩ := (body state).run m
    cases outcome with
    | value decided =>
      cases decided with
      | again state => exact ih state after
      | done _ => exact .refl after
    | raised _ => exact .refl after
    | exhausted => exact .refl after

theorem iterate_forwards (body : σ → Evaluation (Round σ α)) (bound : Nat) (state : σ)
    (m : Machine) :
    Forwards m (iterateIncidents body bound state m) (iterateRun body bound state m) := by
  induction bound generalizing state m with
  | zero => exact forwards_nil m _
  | succ bound ih =>
    unfold iterateIncidents iterateRun
    intro quiet r s mem
    have first := (body state).forwards m fun why mem => quiet why (List.mem_append_left _ mem)
    have returns := (body state).returns m
    rcases List.mem_append.1 mem with mem | mem
    · rw [first r s mem]
    · replace quiet := fun why mem => quiet why (List.mem_append_right _ mem)
      revert quiet mem returns
      obtain ⟨outcome, after⟩ := (body state).run m
      cases outcome with
      | value decided =>
        cases decided with
        | again state =>
          exact fun returns mem quiet => (ih state after quiet r s mem).trans (by rw [returns])
        | done _ => exact fun _ mem => nomatch mem
      | raised _ | exhausted => exact fun _ mem => nomatch mem

theorem iterate_near (body : σ → Evaluation (Round σ α)) (bound : Nat) (state : σ) (s : Store)
    {c c' : Control} (beside : c.Beside c') :
    Outcome.Agree (iterateRun body bound state ⟨s, c⟩) (iterateRun body bound state ⟨s, c'⟩) := by
  induction bound generalizing state s with
  | zero => exact ⟨rfl, rfl⟩
  | succ bound ih =>
    unfold iterateRun
    have agree := (body state).near s c c' beside
    have returns := (body state).returns ⟨s, c⟩
    have returns' := (body state).returns ⟨s, c'⟩
    revert agree returns returns'
    obtain ⟨outcome, t, d⟩ := (body state).run ⟨s, c⟩
    obtain ⟨outcome', t', d'⟩ := (body state).run ⟨s, c'⟩
    rintro ⟨same, stores⟩ returns returns'
    cases same
    cases stores
    cases returns
    cases returns'
    cases outcome with
    | value decided =>
      cases decided with
      | again state => exact ih state t
      | done _ => exact ⟨rfl, rfl⟩
    | raised _ | exhausted => exact ⟨rfl, rfl⟩

/-- Repeats a round until it is done, for at most `bound` rounds. -/
def iterate (bound : Nat) (body : σ → Evaluation (Round σ α)) (state : σ) : Evaluation α where
  run := iterateRun body bound state
  moments := iterateMoments body bound state
  incidents := iterateIncidents body bound state
  passage := iterate_passage body bound state
  forwards := iterate_forwards body bound state
  near s _ _ := iterate_near body bound state s

/-! ## Elementary steps -/

/-- Adds an object. -/
def allocate (o : Object) (h : o.WellFormed) : Evaluation ObjectId :=
  step (·.allocate o) fun s => .allocate s o h

/-- Defines a property; the value says whether that was allowed. -/
def define (id : ObjectId) (key : String) (d : Descriptor) : Evaluation Bool :=
  step (·.define id key d) fun s => .define s id key d

/-- Deletes a property; the value says whether the property is gone. -/
def delete (id : ObjectId) (key : String) : Evaluation Bool :=
  step (·.delete id key) fun s => .delete s id key

def preventExtensions (id : ObjectId) : Evaluation Unit :=
  step (fun s => ((), s.preventExtensions id)) fun s => .preventExtensions s id

/-- Adds an environment without bindings. -/
def openEnvironment (outer : Option EnvironmentId) : Evaluation EnvironmentId :=
  step (·.openEnvironment (.declarative .empty) outer) fun s => .openEnvironment s outer

/-- Adds an environment without bindings inside another. -/
def openScope (outer : EnvironmentId) : Evaluation EnvironmentId := openEnvironment (some outer)

/-- Adds an environment without bindings inside the one of the code that is running. -/
def openScopeHere : Evaluation EnvironmentId := do openScope (← askControl (·.lexical))

/-- Changes the bindings of an environment, or fails. -/
def editBindings (env : EnvironmentId) (edit : Bindings → Except Cause Bindings)
    (step : ∀ s t : Store, s.editBindings env edit = (.ok (), t) → s.Step t) : Evaluation Unit :=
  stepOrFail (·.editBindings env edit) step fun _ _ _ => Store.eq_of_editBindings_error

/-- Adds a binding, without a value, to the bindings of an environment. -/
def create (env : EnvironmentId) (name : String) (binding : Binding)
    (fresh : binding.value = none := by rfl) : Evaluation Unit := do
  noteIf (·.hasBinding env name) (.taken env name)
  editBindings env (·.create name binding) fun _ _ => .create env name binding fresh

/-- Gives a binding of an environment its first value. -/
def setInitial (env : EnvironmentId) (name : String) (value : Value) : Evaluation Unit :=
  editBindings env (·.setInitial name value) fun _ _ => .setInitial env name value

/-- Assigns to a binding of an environment. -/
def assign (env : EnvironmentId) (name : String) (value : Value) (strict : Bool) :
    Evaluation Unit :=
  editBindings env (·.assign name value strict) fun _ _ => .assign env name value strict

/-- Removes a binding of an environment if it may be removed. -/
def forget (env : EnvironmentId) (name : String) : Evaluation Unit :=
  editBindings env (fun bindings => .ok (bindings.delete name).1) fun _ _ => .forget env name

def print (line : String) : Evaluation Unit :=
  step (fun s => ((), s.print line)) fun s => .print s line

end Evaluation

end ScriptEngine
