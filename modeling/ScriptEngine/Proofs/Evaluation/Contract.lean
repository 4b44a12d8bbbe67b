import ScriptEngine.Proofs.Evaluation.Run
import ScriptEngine.Proofs.Store.Bindings
import ScriptEngine.Proofs.Store.Change

/-!
# Contracts

A contract says what evaluation keeps of the store and of the control state, how the store may
change from one moment to the next, and what may be raised. An evaluation keeps a contract with a
condition on its value if, started where the contract holds, the contract holds at every moment
and it ends with such a value or with something that may be raised. The rules here are those of the
building blocks of evaluations; what an operation keeps follows its definition line by line.

What holds at a moment may depend on the events before it, of which the latest comes first.
-/
namespace ScriptEngine

/-- What evaluation keeps, and which functions may come into being. -/
structure Contract where
  /-- What holds of the store, given the events so far. -/
  store : List Event → Store → Prop
  /-- What a store may become from one moment to the next, given the events so far. -/
  change : List Event → Store → Store → Prop := fun _ _ _ => True
  unchanged : ∀ past s, change past s s := by exact fun _ _ => trivial
  control : Control → Prop
  /-- What the control state is like at every moment, given the store. -/
  running : Store → Control → Prop := fun _ _ => True
  lasts : ∀ {s t : Store} {c : Control}, s.Step t → running s c → running t c := by
    exact fun _ _ => trivial
  raised : Raised → Prop
  /-- The script functions that may be made. -/
  code : FunctionCode → Prop

namespace Contract

/-- The contract lets a store become another one. -/
def Permits (C : Contract) (past : List Event) (s t : Store) : Prop :=
  C.store past s → C.store past t ∧ C.change past s t

/-- What a contract must allow for the operations of the language to keep it. A step that makes no
function and gives no binding its first value is always allowed, and so are errors of the engine
and thrown values. -/
structure Lawful (C : Contract) : Prop where
  quiet : ∀ {past : List Event} {s t : Store}, s.Step t → s.Quiet t →
    (∀ id, s.objects.size ≤ id.index → (t.object id).kind.isFunction = false) → C.Permits past s t
  script : ∀ {past : List Event} {s : Store} {o : Object} {code : FunctionCode}
    {env : EnvironmentId}, o.kind = .script code env → C.code code →
    C.Permits past s (s.allocate o).2
  /-- A binding that has just come into being may get its first value. -/
  introduced : ∀ {past : List Event} {s t u : Store} {env : EnvironmentId} {name : String}
    {binding : Binding} {value : Value}, binding.value = none →
    s.editBindings env (·.create name binding) = (.ok (), t) →
    t.editBindings env (·.setInitial name value) = (.ok (), u) → C.store past s →
    C.Permits past t u
  error : ∀ cause, C.raised (.error cause)
  thrown : ∀ value, C.raised (.thrown value)
  scopeEntered : ∀ {c : Control} (env : EnvironmentId), C.control c → C.control (c.withLexical env)
  callEntered : ∀ {c : Control}, C.control c → C.control { c with depth := c.depth + 1 }
  scopeRuns : ∀ {s : Store} {c : Control} (env : EnvironmentId), C.running s c →
    C.running s (c.withLexical env) := by exact fun _ _ => trivial
  callRuns : ∀ {s : Store} {c : Control}, C.running s c →
    C.running s { c with depth := c.depth + 1 } := by exact fun _ => trivial

/-- A contract to which it does not matter which names have their first values. -/
structure Lenient (C : Contract) : Prop where
  initial : ∀ {past : List Event} {s t : Store} {env : EnvironmentId} {name : String}
    {value : Value}, s.editBindings env (·.setInitial name value) = (.ok (), t) →
    C.Permits past s t
  noted : ∀ {past : List Event} {s : Store} (event : Event), C.store past s →
    C.store (event :: past) s

end Contract

/-- An outcome with a condition on its value, and on what it raises. -/
def Outcome.Meets {α : Type} (raised : Raised → Prop) (Q : α → Prop) : Outcome α → Prop
  | .value a => Q a
  | .raised r => raised r
  | .exhausted => True

/-- The outcome of an attempt, with a condition on the value and on what was raised. -/
def Attempted {α : Type} (raised : Raised → Prop) (Q : α → Prop) : Except Raised α → Prop
  | .ok a => Q a
  | .error r => raised r

/-- What a round of a loop decides, with conditions on the next state and on the final value. -/
def Evaluation.Round.Meets {σ α : Type} (I : σ → Prop) (Q : α → Prop) : Round σ α → Prop
  | .again state => I state
  | .done a => Q a

/-- The events up to the end of some moments, given those before. -/
def eventsAfter : List Event → List Moment → List Event
  | past, [] => past
  | past, moment :: rest => eventsAfter (moment.event.toList ++ past) rest

theorem eventsAfter_append (past : List Event) (first second : List Moment) :
    eventsAfter past (first ++ second) = eventsAfter (eventsAfter past first) second := by
  induction first generalizing past with
  | nil => rfl
  | cons moment rest ih => exact ih _

theorem eventsAfter_inside (past : List Event) (moments : List Moment) (calls : Nat) :
    eventsAfter past (moments.map (·.inside calls)) = eventsAfter past moments := by
  induction moments generalizing past with
  | nil => rfl
  | cons moment rest ih => exact ih _

/-- The store after some moments, given the one before. -/
def storeAfter : Store → List Moment → Store
  | s, [] => s
  | _, moment :: rest => storeAfter moment.machine.store rest

theorem storeAfter_append (s : Store) (first second : List Moment) :
    storeAfter s (first ++ second) = storeAfter (storeAfter s first) second := by
  induction first generalizing s with
  | nil => rfl
  | cons moment rest ih => exact ih _

theorem Leads.storeAfter {s t : Store} {moments : List Moment} (leads : Leads s moments t) :
    storeAfter s moments = t := by
  induction moments generalizing s with
  | nil => exact leads
  | cons moment rest ih => exact ih leads.2

namespace Contract

open Evaluation

variable {α β σ : Type} {C : Contract}

/-- The contract holds at each of some moments, which come after some events and a store. -/
def Through (C : Contract) : List Event → Store → List Moment → Prop
  | _, _, [] => True
  | past, s, moment :: rest =>
    let known := moment.event.toList ++ past
    C.store known moment.machine.store ∧ C.change known s moment.machine.store ∧
      C.Through known moment.machine.store rest

namespace Through

variable {past : List Event} {s t : Store} {first second : List Moment}

theorem append (before : C.Through past s first)
    (after : C.Through (eventsAfter past first) (storeAfter s first) second) :
    C.Through past s (first ++ second) := by
  induction first generalizing past s with
  | nil => exact after
  | cons moment rest ih => exact ⟨before.1, before.2.1, ih before.2.2 after⟩

theorem stop (through : C.Through past s first) (start : C.store past s) :
    C.store (eventsAfter past first) (storeAfter s first) := by
  induction first generalizing past s with
  | nil => exact start
  | cons moment rest ih => exact ih through.2.2 through.1

/-- One of the moments, and those after it. -/
theorem split {before after : List Moment} {now : Moment}
    (through : C.Through past s (before ++ now :: after)) :
    C.store (eventsAfter past (before ++ [now])) now.machine.store ∧
      C.Through (eventsAfter past (before ++ [now])) now.machine.store after := by
  induction before generalizing past s with
  | nil => exact ⟨through.1, through.2.2⟩
  | cons moment rest ih => exact ih through.2.2

theorem store_of_mem {now : Moment} (through : C.Through past s first) (mem : now ∈ first) :
    ∃ known, C.store known now.machine.store := by
  obtain ⟨before, after, rfl⟩ := List.append_of_mem mem
  exact ⟨_, through.split.1⟩

theorem inside (through : C.Through past s first) (calls : Nat) :
    C.Through past s (first.map (·.inside calls)) := by
  induction first generalizing past s with
  | nil => exact through
  | cons moment rest ih => exact ⟨through.1, through.2.1, ih through.2.2⟩

end Through

/-- Started after some events in some machine, an evaluation keeps the contract at every moment and
at the end. The condition is on its value, the events up to the end and the machine at the end. -/
structure Goes (C : Contract) (past : List Event) (m : Machine) (x : Evaluation α)
    (Q : α → List Event → Machine → Prop) : Prop where
  through : C.Through past m.store (x.moments m)
  stop : C.store (eventsAfter past (x.moments m)) (x.run m).2.store
  meets : (x.run m).1.Meets C.raised fun a => Q a (eventsAfter past (x.moments m)) (x.run m).2
  runs : C.running m.store m.control →
    ∀ moment ∈ x.moments m, C.running moment.machine.store moment.machine.control

/-- An evaluation keeps a contract, with a condition on its value. -/
def Keeps (C : Contract) (x : Evaluation α) (Q : α → Prop) : Prop :=
  ∀ (past : List Event) (m : Machine), C.store past m.store → C.control m.control →
    C.Goes past m x fun a _ _ => Q a

/-- An evaluation keeps a contract, whatever its value is. -/
abbrev Safe (C : Contract) (x : Evaluation α) : Prop := C.Keeps x fun _ => True

/-- Functions run safely. -/
def Calls (C : Contract) (call : ObjectId → Value → List Value → Evaluation Value) : Prop :=
  ∀ f receiver arguments, C.Safe (call f receiver arguments)

/-! ### From one machine -/

/-- What the control state is like does not change while the store does. -/
theorem runs_of_reaches {s t : Store} {c : Control} (reached : s.Reaches t)
    (running : C.running s c) : C.running t c := by
  induction reached with
  | refl => exact running
  | tail _ last ih => exact C.lasts last ih

private theorem runs_single {m : Machine} {store : Store} (follows : m.store.Follows store)
    (event : Option Event) (running : C.running m.store m.control) :
    ∀ moment ∈ [(⟨{ m with store }, 0, event⟩ : Moment)],
      C.running moment.machine.store moment.machine.control := by
  intro moment mem
  cases List.mem_singleton.1 mem
  exact runs_of_reaches follows.reaches running

namespace Goes

variable {past : List Event} {m : Machine} {x : Evaluation α} {f : α → Evaluation β}
  {Q : α → List Event → Machine → Prop} {R : β → List Event → Machine → Prop}

theorem pure {a : α} (store : C.store past m.store) (h : Q a past m) :
    C.Goes past m (pure a) Q := ⟨trivial, store, h, fun _ => nofun⟩

theorem raise {r : Raised} (store : C.store past m.store) (h : C.raised r) :
    C.Goes past m (raise r) Q := ⟨trivial, store, h, fun _ => nofun⟩

theorem ask {question : Store → α} (store : C.store past m.store)
    (h : Q (question m.store) past m) : C.Goes past m (ask question) Q :=
  ⟨trivial, store, h, fun _ => nofun⟩

theorem askControl {question : Control → α} {near : Control.Nearby question}
    (store : C.store past m.store) (h : Q (question m.control) past m) :
    C.Goes past m (askControl question near) Q :=
  ⟨trivial, store, h, fun _ => nofun⟩

theorem note {event : Event} {Q : Unit → List Event → Machine → Prop}
    (known : C.store (event :: past) m.store) (h : Q () (event :: past) m) :
    C.Goes past m (note event) Q :=
  ⟨⟨known, C.unchanged _ m.store, trivial⟩, known, h, runs_single .same (some event)⟩

/-- An event that is noted must be allowed where there is reason to note it. -/
theorem noteIf {reason : Store → Bool} {event : Event} {Q : Unit → List Event → Machine → Prop}
    (store : C.store past m.store) (known : reason m.store = true → C.store (event :: past) m.store)
    (h : ∀ past', Q () past' m) : C.Goes past m (noteIf reason event) Q := by
  have run : (Evaluation.noteIf reason event).run m = (.value (), m) := rfl
  have moments : (Evaluation.noteIf reason event).moments m =
      if reason m.store then [⟨m, 0, some event⟩] else [] := rfl
  cases answer : reason m.store with
  | false =>
    rw [answer] at moments
    exact ⟨by rw [moments]; trivial, by rw [moments]; exact store, h _, by rw [moments]; nofun⟩
  | true =>
    rw [answer] at moments
    have known := known answer
    exact ⟨by rw [moments]; exact ⟨known, C.unchanged _ _, trivial⟩, by rw [moments]; exact known,
      h _, by rw [moments]; exact runs_single .same (some event)⟩

/-- Without reason nothing is noted. -/
theorem noteIf_of_false {reason : Store → Bool} {event : Event} (store : C.store past m.store)
    (groundless : reason m.store = false) :
    C.Goes past m (Evaluation.noteIf reason event) fun _ past' m' => past' = past ∧ m' = m := by
  have moments : (Evaluation.noteIf reason event).moments m = [] := by
    simp only [Evaluation.noteIf, groundless, Bool.false_eq_true, if_false]
  exact ⟨by rw [moments]; trivial, by rw [moments]; exact store, by rw [moments]; exact ⟨rfl, rfl⟩,
    fun _ => by rw [moments]; exact List.forall_mem_nil _⟩

theorem step {change : Store → α × Store} {elementary : ∀ s : Store, s.Step (change s).2}
    (store : C.store past m.store) (permits : C.Permits past m.store (change m.store).2)
    (h : Q (change m.store).1 past { m with store := (change m.store).2 }) :
    C.Goes past m (step change elementary) Q :=
  ⟨⟨(permits store).1, (permits store).2, trivial⟩, (permits store).1, h,
    runs_single (.step (elementary m.store)) none⟩

/-- What comes after a value starts where the first part has ended. -/
theorem bind (first : C.Goes past m x Q)
    (second : ∀ a past' m', m.store.Reaches m'.store → m'.control = m.control →
      C.store past' m'.store → Q a past' m' → C.Goes past' m' (f a) R) :
    C.Goes past m (x >>= f) R := by
  obtain ⟨through, stop, meets, runs⟩ := first
  have leads := (x.passage m).leads
  have reached := x.steps m
  have returns := x.returns m
  have run : (x >>= f).run m = andThen f (x.run m) := rfl
  have moments : (x >>= f).moments m = x.moments m ++ momentsAfter f (x.run m) := rfl
  cases eq : x.run m with
  | mk outcome after =>
    rw [eq] at stop meets leads reached returns run moments
    cases outcome with
    | value a =>
      have next := second a _ after reached returns stop meets
      refine ⟨moments ▸ through.append (leads.storeAfter ▸ next.through),
        by rw [moments, run, eventsAfter_append]; exact next.stop,
        by rw [moments, run, eventsAfter_append]; exact next.meets, fun running moment mem => ?_⟩
      rw [moments, List.mem_append] at mem
      rcases mem with mem | mem
      · exact runs running moment mem
      · exact next.runs (returns ▸ runs_of_reaches reached running) moment mem
    | raised r =>
      have moments : (x >>= f).moments m = x.moments m := moments.trans (List.append_nil _)
      exact ⟨moments ▸ through, by rw [moments, run]; exact stop, by rw [run]; exact meets,
        moments ▸ runs⟩
    | exhausted =>
      have moments : (x >>= f).moments m = x.moments m := moments.trans (List.append_nil _)
      exact ⟨moments ▸ through, by rw [moments, run]; exact stop, by rw [run]; trivial,
        moments ▸ runs⟩

theorem weaken {Q' : α → List Event → Machine → Prop} (h : C.Goes past m x Q)
    (weaker : ∀ a past' m', m.store.Reaches m'.store → m'.control = m.control →
      C.store past' m'.store → Q a past' m' → Q' a past' m') : C.Goes past m x Q' := by
  refine ⟨h.through, h.stop, ?_, h.runs⟩
  have met := h.meets
  have stop := h.stop
  have reached := x.steps m
  have returns := x.returns m
  revert met stop reached returns
  obtain ⟨outcome, after⟩ := x.run m
  cases outcome with
  | value a => exact fun met stop reached returns => weaker a _ after reached returns stop met
  | raised r => exact fun met _ _ _ => met
  | exhausted => exact fun _ _ _ _ => trivial

/-- What is known of the run is known of the end. -/
theorem also {R : α → Machine → Prop} (h : C.Goes past m x Q)
    (known : ∀ a after, x.run m = (.value a, after) → R a after) :
    C.Goes past m x fun a past' m' => Q a past' m' ∧ R a m' := by
  refine ⟨h.through, h.stop, ?_, h.runs⟩
  have met := h.meets
  cases eq : x.run m with
  | mk outcome after =>
    rw [eq] at met
    cases outcome with
    | value a => exact ⟨met, known a after eq⟩
    | raised r => exact met
    | exhausted => trivial

/-- Where the run is known, so is the end. -/
theorem ran (h : C.Goes past m x Q) {a : α} {after : Machine} (run : x.run m = (.value a, after)) :
    C.Goes past m x fun a' past' m' => Q a' past' m' ∧ a' = a ∧ m' = after :=
  h.also fun a' after' run' => by
    rw [run] at run'
    cases run'
    exact ⟨rfl, rfl⟩

theorem attempt {why : Attempt} (h : C.Goes past m x Q) :
    C.Goes past m (attempt why x) fun result past' m' =>
      Attempted C.raised (fun a => Q a past' m') result := by
  obtain ⟨through, stop, meets, runs⟩ := h
  have run : (Evaluation.attempt why x).run m = attemptRun (x.run m) := rfl
  have moments : (Evaluation.attempt why x).moments m = x.moments m := rfl
  cases eq : x.run m with
  | mk outcome after =>
    rw [eq] at stop meets run
    refine ⟨through, ?_, ?_, runs⟩
    · rw [moments, run]
      cases outcome <;> exact stop
    · rw [moments, run]
      cases outcome <;> exact meets

/-- Inside of a bracket the control state is the one that the bracket enters. -/
theorem bracket {b : Bracket} (store : C.store past m.store)
    (refused : ∀ cause, b.refusal m.control = some cause → C.raised (.error cause))
    (entering : C.running m.store m.control → C.running m.store (b.enter m.control))
    (inside : b.refusal m.control = none → C.Goes past (b.entered m) x fun a past' m' =>
      Q a past' (b.left m m')) : C.Goes past m (bracket b x) Q := by
  cases free : b.refusal m.control with
  | some cause =>
    have run := run_bracket_refused free x
    have moments := moments_bracket_refused free x
    exact ⟨by rw [moments]; trivial, by rw [moments, run]; exact store,
      by rw [run]; exact refused cause free,
      fun _ => by rw [moments]; exact List.forall_mem_nil _⟩
  | none =>
    obtain ⟨through, stop, meets, runs⟩ := inside free
    have run := run_bracket free x
    have moments := moments_bracket free x
    -- Entering and leaving are moments of their own, at which the store is the one inside.
    have events : eventsAfter past ((Evaluation.bracket b x).moments m) =
        eventsAfter past (x.moments (b.entered m)) := by
      rw [moments, Bracket.around, List.cons_append, eventsAfter, eventsAfter_append,
        Option.toList_none, List.nil_append, eventsAfter_inside]
      rfl
    refine ⟨?_, ?_, ?_, fun running moment mem => ?_⟩
    · rw [moments]
      have leads := (x.passage (b.entered m)).leads.inside b.calls
      refine ⟨store, C.unchanged _ _, (through.inside b.calls).append ?_⟩
      rw [eventsAfter_inside, leads.storeAfter]
      exact ⟨stop, C.unchanged _ _, trivial⟩
    · rw [events, run]
      exact stop
    · rw [events, run]
      exact meets
    · rw [moments] at mem
      simp only [Bracket.around, List.cons_append, List.mem_cons, List.mem_append, List.mem_map,
        List.not_mem_nil, or_false] at mem
      rcases mem with rfl | ⟨moment, mem, rfl⟩ | rfl
      · exact entering running
      · exact runs (entering running) moment mem
      -- On leaving, the control state is the one at the start again.
      · rw [b.control_left (x.returns (b.entered m))]
        exact runs_of_reaches (x.steps (b.entered m)) running

/-- The invariant of a loop holds of the state of every round and of the store at its start. -/
theorem iterate {bound : Nat} {body : σ → Evaluation (Round σ α)} {I : σ → Store → Prop}
    {Q : α → Prop} {state : σ}
    (round : ∀ state past m, C.store past m.store → C.control m.control → I state m.store →
      C.Goes past m (body state) fun decided _ m' => decided.Meets (I · m'.store) Q)
    (store : C.store past m.store) (control : C.control m.control) (start : I state m.store) :
    C.Goes past m (iterate bound body state) fun a _ _ => Q a := by
  induction bound generalizing past m state with
  | zero => exact ⟨trivial, store, trivial, fun _ => nofun⟩
  -- The bound is what the induction is on; the invariant carries the state from round to round.
  | succ bound ih =>
    rw [iterate_succ]
    refine (round state past m store control start).bind
      fun decided _ _ _ returns store' meets => ?_
    cases decided with
    | again state => exact ih store' (returns ▸ control) meets
    | done a => exact pure store' meets

end Goes

namespace Keeps

variable {x : Evaluation α} {f : α → Evaluation β} {Q : α → Prop} {R : β → Prop}

theorem pure {a : α} (h : Q a) : C.Keeps (pure a) Q := fun _ _ store _ => .pure store h

theorem bind (first : C.Keeps x Q) (second : ∀ a, Q a → C.Keeps (f a) R) : C.Keeps (x >>= f) R :=
  fun past m store control =>
    -- The control state comes back as it was, so the second part starts under the contract too.
    (first past m store control).bind fun a past' m' _ returns store' met =>
      second a met past' m' store' (returns ▸ control)

theorem map {g : α → β} (h : C.Keeps x fun a => R (g a)) : C.Keeps (g <$> x) R :=
  h.bind fun _ holds => pure holds

/-- What comes after a part that keeps the contract starts from some machine where it holds. -/
theorem followedBy {past : List Event} {m : Machine} {R : β → List Event → Machine → Prop}
    (first : C.Keeps x Q) (store : C.store past m.store) (control : C.control m.control)
    (second : ∀ a past' m', m.store.Reaches m'.store → m'.control = m.control →
      C.store past' m'.store → C.control m'.control → Q a → C.Goes past' m' (f a) R) :
    C.Goes past m (x >>= f) R :=
  (first past m store control).bind fun a past' m' reached returns store' holds =>
    second a past' m' reached returns store' (returns ▸ control) holds

theorem weaken {Q' : α → Prop} (h : C.Keeps x Q) (weaker : ∀ a, Q a → Q' a) : C.Keeps x Q' :=
  fun past m store control =>
    (h past m store control).weaken fun a _ _ _ _ _ holds => weaker a holds

theorem safe (h : C.Keeps x Q) : C.Safe x := h.weaken fun _ _ => trivial

theorem raise {r : Raised} (h : C.raised r) : C.Keeps (raise r) Q :=
  fun _ _ store _ => .raise store h

theorem ask {question : Store → α} (h : ∀ past s, C.store past s → Q (question s)) :
    C.Keeps (ask question) Q := fun past m store _ => .ask store (h past m.store store)

theorem askControl {question : Control → α} {near : Control.Nearby question}
    (h : ∀ c, C.control c → Q (question c)) : C.Keeps (askControl question near) Q :=
  fun _ m store control => .askControl store (h m.control control)

theorem compiling : C.Safe compiling := fun _ _ store _ => ⟨trivial, store, trivial, fun _ => nofun⟩

theorem step {change : Store → α × Store} {elementary : ∀ s : Store, s.Step (change s).2}
    (h : ∀ past s, C.Permits past s (change s).2) : C.Safe (step change elementary) :=
  fun past m store _ => .step store (h past m.store) trivial

theorem attempt {why : Attempt} (h : C.Keeps x Q) :
    C.Keeps (attempt why x) (Attempted C.raised Q) :=
  fun past m store control => (h past m store control).attempt

/-- That the end becomes known makes no difference. -/
theorem reporting (h : C.Keeps x Q) : C.Keeps (reporting x) Q := fun past m store control =>
  let ⟨through, stop, meets, runs⟩ := h past m store control
  ⟨through, stop, meets, runs⟩

theorem ofExcept {result : Except Raised α} (h : Attempted C.raised Q result) :
    C.Keeps (ofExcept result) Q := by
  cases result with
  | ok a => exact pure h
  | error r => exact raise h

/-- Inside of a bracket the control state is the one that the bracket enters. -/
theorem bracket {b : Bracket} (refused : ∀ c cause, b.refusal c = some cause →
      C.raised (.error cause))
    (entered : ∀ c, C.control c → C.control (b.enter c))
    (entering : ∀ s c, C.control c → C.running s c → C.running s (b.enter c))
    (inside : C.Keeps x Q) : C.Keeps (bracket b x) Q := fun past m store control =>
  .bracket store (refused m.control) (entering m.store m.control control) fun _ =>
    inside past (b.entered m) store (entered m.control control)

theorem withFrame {frame : Frame} (entered : ∀ c, C.control c → C.control (c.push frame))
    (entering : ∀ s c, C.control c → C.running s c → C.running s (c.push frame))
    (inside : C.Keeps x Q) : C.Keeps (withFrame frame x) Q :=
  bracket (fun _ _ => nofun) entered entering inside

/-- The invariant of a loop holds of the state of every round. -/
theorem iterate {bound : Nat} {body : σ → Evaluation (Round σ α)} {I : σ → Prop} {state : σ}
    (round : ∀ state, I state → C.Keeps (body state) (Round.Meets I Q)) (start : I state) :
    C.Keeps (iterate bound body state) Q := fun _ _ store control =>
  .iterate (I := fun state _ => I state) (fun state past m store control holds =>
    round state holds past m store control) store control start

theorem forM {g : α → Evaluation Unit} {items : List α} (each : ∀ a ∈ items, C.Safe (g a)) :
    C.Safe (items.forM g) := by
  induction items with
  | nil => exact pure trivial
  | cons a rest ih =>
    exact (each a List.mem_cons_self).bind
      fun _ _ => ih fun b mem => each b (List.mem_cons_of_mem a mem)

theorem asked (question : Store → α) : C.Safe (Evaluation.ask question) :=
  ask fun _ _ _ => trivial

theorem askedControl (question : Control → α) {near : Control.Nearby question} :
    C.Safe (Evaluation.askControl question near) :=
  askControl fun _ _ => trivial

/-- Whatever the store is asked, the contract is kept. -/
theorem asking {γ : Type} {question : Store → γ} {f : γ → Evaluation β}
    (second : ∀ a, C.Keeps (f a) R) : C.Keeps (Evaluation.ask question >>= f) R :=
  (asked question).bind fun a _ => second a

theorem askingControl {γ : Type} {question : Control → γ} {near : Control.Nearby question}
    {f : γ → Evaluation β} (second : ∀ a, C.Keeps (f a) R) :
    C.Keeps (Evaluation.askControl question near >>= f) R :=
  (askedControl question).bind fun a _ => second a

end Keeps

namespace Safe

variable {x : Evaluation α} {f : α → Evaluation β} {R : β → Prop}

theorem bind (first : C.Safe x) (second : ∀ a, C.Keeps (f a) R) : C.Keeps (x >>= f) R :=
  Keeps.bind first fun a _ => second a

theorem map {g : α → β} (h : C.Safe x) : C.Safe (g <$> x) := Keeps.map h

end Safe

/-! ### Elementary steps -/

/-- Where an environment has bindings of its own, this is found out when its record is asked for. -/
theorem Goes.askingRecord {past : List Event} {m : Machine} {env : EnvironmentId}
    {f : Record → Evaluation β} {R : β → List Event → Machine → Prop}
    (declarative : m.store.Declarative env) (store : C.store past m.store)
    (inside : ∀ bindings, C.Goes past m (f (.declarative bindings)) R) :
    C.Goes past m (Evaluation.ask (fun s => (s.environment env).record) >>= f) R := by
  obtain ⟨bindings, record⟩ := declarative.record
  refine (Goes.ask (Q := fun record past' m' =>
    record = .declarative bindings ∧ past' = past ∧ m' = m) store ⟨record, rfl, rfl⟩).bind ?_
  rintro _ past' m' _ _ _ ⟨rfl, rfl, rfl⟩
  exact inside bindings

namespace Lawful

variable {x : Evaluation α} {Q : α → Prop} (lawful : C.Lawful)

include lawful

theorem fail (cause : Cause) : C.Keeps (fail cause) Q := .raise (lawful.error cause)

theorem throw (value : Value) : C.Keeps (raise (.thrown value)) Q := .raise (lawful.thrown value)

theorem withScope (env : EnvironmentId) (inside : C.Keeps x Q) : C.Keeps (withScope env x) Q :=
  .bracket (fun _ _ => nofun) (fun _ control => lawful.scopeEntered env control)
    (fun _ _ _ running => lawful.scopeRuns env running) inside

theorem enteringCall (inside : C.Keeps x Q) : C.Keeps (enteringCall x) Q :=
  .bracket (fun _ cause _ => lawful.error cause) (fun _ control => lawful.callEntered control)
    (fun _ _ _ running => lawful.callRuns running) inside

/-- A step that adds no object makes no function. -/
private theorem keepsSize {past : List Event} {s t : Store} (taken : s.Step t) (quiet : s.Quiet t)
    (size : t.objects.size ≤ s.objects.size) : C.Permits past s t := by
  refine lawful.quiet taken quiet fun id beyond => ?_
  rw [t.object_of_size_le (Nat.le_trans size beyond)]
  rfl

theorem allocated {past : List Event} {m : Machine} (store : C.store past m.store) {o : Object}
    (wellFormed : o.WellFormed) (plain : o.kind.isFunction = false) :
    C.Goes past m (allocate o wellFormed) fun _ past' _ => past' = past := by
  have permits : C.Permits past m.store (m.store.allocate o).2 := by
    refine lawful.quiet (.allocate m.store o wellFormed) (.of_environments rfl) fun id beyond => ?_
    rw [Store.object_allocate]
    split
    · exact plain
    · rw [m.store.object_of_size_le beyond]
      rfl
  exact .step store permits rfl

theorem allocate {o : Object} (wellFormed : o.WellFormed) (plain : o.kind.isFunction = false) :
    C.Safe (allocate o wellFormed) :=
  fun _ _ store _ => (lawful.allocated store wellFormed plain).weaken fun _ _ _ _ _ _ _ => trivial

theorem permits_define {past : List Event} (id : ObjectId) (key : String) (d : Descriptor)
    (s : Store) : C.Permits past s (s.define id key d).2 :=
  lawful.keepsSize (.define s id key d) (.of_environments rfl)
    (Nat.le_of_eq (Store.size_setObject s id _))

theorem define (id : ObjectId) (key : String) (d : Descriptor) : C.Safe (define id key d) :=
  .step fun _ s => lawful.permits_define id key d s

theorem preventExtensions (id : ObjectId) : C.Safe (preventExtensions id) :=
  .step fun _ s => lawful.keepsSize (.preventExtensions s id) (.of_environments rfl)
    (Nat.le_of_eq (Store.size_setObject s id _))

theorem delete (id : ObjectId) (key : String) : C.Safe (delete id key) := by
  refine .step fun _ s => ?_
  refine lawful.keepsSize (.delete s id key) (.of_environments (s.environments_delete id key)) ?_
  unfold Store.delete
  split
  · exact Nat.le_of_eq (Store.size_setObject s id _)
  · exact Nat.le_refl _

/-- A new environment has bindings of its own, but none yet. -/
theorem opened {past : List Event} {m : Machine} (store : C.store past m.store)
    (outer : Option EnvironmentId) :
    C.Goes past m (Evaluation.openEnvironment outer) fun env past' m' =>
      past' = past ∧ m'.store.Unbound env := by
  have permits : C.Permits past m.store (m.store.openEnvironment (.declarative .empty) outer).2 :=
    lawful.keepsSize (.openEnvironment m.store outer) (m.store.quiet_openEnvironment outer)
      (Nat.le_refl _)
  exact .step store permits ⟨rfl, m.store.unbound_openEnvironment outer⟩

theorem openEnvironment (outer : Option EnvironmentId) : C.Safe (openEnvironment outer) :=
  fun _ _ store _ => (lawful.opened store outer).weaken fun _ _ _ _ _ _ _ => trivial

theorem print (line : String) : C.Safe (print line) :=
  .step fun _ s => lawful.keepsSize (.print s line) (.of_environments rfl) (Nat.le_refl _)

end Lawful

/-- An edit of bindings keeps the contract if the contract permits what it does; one that fails
leaves the store alone. -/
theorem Goes.editBindings {past : List Event} {m : Machine} {env : EnvironmentId}
    {edit : Bindings → Except Cause Bindings}
    {elementary : ∀ s t : Store, s.editBindings env edit = (.ok (), t) → s.Step t}
    {Q : Unit → List Event → Machine → Prop} (errors : ∀ cause, C.raised (.error cause))
    (store : C.store past m.store)
    (edited : ∀ t, m.store.editBindings env edit = (.ok (), t) →
      C.Permits past m.store t ∧ Q () past { m with store := t }) :
    C.Goes past m (Evaluation.editBindings env edit elementary) Q := by
  have run : (Evaluation.editBindings env edit elementary).run m =
      (ofRefusal (m.store.editBindings env edit).1,
        { m with store := (m.store.editBindings env edit).2 }) := rfl
  have moments : (Evaluation.editBindings env edit elementary).moments m =
      [⟨{ m with store := (m.store.editBindings env edit).2 }, 0, none⟩] := rfl
  cases eq : m.store.editBindings env edit with
  | mk outcome after =>
    rw [eq] at run moments
    cases outcome with
    | ok =>
      obtain ⟨permits, holds⟩ := edited after eq
      obtain ⟨store', change⟩ := permits store
      exact ⟨by rw [moments]; exact ⟨store', change, trivial⟩, by rw [moments, run]; exact store',
        by rw [moments, run]; exact holds,
        by rw [moments]; exact runs_single (.step (elementary _ _ eq)) none⟩
    | error cause =>
      have same : after = m.store := Store.eq_of_editBindings_error eq
      subst same
      exact ⟨by rw [moments]; exact ⟨store, C.unchanged _ _, trivial⟩,
        by rw [moments, run]; exact store, by rw [run]; exact errors cause,
        by rw [moments]; exact runs_single .same none⟩

namespace Lawful

variable (lawful : C.Lawful)

include lawful

/-- An edit that gives no binding its first value is permitted. -/
theorem permits_editBindings {past : List Event} {s t : Store} {env : EnvironmentId}
    {edit : Bindings → Except Cause Bindings} (taken : s.Step t)
    (edited : s.editBindings env edit = (.ok (), t))
    (quiet : ∀ bs bs', edit bs = .ok bs' → ∀ name, Binding.Quiet (bs.find? name) (bs'.find? name)) :
    C.Permits past s t :=
  lawful.keepsSize taken (Store.quiet_editBindings edited quiet)
    (Nat.le_of_eq (congrArg Array.size (Store.objects_editBindings edited)))

/-- What comes into being must be new. -/
theorem created {past : List Event} {m : Machine} (store : C.store past m.store)
    {env : EnvironmentId} {name : String} (absent : m.store.hasBinding env name = false)
    (binding : Binding) (fresh : binding.value = none) :
    C.Goes past m (create env name binding fresh) fun _ past' m' =>
      past' = past ∧ m.store.editBindings env (·.create name binding) = (.ok (), m'.store) := by
  refine (Goes.noteIf_of_false store absent).bind ?_
  rintro _ _ _ _ _ - ⟨rfl, rfl⟩
  exact .editBindings lawful.error store fun _ edited =>
    ⟨lawful.permits_editBindings (.create env name binding fresh edited) edited
      fun _ _ created => Bindings.create_quiet fresh created, rfl, edited⟩

theorem assign (env : EnvironmentId) (name : String) (value : Value) (strict : Bool) :
    C.Safe (assign env name value strict) :=
  fun _ _ store _ => .editBindings lawful.error store fun _ edited =>
    ⟨lawful.permits_editBindings (.assign env name value strict edited) edited
      fun _ _ assigned => Bindings.assign_quiet assigned, trivial⟩

theorem forget (env : EnvironmentId) (name : String) : C.Safe (forget env name) := by
  refine fun _ _ store _ => .editBindings lawful.error store fun _ edited => ⟨?_, trivial⟩
  refine lawful.permits_editBindings (.forget env name edited) edited fun bs _ deleted key => ?_
  cases deleted
  exact bs.delete_quiet name key

/-- A name that comes into being may get its first value at once. -/
theorem introduced_goes {past : List Event} {m : Machine} (store : C.store past m.store)
    {env : EnvironmentId} {name : String} (absent : m.store.hasBinding env name = false)
    (binding : Binding) (fresh : binding.value = none) (value : Value) :
    C.Goes past m (do create env name binding fresh; setInitial env name value)
      fun _ _ _ => True := by
  refine (lawful.created store absent binding fresh).bind fun _ past' m' _ _ store' there => ?_
  obtain ⟨rfl, there⟩ := there
  exact .editBindings lawful.error store' fun _ initialized =>
    ⟨lawful.introduced fresh there initialized store, trivial⟩

end Lawful

theorem Lenient.setInitial (lenient : C.Lenient) (errors : ∀ cause, C.raised (.error cause))
    (env : EnvironmentId) (name : String) (value : Value) : C.Safe (setInitial env name value) :=
  fun _ _ store _ => .editBindings errors store fun _ edited =>
    ⟨lenient.initial edited, trivial⟩

theorem Lenient.note (lenient : C.Lenient) (event : Event) : C.Safe (note event) :=
  fun _ _ store _ => .note (lenient.noted event store) trivial

theorem Lenient.noteIf (lenient : C.Lenient) (reason : Store → Bool) (event : Event) :
    C.Safe (noteIf reason event) :=
  fun _ _ store _ => .noteIf store (fun _ => lenient.noted event store) fun _ => trivial

/-- It does not matter whether a name is there already. -/
theorem Lenient.create (lenient : C.Lenient) (lawful : C.Lawful) (env : EnvironmentId)
    (name : String) (binding : Binding) (fresh : binding.value = none) :
    C.Safe (create env name binding fresh) :=
  (lenient.noteIf _ _).bind fun _ _ _ store _ => .editBindings lawful.error store fun _ edited =>
    ⟨lawful.permits_editBindings (.create env name binding fresh edited) edited
      fun _ _ created => Bindings.create_quiet fresh created, trivial⟩

/-! ### Other contracts -/

/-- One contract demands no less than another of the store and of what is raised. -/
structure Refines (C D : Contract) : Prop where
  store : ∀ {past : List Event} {s : Store}, C.store past s → D.store past s
  change : ∀ {past : List Event} {s t : Store}, C.change past s t → D.change past s t
  raised : ∀ {r : Raised}, C.raised r → D.raised r
  running : ∀ {s : Store} {c : Control}, C.running s c ↔ D.running s c

theorem Through.refines {D : Contract} (refines : C.Refines D) {past : List Event} {s : Store}
    {moments : List Moment} (through : C.Through past s moments) : D.Through past s moments := by
  induction moments generalizing past s with
  | nil => trivial
  | cons moment rest ih =>
    exact ⟨refines.store through.1, refines.change through.2.1, ih through.2.2⟩

theorem Goes.refines {D : Contract} (refines : C.Refines D) {past : List Event} {m : Machine}
    {x : Evaluation α} {Q : α → List Event → Machine → Prop} (h : C.Goes past m x Q) :
    D.Goes past m x Q := by
  refine ⟨h.through.refines refines, refines.store h.stop, ?_, fun running moment mem =>
    refines.running.1 (h.runs (refines.running.2 running) moment mem)⟩
  have met := h.meets
  revert met
  cases (x.run m).1 with
  | value a => exact id
  | raised r => exact refines.raised
  | exhausted => exact id

/-- The same contract for all control states. -/
def anywhere (C : Contract) : Contract := { C with control := fun _ => True }

theorem refines_anywhere : C.Refines C.anywhere := ⟨id, id, id, Iff.rfl⟩

theorem anywhere_refines : C.anywhere.Refines C := ⟨id, id, id, Iff.rfl⟩

/-- The same contract where a call is in progress. -/
def inCall (C : Contract) : Contract := { C with control := fun c => C.control c ∧ 0 < c.depth }

theorem refines_inCall : C.Refines C.inCall := ⟨id, id, id, Iff.rfl⟩

theorem inCall_refines : C.inCall.Refines C := ⟨id, id, id, Iff.rfl⟩

theorem Lawful.inCall (lawful : C.Lawful) : C.inCall.Lawful where
  quiet := lawful.quiet
  script := lawful.script
  introduced := lawful.introduced
  error := lawful.error
  thrown := lawful.thrown
  scopeEntered {c} env control :=
    ⟨lawful.scopeEntered env control.1, (c.depth_withLexical env).symm ▸ control.2⟩
  callEntered control := ⟨lawful.callEntered control.1, Nat.zero_lt_succ _⟩
  scopeRuns := lawful.scopeRuns
  callRuns := lawful.callRuns

theorem Keeps.inCall {x : Evaluation α} {Q : α → Prop} (h : C.Keeps x Q) : C.inCall.Keeps x Q :=
  fun past m store control => (h past m store control.1).refines refines_inCall

/-- What is entered as a call only has to keep the contract where a call is in progress. -/
theorem Lawful.enteringInCall (lawful : C.Lawful) {x : Evaluation α} {Q : α → Prop}
    (inside : C.inCall.Keeps x Q) : C.Keeps (Evaluation.enteringCall x) Q := by
  intro past m store control
  have entered : C.inCall.control (Bracket.call.entered m).control :=
    ⟨lawful.callEntered control, Nat.zero_lt_succ _⟩
  exact .bracket store (fun _ _ => lawful.error _) lawful.callRuns fun _ =>
    (inside past (Bracket.call.entered m) store entered).refines inCall_refines

theorem Lawful.anywhere (lawful : C.Lawful) : C.anywhere.Lawful where
  quiet := lawful.quiet
  script := lawful.script
  introduced := lawful.introduced
  error := lawful.error
  thrown := lawful.thrown
  scopeEntered _ _ := trivial
  callEntered _ := trivial
  scopeRuns := lawful.scopeRuns
  callRuns := lawful.callRuns

/-- What keeps the contract from any control state keeps it from those that the contract is for. -/
theorem Keeps.here {x : Evaluation α} {Q : α → Prop} (h : C.anywhere.Keeps x Q) : C.Keeps x Q :=
  fun past m store _ => (h past m store trivial).refines anywhere_refines

/-- The contract that demands nothing. -/
def any : Contract where
  store _ _ := True
  control _ := True
  raised _ := True
  code _ := True

theorem any_lawful : any.Lawful where
  quiet _ _ _ _ := ⟨trivial, trivial⟩
  script _ _ _ := ⟨trivial, trivial⟩
  introduced _ _ _ _ _ := ⟨trivial, trivial⟩
  error _ := trivial
  thrown _ := trivial
  scopeEntered _ _ := trivial
  callEntered _ := trivial

theorem any_lenient : any.Lenient where
  initial _ _ := ⟨trivial, trivial⟩
  noted _ _ := trivial

theorem any_safe (x : Evaluation α) : any.Safe x := by
  have through : ∀ moments past s, any.Through past s moments := by
    intro moments
    induction moments with
    | nil => exact fun _ _ => trivial
    | cons moment rest ih => exact fun _ _ => ⟨trivial, trivial, ih _ _⟩
  refine fun past m _ _ => ⟨through _ past m.store, trivial, ?_, fun _ _ _ => trivial⟩
  cases (x.run m).1 <;> trivial

end Contract

end ScriptEngine
