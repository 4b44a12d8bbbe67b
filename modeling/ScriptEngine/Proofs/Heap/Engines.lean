import ScriptEngine.Proofs.Engine.Control
import ScriptEngine.Proofs.Engine.History
import ScriptEngine.Proofs.Heap.Installation

/-!
# The heap of an engine

A host that hands over nothing but what is there keeps the store of an engine one that is allowed,
at every moment of its history (`GroundedHistory.allows`). What it evaluates are whole scripts,
whose value is read and whose error is described, calls, and the values of global names.
-/
namespace ScriptEngine

open Evaluation Operation Evaluate

namespace Regime

variable {R : Regime} {s : Store}

/-! ### Outermost evaluations -/

section

variable {call : Caller} (calls : R.Calls call) {bound : Nat} {tree : ScriptTree}

include calls

theorem settled_keeps {completion : Completion Remainder} (has : R.HasCompletion s completion) :
    R.Keeps s (Engine.settled call completion) R.HasEnding := by
  unfold Engine.settled
  split
  next r =>
    have place : R.HasReference s r := has _ rfl
    refine (getValue_keeps calls place).attempt.bind fun result _ attempted => ?_
    cases result with
    | ok value => exact .pure (.normal attempted)
    | error raised => exact (caught_keeps attempted).bind fun _ _ there => .pure (.normal there)
  next v => exact .pure (.normal (has _ rfl))
  next v => exact .pure (.normal (has _ rfl))
  · split
    · exact .raise trivial
    · exact .pure .empty

theorem execution_keeps (fits : R.Fits (.script tree)) :
    R.Keeps s (Engine.execution call bound tree) R.HasEnding :=
  .given fun allows =>
    (runScript_keeps calls fits allows.closed.globalEnvironment fun _ => rfl).bind
      fun _ _ has => settled_keeps calls has

theorem readablePart_keeps {value : Value} {key : String} (has : R.HasValue s value) :
    R.Safe s (Engine.readablePart call value key) := by
  refine (getV_keeps calls has).attempt.bind fun part _ attempted => ?_
  split
  · exact .pure trivial
  · exact .pure trivial
  · exact (toText_keeps calls attempted).attempt.bind fun _ _ _ => .pure trivial

theorem description_keeps {value : Value} (has : R.HasValue s value) :
    R.Safe s (Engine.description call value) := by
  unfold Engine.description
  split
  · refine (readablePart_keeps calls has).bind fun name reached _ => ?_
    refine (readablePart_keeps calls (has.mono reached)).bind fun message _ _ => ?_
    split <;> exact .pure trivial
  · exact .ask fun _ => trivial

theorem scriptValue_keeps (fits : R.Fits (.script tree)) :
    R.Safe s (Engine.scriptValue call bound tree) := by
  refine (execution_keeps calls fits).bind fun completion _ has => ?_
  cases completion with
  | normal value => exact .pure trivial
  | throws value =>
    exact (description_keeps calls (has value rfl)).bind fun _ _ _ => .pure trivial
  | returns | breaks | continues => exact .raise trivial

theorem binding_keeps {name : String} : R.Keeps s (Engine.binding call name) R.HasValue :=
  resolve_keeps.bind fun _ _ has => getValue_keeps calls has

end

/-! ### A regime without limits -/

/-- Any functions may be there, any loops may run, and nothing is hidden. -/
def free (confined : Prop) : Regime where
  code _ := True
  native _ := True
  confined := confined
  endless := True

theorem free_fits (confined : Prop) (piece : Piece) : (free confined).Fits piece := by
  intro path inner _
  cases inner with
  | script | block => exact fun _ _ => trivial
  | function => exact ⟨trivial, fun _ _ => trivial⟩
  | statement s =>
    cases s with
    | select => exact fun _ _ => trivial
    | _ => trivial
  | _ => trivial

theorem free_sound (confined : Prop) : (free confined).Sound where
  code _ := free_fits confined _
  constructed _ _ _ := free_fits confined _

theorem free_hasValue {confined : Prop} {v : Value} (has : s.HasValue v) :
    (free confined).HasValue s v :=
  Value.Refers.mono has fun _ there => ⟨there, rfl⟩

theorem allows_store {R : Regime} (nothing : R.native .nothing) (allKnown : ∀ id, R.Known id) :
    R.Allows WellKnown.store where
  closed := Store.closed_store
  kinds := Store.Kinds.store R.kind_of_not_function fun code eq => by
    change R.native code.behaviour
    rwa [eq]
  lasting _ := Store.lasting_store
  known := Store.closed_store.toRefers.mono fun id _ => allKnown id
  kept {id _} apart := by
    rw [allKnown id] at apart
    cases apart

end Regime

/-! ### One store after another -/

/-- A store comes before another in the life of an engine: scripts run in between, and a host adds
objects and puts properties in place. -/
inductive Store.Precedes (s : Store) : Store → Prop where
  | refl : Precedes s s
  | ran {t u : Store} (before : Precedes s t) (reached : t.Reaches u) : Precedes s u
  | set {t u : Store} (before : Precedes s t) (grown : t.Grown u) : Precedes s u

theorem Store.Precedes.trans {s t u : Store} (first : s.Precedes t) (second : t.Precedes u) :
    s.Precedes u := by
  induction second with
  | refl => exact first
  | ran _ reached ih => exact ih.ran reached
  | set _ grown ih => exact ih.set grown

/-- The stores between two others come one after another. -/
theorem Leads.pairwise {s t : Store} {moments : List Moment} (leads : Leads s moments t) :
    moments.Pairwise (fun now later => now.machine.store.Reaches later.machine.store) ∧
      ∀ now ∈ moments, s.Reaches now.machine.store ∧ now.machine.store.Reaches t := by
  induction moments generalizing s with
  | nil => exact ⟨.nil, nofun⟩
  | cons moment rest ih =>
    obtain ⟨follows, onward⟩ := leads
    obtain ⟨ordered, between⟩ := ih onward
    refine ⟨.cons (fun later mem => (between later mem).1) ordered, fun now mem => ?_⟩
    rcases List.mem_cons.1 mem with rfl | mem
    · exact ⟨follows.reaches, onward.reaches⟩
    · exact ⟨follows.reaches.trans (between now mem).1, (between now mem).2⟩

namespace Engine

/-! ### Histories -/

/-- What a host evaluates on an engine with values and environments that are there. If scripts are
confined, they run in the global environment. -/
inductive GroundedEvaluation (confined : Prop) (e : Engine) :
    {α : Type} → Evaluation α → Prop where
  | runWithin (bound : Nat) (p : Program) :
    GroundedEvaluation confined e (scriptValue (e.callerWithin bound) bound p.tree)
  | execute (bound : Nat) (p : Program) :
    GroundedEvaluation confined e (execution (e.callerWithin bound) bound p.tree)
  | executeIn (bound : Nat) (p : Program) {env : EnvironmentId}
    (there : e.machine.store.HasEnvironment env)
    (place : confined → env = WellKnown.globalEnvironment) :
    GroundedEvaluation confined e (runScript (e.callerWithin bound) bound p.tree env)
  | call (bound : Nat) {f receiver : Value} {arguments : List Value}
    (there : e.machine.store.HasValue f) (has : e.machine.store.HasValue receiver)
    (all : e.machine.store.HasAll arguments) :
    GroundedEvaluation confined e (callValue (e.callerWithin bound) f receiver arguments)
  | construct (bound : Nat) {f : Value} {arguments : List Value}
    (there : e.machine.store.HasValue f) (all : e.machine.store.HasAll arguments) :
    GroundedEvaluation confined e (construct (e.callerWithin bound) f arguments)
  | readWithin (bound : Nat) (name : String) :
    GroundedEvaluation confined e (binding (e.callerWithin bound) name)

/-- An engine that a host gets to by handing over nothing but what is there, with all the moments
since it was created. Any programs run, and the host defines any values, functions and objects. -/
inductive GroundedHistory (confined : Prop) : List Moment → Engine → Prop where
  | create (config : Config) : GroundedHistory confined [(create config).moment] (create config)
  | evaluate {moments : List Moment} {e : Engine} (before : GroundedHistory confined moments e)
    {α : Type} {x : Evaluation α} (hosted : GroundedEvaluation confined e x) :
    GroundedHistory confined (moments ++ x.moments e.machine ++ [(e.perform x).2.moment])
      (e.perform x).2
  | defineValue {moments : List Moment} {e : Engine} (before : GroundedHistory confined moments e)
    (name : String) {value : Value} (there : e.machine.store.HasValue value) :
    GroundedHistory confined (moments ++ [(e.defineValue name value).moment])
      (e.defineValue name value)
  | defineFunction {moments : List Moment} {e : Engine}
    (before : GroundedHistory confined moments e) (m : Method) (isConstructor : Bool) :
    GroundedHistory confined (moments ++ [(e.defineFunction m isConstructor).moment])
      (e.defineFunction m isConstructor)
  | install {moments : List Moment} {e : Engine} (before : GroundedHistory confined moments e)
    (b : BuiltIn) (there : ∀ p ∈ b.properties, e.machine.store.HasValue p.2) :
    GroundedHistory confined (moments ++ [(e.install b).2.moment]) (e.install b).2

variable {R : Regime} {confined : Prop} {e : Engine}

theorem allows_free (config : Config) (confined : Prop) :
    (Regime.free confined).Allows (create config).machine.store ∧
      WellKnown.store.Grown (create config).machine.store :=
  allows_create (R := Regime.free confined) (Regime.allows_store trivial fun _ => rfl) config
    fun _ _ _ => trivial

/-- What a host evaluates goes through stores that are allowed. -/
theorem GroundedEvaluation.keeps {α : Type} {x : Evaluation α}
    (hosted : GroundedEvaluation confined e x) :
    (Regime.free confined).Safe e.machine.store x := by
  have calls : ∀ bound, (Regime.free confined).Calls (e.callerWithin bound) := fun bound =>
    Regime.invoke_keeps (Regime.free_sound confined) bound e.config.maxCallDepth
  have fits := Regime.free_fits confined
  cases hosted with
  | runWithin bound p => exact Regime.scriptValue_keeps (calls bound) (fits _)
  | execute bound p => exact (Regime.execution_keeps (calls bound) (fits _)).safe
  | executeIn bound p there place =>
    exact (Regime.runScript_keeps (calls bound) (fits _) there place).safe
  | call bound there has all =>
    exact (Regime.callValue_keeps (calls bound) (Regime.free_hasValue there)
      (Regime.free_hasValue has) fun v mem => Regime.free_hasValue (all v mem)).safe
  | construct bound there all =>
    exact (Regime.construct_keeps (calls bound) (Regime.free_hasValue there)
      fun v mem => Regime.free_hasValue (all v mem)).safe
  | readWithin bound name => exact (Regime.binding_keeps (calls bound)).safe

theorem GroundedHistory.idle {moments : List Moment}
    (history : GroundedHistory confined moments e) :
    e.Idle := by
  induction history with
  | create config => exact .create config
  | evaluate _ _ ih => exact ih.perform _
  | defineValue _ _ _ ih | defineFunction _ _ _ ih => exact ih
  | install _ b _ ih => exact ih.install b

theorem Idle.hasControl (idle : e.Idle) (s : Store) : R.HasControl s e.machine.control := by
  rw [idle]
  exact nofun

/-- At every moment of a history, the last one included, the store is allowed, and what the frames
mean is there. -/
theorem GroundedHistory.holds {moments : List Moment}
    (history : GroundedHistory confined moments e) :
    (∀ now ∈ moments, (Regime.free confined).Holds now.machine) ∧
      (Regime.free confined).Allows e.machine.store := by
  have last : ∀ {moments : List Moment} {e : Engine},
      (∀ now ∈ moments, (Regime.free confined).Holds now.machine) → e.Idle →
      (Regime.free confined).Allows e.machine.store →
      (∀ now ∈ moments ++ [e.moment], (Regime.free confined).Holds now.machine) ∧
        (Regime.free confined).Allows e.machine.store := fun before idle allows =>
    ⟨List.forall_mem_append.2 ⟨before,
      List.forall_mem_singleton.2 ⟨allows, idle.hasControl _⟩⟩, allows⟩
  induction history with
  | create config =>
    exact @last [] _ nofun (.create config) (allows_free config confined).1
  | @evaluate moments e before α x hosted ih =>
    obtain ⟨between, stop, -⟩ := hosted.keeps e.machine.control ih.2 (before.idle.hasControl _)
    exact last (List.forall_mem_append.2 ⟨ih.1, between⟩) (before.idle.perform x) stop
  | defineValue before name there ih =>
    exact last ih.1 before.idle (allows_defineValue name (Regime.free_hasValue there) ih.2).1
  | defineFunction before m isConstructor ih =>
    exact last ih.1 before.idle (allows_defineFunction (m := m) isConstructor trivial ih.2).1
  | install before b there ih =>
    exact last ih.1 (before.idle.install b) (allows_install ⟨fun _ _ => trivial,
      fun p mem => Regime.free_hasValue (there p mem), fun _ _ => trivial⟩ ih.2).1

/-- At every moment of a history, the last one included, the store is allowed. -/
theorem GroundedHistory.allows {moments : List Moment}
    (history : GroundedHistory confined moments e) :
    (∀ now ∈ moments, (Regime.free confined).Allows now.machine.store) ∧
      (Regime.free confined).Allows e.machine.store :=
  ⟨fun now mem => (history.holds.1 now mem).store, history.holds.2⟩

/-- The moments of a history come one after another, from the store that every engine starts with up
to some store. -/
structure InOrder (moments : List Moment) (s : Store) : Prop where
  pairwise : moments.Pairwise fun now later => now.machine.store.Precedes later.machine.store
  started : ∀ now ∈ moments, WellKnown.store.Precedes now.machine.store
  ended : ∀ now ∈ moments, now.machine.store.Precedes s
  whole : WellKnown.store.Precedes s

/-- What happens next comes after all that was before. -/
private theorem InOrder.append {moments between : List Moment} {s t : Store}
    (ordered : InOrder moments s)
    (chain : between.Pairwise fun now later => now.machine.store.Precedes later.machine.store)
    (first : ∀ later ∈ between, s.Precedes later.machine.store)
    (last : ∀ now ∈ between, now.machine.store.Precedes t) (onward : s.Precedes t) :
    InOrder (moments ++ between) t where
  pairwise := List.pairwise_append.2 ⟨ordered.pairwise, chain,
    fun now mem later mem' => (ordered.ended now mem).trans (first later mem')⟩
  started := List.forall_mem_append.2
    ⟨ordered.started, fun later mem => ordered.whole.trans (first later mem)⟩
  ended := List.forall_mem_append.2
    ⟨fun now mem => (ordered.ended now mem).trans onward, last⟩
  whole := ordered.whole.trans onward

private theorem InOrder.single {moments : List Moment} {s : Store} (ordered : InOrder moments s)
    {after : Engine} (onward : s.Precedes after.machine.store) :
    InOrder (moments ++ [after.moment]) after.machine.store :=
  ordered.append (List.pairwise_singleton _ _) (List.forall_mem_singleton.2 onward)
    (List.forall_mem_singleton.2 .refl) onward

theorem GroundedHistory.inOrder {moments : List Moment}
    (history : GroundedHistory confined moments e) : InOrder moments e.machine.store := by
  induction history with
  | create config =>
    have created := (allows_free config confined).2
    have start : InOrder [] WellKnown.store := ⟨.nil, nofun, nofun, .refl⟩
    exact start.single (.set .refl created)
  | @evaluate moments e before α x hosted ih =>
    obtain ⟨ordered, between⟩ := (x.passage e.machine).leads.pairwise
    have ran : InOrder (moments ++ x.moments e.machine) (x.run e.machine).2.store :=
      ih.append (ordered.imp fun reached => .ran .refl reached)
        (fun later mem => .ran .refl (between later mem).1)
        (fun now mem => .ran .refl (between now mem).2) (.ran .refl (x.steps e.machine))
    exact ran.single .refl
  | defineValue before name there ih =>
    exact ih.single (.set .refl
      (allows_defineValue name (Regime.free_hasValue there) before.allows.2).2)
  | defineFunction before m isConstructor ih =>
    exact ih.single (.set .refl
      (allows_defineFunction (m := m) isConstructor trivial before.allows.2).2)
  | install before b there ih =>
    exact ih.single (.set .refl
      (allows_install ⟨fun _ _ => trivial, fun p mem => Regime.free_hasValue (there p mem),
        fun _ _ => trivial⟩ before.allows.2).2)

end Engine

end ScriptEngine
