import ScriptEngine.Proofs.Check.Pieces
import ScriptEngine.Proofs.Engine.Kinds
import ScriptEngine.Proofs.Evaluation.Contract
import ScriptEngine.Proofs.Library.Natives
import ScriptEngine.Proofs.Store.Closed
import ScriptEngine.Proofs.Store.Lasting

/-!
# What evaluation keeps of a whole heap

A regime says which functions a heap may have, and what scripts may do with it. A store that it
allows is closed: what its objects, functions and bindings refer to is there. That evaluation keeps
this depends on the values that it works with, so the conditions here are about a value and the
store at the time: an evaluation that starts in a store with what it refers to goes on through
stores that are allowed, and what it ends with is there in the last one (`Regime.Keeps`). What is
there stays, so each fact is carried to later stores as they are reached.

A regime may also hide objects. Nothing refers to a hidden object, and none of the values that an
evaluation works with is one, so it stays just as it is.

The rules are those of the building blocks of evaluations.
-/
namespace ScriptEngine

/-- Which functions there may be, and what scripts may do. -/
structure Regime where
  /-- The script functions that there may be. -/
  code : FunctionCode → Prop
  /-- What native functions may do. -/
  native : Native → Prop
  /-- Scripts run only in the global environment. -/
  confined : Prop
  /-- Loops may run for longer than they are given time for. -/
  endless : Prop
  /-- Objects that nothing refers to, so that scripts do not get at them, and what they are. -/
  hidden : ObjectId → Option Object := fun _ => none

namespace Regime

section

variable (R : Regime) (s : Store)

/-- An object of this kind is no function that there may not be. -/
def kind : ObjectKind → Prop
  | .script code _ => R.code code
  | .native code => R.native code.behaviour
  | _ => True

/-- Scripts may get at the object. -/
def Known (id : ObjectId) : Prop := R.hidden id = none

/-! ### What is there and known -/

def HasObject (id : ObjectId) : Prop := s.HasObject id ∧ R.Known id

/-- The object is there and known, if the value is one. -/
def HasValue (v : Value) : Prop := v.Refers (R.HasObject s)

def HasAll (values : List Value) : Prop := ∀ v ∈ values, R.HasValue s v

def HasDescriptor (d : Descriptor) : Prop := d.Refers (R.HasObject s)

/-- What the properties in a dictionary refer to is there and known. -/
def HasSlots (properties : Dictionary Property) : Prop :=
  properties.Each (Property.Refers (R.HasObject s))

/-- What an object refers to is there and known. -/
structure HasParts (o : Object) : Prop where
  prototype : ∀ p ∈ o.prototype, R.HasObject s p
  closure : ∀ {code : FunctionCode} {env : EnvironmentId}, o.kind = .script code env →
    s.HasEnvironment env
  slots : R.HasSlots s o.properties

def HasRaised : Raised → Prop
  | .thrown v => R.HasValue s v
  | .error _ | .fault _ => True

/-- What names and `this` mean in the frame is there and known. -/
structure HasFrame (frame : Frame) : Prop where
  lexical : s.HasEnvironment frame.lexical
  receiver : R.HasValue s frame.receiver

def HasControl (c : Control) : Prop := ∀ frame ∈ c.frames, R.HasFrame s frame

/-- What a reference refers to is there and known. Where no binding can be removed, neither can the
one that it denotes. -/
def HasReference (r : Reference) : Prop :=
  match r.base with
  | .unresolvable => True
  | .property base => R.HasValue s base
  | .environment env => s.HasEnvironment env ∧ (R.confined → s.Fast env r.name)

/-- A store in which everything is there, with the functions that there may be. Where scripts run
only in the global environment, no binding in it can be removed. The hidden objects are there too,
but nothing refers to them. -/
structure Allows : Prop where
  closed : s.Closed
  kinds : s.Kinds R.kind
  lasting : R.confined → s.Lasting
  known : s.Refers R.Known
  kept : ∀ {id : ObjectId} {o : Object}, R.hidden id = some o → s.HasObject id ∧ s.object id = o

/-- The functions that the piece makes may be there, and so may the loop, if it is one without a
limit on its rounds. -/
def Admits : Piece → Prop
  | .function code => R.code code ∧ ∀ inner ∈ code.scope.functions, R.code inner
  | .script tree => ∀ code ∈ tree.scope.functions, R.code code
  | .block body => ∀ code ∈ body.scope.functions, R.code code
  | .statement (.select _ _ _ scope) => ∀ code ∈ scope.functions, R.code code
  | .statement (.whileLoop ..) | .statement (.doLoop ..) | .statement (.forLoop ..) => R.endless
  | _ => True

/-- All pieces in a piece are admitted. -/
def Fits (whole : Piece) : Prop :=
  ∀ (path : Path) (piece : Piece), Occurs whole path piece → R.Admits piece

/-- What functions are made of fits, and so do the programs of the `Function` constructor if there
is one. -/
structure Sound : Prop where
  code : ∀ {code : FunctionCode}, R.code code → R.Fits (.function code)
  constructed : R.native .function → ∀ {p : Program}, p.Constructed → R.Fits (.script p.tree)

/-- The store is allowed, and what the frames mean is there and known. -/
structure Holds (m : Machine) : Prop where
  store : R.Allows m.store
  control : R.HasControl m.store m.control

end

variable {R : Regime} {s t : Store} {α β σ : Type}

/-! ### What is there stays -/

theorem HasObject.of_size_le {id : ObjectId} (has : R.HasObject s id)
    (le : s.objects.size ≤ t.objects.size) : R.HasObject t id :=
  ⟨has.1.of_size_le le, has.2⟩

theorem HasObject.mono {id : ObjectId} (has : R.HasObject s id) (reached : s.Reaches t) :
    R.HasObject t id :=
  has.of_size_le reached.size_le

theorem HasObject.value {id : ObjectId} (has : R.HasObject s id) : R.HasValue s (.object id) := has

theorem HasValue.of_size_le {v : Value} (has : R.HasValue s v)
    (le : s.objects.size ≤ t.objects.size) : R.HasValue t v :=
  Value.Refers.mono has fun _ there => there.of_size_le le

theorem HasValue.mono {v : Value} (has : R.HasValue s v) (reached : s.Reaches t) :
    R.HasValue t v :=
  has.of_size_le reached.size_le

theorem HasAll.mono {values : List Value} (has : R.HasAll s values) (reached : s.Reaches t) :
    R.HasAll t values :=
  fun v mem => (has v mem).mono reached

theorem HasAll.nil : R.HasAll s [] := List.forall_mem_nil _

theorem HasRaised.mono {r : Raised} (has : R.HasRaised s r) (reached : s.Reaches t) :
    R.HasRaised t r := by
  cases r with
  | thrown v => exact HasValue.mono has reached
  | _ => trivial

theorem HasControl.mono {c : Control} (has : R.HasControl s c) (reached : s.Reaches t) :
    R.HasControl t c :=
  fun frame mem => ⟨(has frame mem).lexical.mono reached, (has frame mem).receiver.mono reached⟩

theorem HasControl.withLexical {c : Control} {env : EnvironmentId} (has : R.HasControl s c)
    (there : s.HasEnvironment env) : R.HasControl s (c.withLexical env) := by
  obtain ⟨frames, depth, limit⟩ := c
  cases frames with
  | nil => exact nofun
  | cons frame rest =>
    obtain ⟨first, others⟩ := List.forall_mem_cons.1 has
    exact List.forall_mem_cons.2 ⟨⟨there, first.receiver⟩, others⟩

theorem HasReference.mono {r : Reference} (has : R.HasReference s r) (reached : s.Reaches t) :
    R.HasReference t r := by
  unfold HasReference at has ⊢
  split
  · trivial
  next base eq =>
    rw [eq] at has
    exact HasValue.mono has reached
  next env eq =>
    rw [eq] at has
    exact ⟨has.1.mono reached, fun confined => (has.2 confined).mono reached⟩

/-! ### Trees -/

namespace Fits

variable {whole inner : Piece}

theorem admits (fits : R.Fits whole) : R.Admits whole := fits [] whole .whole

/-- What fits, fits part by part. -/
theorem inside (fits : R.Fits whole) (mem : inner ∈ whole.below) : R.Fits inner :=
  fun _ piece occurs => fits _ piece (occurs.of_below mem)

theorem each {items : List α} {piece : α → Piece} (fits : R.Fits whole)
    (below : whole.below = items.map piece) : ∀ item ∈ items, R.Fits (piece item) :=
  fun _ mem => fits.inside (below ▸ List.mem_map_of_mem mem)

end Fits

/-- Whatever is no function may be there. -/
theorem kind_of_not_function (R : Regime) (kind : ObjectKind) (plain : kind.isFunction = false) :
    R.kind kind := by
  cases kind with
  | script | native => cases plain
  | _ => trivial

/-! ### Machines -/

namespace Allows

variable (allows : R.Allows s)

include allows

/-- What the store refers to is there and known. -/
theorem refers : s.Refers (R.HasObject s) := allows.closed.toRefers.and allows.known

/-- The environment in which names are looked up is there. -/
theorem lexical {c : Control} (has : R.HasControl s c) : s.HasEnvironment c.lexical := by
  obtain ⟨frames, depth, limit⟩ := c
  cases frames with
  | nil => exact allows.closed.globalEnvironment
  | cons frame rest => exact (has frame List.mem_cons_self).lexical

theorem receiver {c : Control} (has : R.HasControl s c) : R.HasValue s c.receiver := by
  obtain ⟨frames, depth, limit⟩ := c
  cases frames with
  | nil => exact allows.refers.globalObject
  | cons frame rest => exact (has frame List.mem_cons_self).receiver

/-- A number that is not taken yet is not the one of a hidden object. -/
theorem known_of_size_le {id : ObjectId} (past : s.objects.size ≤ id.index) : R.Known id := by
  cases apart : R.hidden id with
  | none => exact apart
  | some o => exact absurd (allows.kept apart).1 (Nat.not_lt.2 past)

/-- An object may be added if what it refers to is there, and if it may be there itself. -/
theorem allocate {o : Object} (own : R.kind o.kind) (parts : R.HasParts s o) :
    R.Allows (s.allocate o).2 where
  closed := allows.closed.allocate (fun p mem => (parts.prototype p mem).1) parts.closure
    (Object.Refers.mono parts.slots fun _ has => has.1)
  kinds := allows.kinds.allocate own
  lasting := allows.lasting
  known := allows.known.allocate (fun p mem => (parts.prototype p mem).2)
    (Object.Refers.mono parts.slots fun _ has => has.2)
  kept apart := by
    obtain ⟨there, same⟩ := allows.kept apart
    refine ⟨there.of_size_le (Nat.le_of_lt (s.hasObject_allocate o)), ?_⟩
    rw [Store.object_allocate, if_neg (Nat.ne_of_lt there)]
    exact same

theorem hasObject_allocate (o : Object) : R.HasObject (s.allocate o).2 (s.allocate o).1 :=
  ⟨s.hasObject_allocate o, allows.known_of_size_le (Nat.le_refl _)⟩

/-- Functions come into being only with the objects that they are. -/
theorem kinds_of_step (taken : s.Step t) (size : t.objects.size = s.objects.size) :
    t.Kinds R.kind :=
  allows.kinds.step R.kind_of_not_function taken fun id beyond => by
    rw [t.object_of_size_le (size ▸ beyond)]
    rfl

/-- The properties of an object that scripts may get at may change. -/
theorem setObject {id : ObjectId} {o : Object} (known : R.Known id)
    (kinds : (s.setObject id o).Kinds R.kind) (closed : (s.setObject id o).Closed)
    (refers : (s.setObject id o).Refers R.Known) : R.Allows (s.setObject id o) where
  closed := closed
  kinds := kinds
  lasting confined := (allows.lasting confined).of_environments rfl
  known := refers
  kept {other _} apart := by
    obtain ⟨there, same⟩ := allows.kept apart
    have ne : other ≠ id := by
      rintro rfl
      rw [known] at apart
      cases apart
    refine ⟨there.of_size_le (Nat.le_of_eq (s.size_setObject id o).symm), ?_⟩
    rw [Store.object_setObject, if_neg fun same => ne same.1]
    exact same

end Allows

/-- How an evaluation may end, with a condition on its value and the store at the end. -/
def Suits (R : Regime) (Q : Store → α → Prop) : Outcome α × Machine → Prop
  | (.value a, m) => Q m.store a
  | (.raised r, m) => R.HasRaised m.store r
  | (.exhausted, _) => R.endless

/-- The value of an attempt, or what it raised. -/
def Attempted (R : Regime) (Q : Store → α → Prop) (s : Store) : Except Raised α → Prop
  | .ok a => Q s a
  | .error r => R.HasRaised s r

/-- What a round of a loop decides, with conditions on the next state and on the final value. -/
def Decided (I : Store → σ → Prop) (Q : Store → α → Prop) (s : Store) :
    Evaluation.Round σ α → Prop
  | .again state => I s state
  | .done a => Q s a

/-- Started in some machine, an evaluation goes through stores that are allowed and ends as it may.
-/
structure Goes (R : Regime) (m : Machine) (x : Evaluation α) (Q : Store → α → Prop) : Prop where
  moments : ∀ now ∈ x.moments m, R.Holds now.machine
  stop : R.Allows (x.run m).2.store
  suits : R.Suits Q (x.run m)

/-- Started in some store with whatever runs there, an evaluation goes through stores that are
allowed and ends as it may. -/
def Keeps (R : Regime) (s : Store) (x : Evaluation α) (Q : Store → α → Prop) : Prop :=
  ∀ c : Control, R.Allows s → R.HasControl s c → R.Goes ⟨s, c⟩ x Q

/-- It does not matter what the value is. -/
abbrev Safe (R : Regime) (s : Store) (x : Evaluation α) : Prop := R.Keeps s x fun _ _ => True

/-- The evaluation may be started in any store. -/
abbrev Always (R : Regime) (x : Evaluation α) (Q : Store → α → Prop) : Prop :=
  ∀ s : Store, R.Keeps s x Q

/-- Functions that are there may be called with what is there. -/
def Calls (R : Regime) (call : Caller) : Prop :=
  ∀ {s : Store} {f : ObjectId} {receiver : Value} {arguments : List Value}, R.HasObject s f →
    R.HasValue s receiver → R.HasAll s arguments → R.Keeps s (call f receiver arguments) R.HasValue

/-! ### Rules -/

namespace Keeps

open Evaluation

variable {x : Evaluation α} {f : α → Evaluation β} {P Q : Store → α → Prop}
  {T : Store → β → Prop}

/-- Where an evaluation starts, the store is allowed. -/
theorem given (h : R.Allows s → R.Keeps s x Q) : R.Keeps s x Q :=
  fun c allows has => h allows c allows has

theorem pure {a : α} (h : Q s a) : R.Keeps s (pure a) Q := fun _ allows _ => ⟨nofun, allows, h⟩

theorem raise {r : Raised} (has : R.HasRaised s r) : R.Keeps s (raise r) Q :=
  fun _ allows _ => ⟨nofun, allows, has⟩

/-- An error of the engine may be raised, whatever it says. -/
theorem fail (cause : Cause) : R.Keeps s (fail cause) Q := raise trivial

theorem ask {question : Store → α} (h : R.Allows s → Q s (question s)) :
    R.Keeps s (ask question) Q := fun _ allows _ => ⟨nofun, allows, h allows⟩

theorem askControl {question : Control → α} {near : Control.Nearby question}
    (h : ∀ c, R.Allows s → R.HasControl s c → Q s (question c)) :
    R.Keeps s (askControl question near) Q :=
  fun c allows has => ⟨nofun, allows, h c allows has⟩

theorem compiling : R.Safe s compiling := fun _ allows _ => ⟨nofun, allows, trivial⟩

theorem note {event : Event} {Q : Store → Unit → Prop} (h : Q s ()) : R.Keeps s (note event) Q :=
  fun _ allows has => ⟨List.forall_mem_singleton.2 ⟨allows, has⟩, allows, h⟩

theorem noteIf {reason : Store → Bool} {event : Event} {Q : Store → Unit → Prop} (h : Q s ()) :
    R.Keeps s (noteIf reason event) Q := by
  refine fun c allows has => ⟨fun now mem => ?_, allows, h⟩
  have moments : (Evaluation.noteIf reason event).moments ⟨s, c⟩ =
      if reason s then [⟨⟨s, c⟩, 0, some event⟩] else [] := rfl
  rw [moments] at mem
  split at mem
  · cases List.mem_singleton.1 mem
    exact ⟨allows, has⟩
  · cases mem

/-- What comes after a value starts in a store that is reached with it. -/
theorem bind (first : R.Keeps s x P)
    (second : ∀ {t : Store} (a : α), s.Reaches t → P t a → R.Keeps t (f a) T) :
    R.Keeps s (x >>= f) T := by
  intro c allows has
  obtain ⟨before, stop, suits⟩ := first c allows has
  have reached := x.steps ⟨s, c⟩
  have returns := x.returns ⟨s, c⟩
  have run : (x >>= f).run ⟨s, c⟩ = andThen f (x.run ⟨s, c⟩) := rfl
  have moments : (x >>= f).moments ⟨s, c⟩ =
      x.moments ⟨s, c⟩ ++ momentsAfter f (x.run ⟨s, c⟩) := rfl
  cases eq : x.run ⟨s, c⟩ with
  | mk outcome after =>
    rw [eq] at stop suits reached returns run moments
    cases outcome with
    | value a =>
      obtain ⟨t, c'⟩ := after
      cases returns
      obtain ⟨later, stop', suits'⟩ := second a reached suits _ stop (has.mono reached)
      exact ⟨moments ▸ List.forall_mem_append.2 ⟨before, later⟩, run ▸ stop', run ▸ suits'⟩
    | raised r =>
      exact ⟨moments ▸ List.forall_mem_append.2 ⟨before, nofun⟩, run ▸ stop, run ▸ suits⟩
    | exhausted =>
      exact ⟨moments ▸ List.forall_mem_append.2 ⟨before, nofun⟩, run ▸ stop, run ▸ suits⟩

theorem asking {γ : Type} {question : Store → γ} {f : γ → Evaluation β}
    (second : R.Allows s → R.Keeps s (f (question s)) T) :
    R.Keeps s (Evaluation.ask question >>= f) T := by
  intro c allows has
  obtain ⟨moments, stop, suits⟩ := second allows c allows has
  exact ⟨moments, stop, suits⟩

theorem askingControl {γ : Type} {question : Control → γ} {near : Control.Nearby question}
    {f : γ → Evaluation β}
    (second : ∀ c, R.Allows s → R.HasControl s c → R.Keeps s (f (question c)) T) :
    R.Keeps s (Evaluation.askControl question near >>= f) T := by
  intro c allows has
  obtain ⟨moments, stop, suits⟩ := second c allows has c allows has
  exact ⟨moments, stop, suits⟩

theorem weaken (h : R.Keeps s x P)
    (weaker : ∀ {t : Store} (a : α), s.Reaches t → P t a → Q t a) : R.Keeps s x Q := by
  intro c allows has
  obtain ⟨moments, stop, suits⟩ := h c allows has
  refine ⟨moments, stop, ?_⟩
  have reached := x.steps ⟨s, c⟩
  revert suits reached
  obtain ⟨outcome, after⟩ := x.run ⟨s, c⟩
  cases outcome with
  | value a => exact fun suits reached => weaker a reached suits
  | raised | exhausted => exact fun suits _ => suits

theorem safe (h : R.Keeps s x Q) : R.Safe s x := h.weaken fun _ _ _ => trivial

theorem map {g : α → β} (h : R.Keeps s x fun t a => T t (g a)) : R.Keeps s (g <$> x) T :=
  h.bind fun _ _ holds => pure holds

/-- That the end becomes known makes no difference. -/
theorem reporting (h : R.Keeps s x Q) : R.Keeps s (reporting x) Q := fun c allows has =>
  let ⟨moments, stop, suits⟩ := h c allows has
  ⟨moments, stop, suits⟩

theorem attempt {why : Attempt} (h : R.Keeps s x Q) :
    R.Keeps s (attempt why x) (R.Attempted Q) := by
  intro c allows has
  obtain ⟨moments, stop, suits⟩ := h c allows has
  have run : (Evaluation.attempt why x).run ⟨s, c⟩ = attemptRun (x.run ⟨s, c⟩) := rfl
  revert stop suits
  cases eq : x.run ⟨s, c⟩ with
  | mk outcome after =>
    rw [eq] at run
    intro stop suits
    cases outcome <;> exact ⟨moments, run ▸ stop, run ▸ suits⟩

theorem ofExcept {result : Except Raised α} (h : R.Attempted Q s result) :
    R.Keeps s (ofExcept result) Q := by
  cases result with
  | ok a => exact pure h
  | error r => exact raise h

theorem bracket {b : Bracket} (entered : ∀ c, R.HasControl s c → R.HasControl s (b.enter c))
    (inside : R.Keeps s x Q) : R.Keeps s (bracket b x) Q := by
  intro c allows has
  cases free : b.refusal c with
  | some cause =>
    have run := run_bracket_refused (m := ⟨s, c⟩) free x
    have moments := moments_bracket_refused (m := ⟨s, c⟩) free x
    exact ⟨moments ▸ List.forall_mem_nil _, run ▸ allows, run ▸ trivial⟩
  | none =>
    obtain ⟨during, stop, suits⟩ := inside (b.enter c) allows (entered c has)
    have run := run_bracket (m := ⟨s, c⟩) free x
    have moments := moments_bracket (m := ⟨s, c⟩) free x
    rw [Bracket.entered] at run moments
    refine ⟨fun now mem => ?_, run ▸ stop, ?_⟩
    -- On entering the store is the one at the start, and on leaving the one at the end.
    · rw [moments] at mem
      simp only [Bracket.around, List.cons_append, List.mem_cons, List.mem_append, List.mem_map,
        List.not_mem_nil, or_false] at mem
      rcases mem with rfl | ⟨now, mem, rfl⟩ | rfl
      · exact ⟨allows, entered c has⟩
      · exact ⟨(during now mem).store, (during now mem).control⟩
      · have returns := b.control_left (m := ⟨s, c⟩) (x.returns ⟨s, b.enter c⟩)
        exact ⟨stop, returns ▸ has.mono (x.steps ⟨s, b.enter c⟩)⟩
    · rw [run]
      revert suits
      obtain ⟨outcome, after⟩ := x.run ⟨s, b.enter c⟩
      cases outcome <;> exact id

theorem withScope {env : EnvironmentId} (there : s.HasEnvironment env)
    (inside : R.Keeps s x Q) : R.Keeps s (withScope env x) Q :=
  bracket (fun _ has => has.withLexical there) inside

theorem withFrame {frame : Frame} (there : R.HasFrame s frame) (inside : R.Keeps s x Q) :
    R.Keeps s (withFrame frame x) Q :=
  bracket (fun _ has => List.forall_mem_cons.2 ⟨there, has⟩) inside

theorem enteringCall (inside : R.Keeps s x Q) : R.Keeps s (enteringCall x) Q :=
  bracket (fun _ has => has) inside

/-- A loop may take too long only where loops may. -/
theorem iterate {bound : Nat} {body : σ → Evaluation (Round σ α)} {I : Store → σ → Prop}
    {state : σ} (endless : R.endless)
    (round : ∀ {t : Store} (state : σ), s.Reaches t → I t state →
      R.Keeps t (body state) (Decided I Q)) (start : I s state) :
    R.Keeps s (iterate bound body state) Q := by
  induction bound generalizing s state with
  | zero => exact fun _ allows _ => ⟨nofun, allows, endless⟩
  -- The bound is what the induction is on; the invariant carries the state from round to round.
  | succ bound ih =>
    rw [iterate_succ]
    refine (round state (.refl s) start).bind fun decided reached holds => ?_
    cases decided with
    | again state => exact ih (fun state reached' => round state (reached.trans reached')) holds
    | done a => exact pure holds

/-- What each item brings about stays while the others have their turns. -/
theorem forM_each {g : σ → Evaluation Unit} {items : List σ} {I : Store → σ → Prop}
    (each : ∀ a ∈ items, ∀ {t : Store}, s.Reaches t → R.Keeps t (g a) fun u _ => I u a)
    (stays : ∀ {t u : Store} {a : σ}, t.Reaches u → I t a → I u a) :
    R.Keeps s (items.forM g) fun t _ => ∀ a ∈ items, I t a := by
  induction items generalizing s with
  | nil => exact pure (List.forall_mem_nil _)
  | cons a rest ih =>
    refine (each a List.mem_cons_self (.refl s)).bind fun _ reached first => ?_
    have others := ih (s := _) fun b mem _ reached' =>
      each b (List.mem_cons_of_mem a mem) (reached.trans reached')
    exact others.weaken fun _ reached' holds =>
      List.forall_mem_cons.2 ⟨stays reached' first, holds⟩

theorem forM {g : σ → Evaluation Unit} {items : List σ}
    (each : ∀ a ∈ items, ∀ {t : Store}, s.Reaches t → R.Safe t (g a)) :
    R.Safe s (items.forM g) :=
  (forM_each (I := fun _ _ => True) each fun _ _ => trivial).safe

end Keeps

/-! ### Elementary steps -/

namespace Keeps

open Evaluation

theorem step {change : Store → α × Store} {elementary : ∀ s : Store, s.Step (change s).2}
    {Q : Store → α → Prop} (allowed : R.Allows s → R.Allows (change s).2)
    (h : R.Allows s → Q (change s).2 (change s).1) : R.Keeps s (step change elementary) Q :=
  fun _ allows has =>
    ⟨List.forall_mem_singleton.2 ⟨allowed allows, has.mono (elementary s).reaches⟩,
      allowed allows, h allows⟩

theorem allocate {o : Object} {wellFormed : o.WellFormed} (own : R.kind o.kind)
    (parts : R.Allows s → R.HasParts s o) : R.Keeps s (allocate o wellFormed) R.HasObject :=
  step (fun allows => allows.allocate own (parts allows)) fun allows => allows.hasObject_allocate o

theorem define {id : ObjectId} {key : String} {d : Descriptor} (known : R.Known id)
    (has : R.HasDescriptor s d) : R.Safe s (define id key d) :=
  step (fun allows => allows.setObject known
    (allows.kinds_of_step (.define s id key d) (s.size_setObject id _))
    (allows.closed.define id key (has.mono fun _ there => there.1))
    (allows.known.define id key (has.mono fun _ there => there.2))) fun _ => trivial

theorem delete {id : ObjectId} {key : String} (known : R.Known id) : R.Safe s (delete id key) := by
  refine step (fun allows => ?_) fun _ => trivial
  have closed := allows.closed.delete id key
  have refers := allows.known.delete id key
  have taken := Store.Step.delete s id key
  unfold Store.delete at closed refers taken ⊢
  split
  next deleted =>
    rw [deleted] at closed refers taken
    exact allows.setObject known (allows.kinds_of_step taken (s.size_setObject id _)) closed refers
  · exact allows

theorem preventExtensions {id : ObjectId} (known : R.Known id) :
    R.Safe s (preventExtensions id) :=
  step (fun allows => allows.setObject known
    (allows.kinds_of_step (.preventExtensions s id) (s.size_setObject id _))
    (allows.closed.preventExtensions id) (allows.known.preventExtensions id)) fun _ => trivial

theorem print {line : String} : R.Safe s (print line) :=
  step (fun allows => ⟨allows.closed.print line, allows.kinds_of_step (.print s line) rfl,
    fun confined => (allows.lasting confined).of_environments rfl, allows.known.print line,
    allows.kept⟩) fun _ => trivial

/-- A new environment has no bindings. -/
theorem openEnvironment {outer : Option EnvironmentId}
    (has : ∀ env ∈ outer, s.HasEnvironment env) :
    R.Keeps s (openEnvironment outer) Store.HasEnvironment := by
  refine step (fun allows => ⟨allows.closed.openEnvironment has, allows.kinds,
    fun confined => (allows.lasting confined).openEnvironment outer,
    allows.known.openEnvironment outer, allows.kept⟩) fun _ => ?_
  simp [Store.HasEnvironment, Store.openEnvironment]

/-- An edit of bindings that fails leaves the store as it is. -/
theorem editBindings {env : EnvironmentId} {edit : Bindings → Except Cause Bindings}
    {elementary : ∀ s t : Store, s.editBindings env edit = (.ok (), t) → s.Step t}
    {Q : Store → Unit → Prop}
    (edited : ∀ t : Store, s.editBindings env edit = (.ok (), t) → R.Allows s →
      t.Closed ∧ t.Refers R.Known ∧ (R.confined → t.Lasting) ∧ Q t ()) :
    R.Keeps s (editBindings env edit elementary) Q := by
  intro c allows has
  have run : (Evaluation.editBindings env edit elementary).run ⟨s, c⟩ =
      (ofRefusal (s.editBindings env edit).1, ⟨(s.editBindings env edit).2, c⟩) := rfl
  have moments : (Evaluation.editBindings env edit elementary).moments ⟨s, c⟩ =
      [⟨⟨(s.editBindings env edit).2, c⟩, 0, none⟩] := rfl
  cases eq : s.editBindings env edit with
  | mk outcome t =>
    rw [eq] at run moments
    cases outcome with
    | ok =>
      obtain ⟨closed, known, lasting, holds⟩ := edited t eq allows
      have objects := Store.objects_editBindings eq
      have allows' : R.Allows t :=
        { closed, lasting, known
          kinds := allows.kinds.editBindings eq
          kept := fun apart => by
            simpa only [Store.HasObject, Store.object, objects] using allows.kept apart }
      have holds' : R.Holds ⟨t, c⟩ := ⟨allows', has.mono (elementary s t eq).reaches⟩
      exact ⟨moments ▸ List.forall_mem_singleton.2 holds', run ▸ allows', run ▸ holds⟩
    | error cause =>
      cases Store.eq_of_editBindings_error eq
      exact ⟨moments ▸ List.forall_mem_singleton.2 ⟨allows, has⟩, run ▸ allows, run ▸ trivial⟩

/-- A binding that can be removed may come into being only where scripts run anywhere. -/
theorem create {env : EnvironmentId} {name : String} {binding : Binding}
    {fresh : binding.value = none} (has : s.HasEnvironment env)
    (permanent : R.confined → binding.deletable = false) :
    R.Keeps s (create env name binding fresh) fun t _ => R.confined → t.Fast env name := by
  refine (noteIf (Q := fun _ _ => True) trivial).bind fun _ reached _ => ?_
  exact editBindings fun _ edited allows => ⟨allows.closed.create fresh edited,
    allows.known.create fresh edited,
    fun confined => (allows.lasting confined).create (permanent confined) edited,
    fun confined => Store.fast_of_create (has.mono reached) (permanent confined) edited⟩

theorem setInitial {env : EnvironmentId} {name : String} {value : Value}
    (has : R.HasValue s value) : R.Safe s (setInitial env name value) :=
  editBindings fun _ edited allows =>
    ⟨allows.closed.setInitial (Value.Refers.mono has fun _ there => there.1) edited,
      allows.known.setInitial (Value.Refers.mono has fun _ there => there.2) edited,
      fun confined => (allows.lasting confined).setInitial edited, trivial⟩

/-- Where no binding can be removed, only a name that has one is assigned to. -/
theorem assign {env : EnvironmentId} {name : String} {value : Value} {strict : Bool}
    (has : R.HasValue s value) (fast : R.confined → s.Fast env name) :
    R.Safe s (assign env name value strict) :=
  editBindings fun _ edited allows =>
    ⟨allows.closed.assign (Value.Refers.mono has fun _ there => there.1) edited,
      allows.known.assign (Value.Refers.mono has fun _ there => there.2) edited,
      fun confined => (allows.lasting confined).assign (fast confined) edited, trivial⟩

theorem forget {env : EnvironmentId} {name : String} : R.Safe s (forget env name) :=
  editBindings fun _ edited allows => ⟨allows.closed.forget edited, allows.known.forget edited,
    fun confined => (allows.lasting confined).forget edited, trivial⟩

end Keeps

end Regime

end ScriptEngine
