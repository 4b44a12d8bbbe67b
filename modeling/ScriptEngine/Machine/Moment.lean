import ScriptEngine.Machine.Control

/-!
# Moments

An evaluation passes through moments: the machine after each elementary step, and on entering and
leaving a scope, a frame or a call. What lies between the machine at the start and the one at the
end is a `Passage`: the store changes by one elementary step at a time, the control state comes
back as it was, and the machine has counted the calls in progress at every moment.
-/
namespace ScriptEngine

/-- What happens to a name of an environment. -/
inductive Event where
  /-- A name that is declared with `let` or `const` has come into being; it waits for its declaration
  to run. -/
  | declared (env : EnvironmentId) (name : String) (isConst : Bool)
  /-- The declaration of the name has run as far as giving it its first value. -/
  | initialized (env : EnvironmentId) (name : String)
  /-- The name should come into being, but it is there already. -/
  | taken (env : EnvironmentId) (name : String)
  /-- The value of the name should be copied for the next round of a loop, but it has none. -/
  | unready (env : EnvironmentId) (name : String)
deriving DecidableEq

/-- A moment of an evaluation. -/
structure Moment where
  machine : Machine
  /-- The number of calls that the evaluation has entered and not left. -/
  calls : Nat := 0
  event : Option Event := none

namespace Moment

/-- The moment as one inside of further calls. -/
def inside (calls : Nat) (moment : Moment) : Moment := { moment with calls := moment.calls + calls }

theorem inside_inside (moment : Moment) (first second : Nat) :
    (moment.inside first).inside second = moment.inside (first + second) := by
  simp only [inside, Nat.add_assoc]

/-- The machine has counted the calls in progress, and there are not too many. -/
structure Counts (start : Control) (moment : Moment) : Prop where
  depth : moment.machine.control.depth = start.depth + moment.calls
  limit : moment.machine.control.limit = start.limit
  room : start.depth ≤ start.limit → moment.machine.control.depth ≤ start.limit

end Moment

/-- A store is followed by itself, or by one that an elementary step makes of it. -/
inductive Store.Follows (s : Store) : Store → Prop where
  | same : Follows s s
  | step {t : Store} (taken : s.Step t) : Follows s t

theorem Store.Follows.reaches {s t : Store} (follows : s.Follows t) : s.Reaches t := by
  cases follows with
  | same => exact .refl s
  | step taken => exact taken.reaches

/-- From one store to another, the stores of some moments follow each other. -/
def Leads (s : Store) : List Moment → Store → Prop
  | [], t => s = t
  | moment :: rest, t => s.Follows moment.machine.store ∧ Leads moment.machine.store rest t

namespace Leads

variable {s t u : Store} {first second : List Moment}

theorem append (before : Leads s first t) (after : Leads t second u) :
    Leads s (first ++ second) u := by
  induction first generalizing s with
  | nil => exact before ▸ after
  | cons moment rest ih => exact ⟨before.1, ih before.2⟩

/-- Which calls the moments belong to does not matter to the stores. -/
theorem inside (leads : Leads s first t) (calls : Nat) :
    Leads s (first.map (·.inside calls)) t := by
  induction first generalizing s with
  | nil => exact leads
  | cons moment rest ih => exact ⟨leads.1, ih leads.2⟩

theorem reaches (leads : Leads s first t) : s.Reaches t := by
  induction first generalizing s with
  | nil => exact leads ▸ .refl s
  | cons moment rest ih => exact leads.1.reaches.trans (ih leads.2)

end Leads

/-- What lies between two machines, with the moments in between. -/
structure Passage (before : Machine) (moments : List Moment) (after : Machine) : Prop where
  leads : Leads before.store moments after.store
  counts : ∀ moment ∈ moments, moment.Counts before.control
  returns : after.control = before.control

namespace Passage

variable {m between after : Machine} {first second : List Moment}

theorem refl (m : Machine) : Passage m [] m where
  leads := rfl
  counts := nofun
  returns := rfl

/-- One moment at which the control state is the one at the start. -/
theorem single {store : Store} (follows : m.store.Follows store) (event : Option Event) :
    Passage m [⟨{ m with store }, 0, event⟩] { m with store } where
  leads := ⟨follows, rfl⟩
  counts moment mem := by
    cases List.mem_singleton.1 mem
    exact ⟨rfl, rfl, id⟩
  returns := rfl

theorem trans (before : Passage m first between) (next : Passage between second after) :
    Passage m (first ++ second) after where
  leads := before.leads.append next.leads
  counts moment mem := by
    rcases List.mem_append.1 mem with mem | mem
    · exact before.counts moment mem
    · exact before.returns ▸ next.counts moment mem
  returns := next.returns.trans before.returns

end Passage

/-- A way to evaluate in another control state and to come back, where there is room for it. -/
structure Bracket where
  /-- Why the other control state cannot be entered, if so. -/
  refusal : Control → Option Cause := fun _ => none
  enter : Control → Control
  /-- The control state to come back to, made of the one before and the one that is left. -/
  leave : Control → Control → Control
  /-- The number of calls that entering adds. -/
  calls : Nat
  undo : ∀ c, leave c (enter c) = c
  depth : ∀ c, (enter c).depth = c.depth + calls
  limit : ∀ c, (enter c).limit = c.limit
  room : ∀ c, refusal c = none → c.depth ≤ c.limit → (enter c).depth ≤ c.limit
  near : ∀ c c', c.Beside c' → refusal c = refusal c' ∧ (enter c).Beside (enter c')

namespace Bracket

/-- Names are looked up in another environment. -/
def scope (env : EnvironmentId) : Bracket where
  enter c := c.withLexical env
  leave before c := c.withLexical before.lexical
  calls := 0
  undo c := c.withLexical_withLexical env
  depth c := c.depth_withLexical env
  limit c := c.limit_withLexical env
  room c _ room := (c.depth_withLexical env).symm ▸ room
  near _ _ beside := ⟨rfl, beside.withLexical env⟩

/-- Code runs in a frame of its own. -/
def frame (frame : Frame) : Bracket where
  enter c := c.push frame
  leave _ c := c.pop
  calls := 0
  undo c := c.pop_push frame
  depth _ := rfl
  limit _ := rfl
  room _ _ := id
  near _ _ beside := ⟨rfl, Control.beside_push beside.counts.1 beside.counts.2 frame⟩

/-- One more call is in progress, unless too many are already. -/
def call : Bracket where
  refusal c := if c.limit ≤ c.depth then some .callDepth else none
  enter c := { c with depth := c.depth + 1 }
  leave _ c := { c with depth := c.depth - 1 }
  calls := 1
  undo _ := rfl
  depth _ := rfl
  limit _ := rfl
  room c free _ := by
    split at free
    · cases free
    next room => exact Nat.lt_of_not_le room
  near _ _ beside := by
    cases beside with
    | same => exact ⟨rfl, .same _⟩
    | behind frame rest rest' depth limit => exact ⟨rfl, .behind frame rest rest' _ limit⟩

variable (b : Bracket) {m after : Machine} {moments : List Moment}

/-- The machine with the control state that the bracket enters. -/
def entered (m : Machine) : Machine := { m with control := b.enter m.control }

/-- The machine with the control state that the bracket comes back to. -/
def left (m after : Machine) : Machine := { after with control := b.leave m.control after.control }

/-- The moments between entering and leaving, these two included. -/
def around (m after : Machine) (moments : List Moment) : List Moment :=
  ⟨b.entered m, b.calls, none⟩ :: moments.map (·.inside b.calls) ++ [⟨b.left m after, 0, none⟩]

theorem control_left (returns : after.control = (b.entered m).control) :
    (b.left m after).control = m.control := by
  change b.leave m.control after.control = m.control
  rw [returns]
  exact b.undo m.control

theorem counts_inside {moment : Moment} (free : b.refusal m.control = none)
    (counts : moment.Counts (b.entered m).control) : (moment.inside b.calls).Counts m.control where
  depth := by
    have entered := b.depth m.control
    have inside := counts.depth
    simp only [Bracket.entered, entered] at inside
    simp only [Moment.inside]
    omega
  limit := counts.limit.trans (b.limit m.control)
  room room := by
    have limit := b.limit m.control
    have entered := b.room m.control free room
    rw [← limit] at entered ⊢
    exact counts.room entered

theorem passage (free : b.refusal m.control = none)
    (inside : Passage (b.entered m) moments after) :
    Passage m (b.around m after moments) (b.left m after) where
  leads := by
    have leads : Leads m.store ([⟨b.entered m, b.calls, none⟩] ++
        moments.map (·.inside b.calls)) after.store :=
      Leads.append ⟨.same, rfl⟩ (inside.leads.inside b.calls)
    exact leads.append ⟨.same, rfl⟩
  counts moment mem := by
    simp only [around, List.cons_append, List.mem_cons, List.mem_append, List.mem_map,
      List.not_mem_nil, or_false] at mem
    rcases mem with rfl | ⟨moment, mem, rfl⟩ | rfl
    · exact ⟨b.depth m.control, b.limit m.control, b.room m.control free⟩
    · exact b.counts_inside free (inside.counts moment mem)
    · have returns := b.control_left inside.returns
      exact ⟨by rw [returns]; rfl, by rw [returns], fun room => by rw [returns]; exact room⟩
  returns := b.control_left inside.returns

end Bracket

end ScriptEngine
