import ScriptEngine.Machine.WellKnown

/-!
# Machines

A machine is a store and a control state: the frames of the code that is running, and how many
calls are in progress.
-/
namespace ScriptEngine

/-- What a running script or function runs with: the environments that its names and its `var`
declarations belong to, its `this`, and whether its code is strict. -/
structure Frame where
  lexical : EnvironmentId
  varScope : EnvironmentId
  receiver : Value
  strict : Bool
  /-- The function that is running; none for a script. -/
  function : Option ObjectId

/-- The frames of the scripts and functions that are running, the innermost first, and the number
of calls in progress with its limit. -/
structure Control where
  frames : List Frame
  depth : Nat
  limit : Nat

namespace Control

/-- The environment in which names are looked up; the global one where nothing runs. -/
def lexical (c : Control) : EnvironmentId :=
  match c.frames with
  | frame :: _ => frame.lexical
  | [] => WellKnown.globalEnvironment

def receiver (c : Control) : Value :=
  match c.frames with
  | frame :: _ => frame.receiver
  | [] => .object WellKnown.globalObject

def strict (c : Control) : Bool :=
  match c.frames with
  | frame :: _ => frame.strict
  | [] => false

/-- Looks up names in another environment. -/
def withLexical (c : Control) (lexical : EnvironmentId) : Control :=
  match c.frames with
  | frame :: rest => { c with frames := { frame with lexical } :: rest }
  | [] => c

theorem withLexical_withLexical (c : Control) (env : EnvironmentId) :
    (c.withLexical env).withLexical c.lexical = c := by
  obtain ⟨frames, depth, limit⟩ := c
  cases frames <;> rfl

@[simp]
theorem depth_withLexical (c : Control) (env : EnvironmentId) :
    (c.withLexical env).depth = c.depth := by
  unfold withLexical
  split <;> rfl

@[simp]
theorem limit_withLexical (c : Control) (env : EnvironmentId) :
    (c.withLexical env).limit = c.limit := by
  unfold withLexical
  split <;> rfl

/-- Adds an innermost frame. -/
def push (c : Control) (frame : Frame) : Control := { c with frames := frame :: c.frames }

/-- Leaves the innermost frame. -/
def pop (c : Control) : Control := { c with frames := c.frames.tail }

theorem pop_push (c : Control) (frame : Frame) : (c.push frame).pop = c := rfl

/-- Two control states differ in no more than the frames behind the innermost one. -/
inductive Beside : Control → Control → Prop where
  | same (c : Control) : Beside c c
  | behind (frame : Frame) (rest rest' : List Frame) (depth limit : Nat) :
    Beside ⟨frame :: rest, depth, limit⟩ ⟨frame :: rest', depth, limit⟩

theorem Beside.withLexical {c c' : Control} (beside : c.Beside c') (env : EnvironmentId) :
    (c.withLexical env).Beside (c'.withLexical env) := by
  cases beside with
  | same => exact .same _
  | behind frame rest rest' depth limit => exact .behind _ rest rest' depth limit

/-- The innermost frame is the new one, whatever is behind it. -/
theorem beside_push {c c' : Control} (depth : c.depth = c'.depth) (limit : c.limit = c'.limit)
    (frame : Frame) : (c.push frame).Beside (c'.push frame) := by
  obtain ⟨frames, _, _⟩ := c
  obtain ⟨frames', _, _⟩ := c'
  cases depth
  cases limit
  exact .behind frame frames frames' _ _

/-- The answer does not depend on the frames behind the innermost one. -/
def Nearby {α : Type} (question : Control → α) : Prop :=
  ∀ c c' : Control, c.Beside c' → question c = question c'

theorem Beside.counts {c c' : Control} (beside : c.Beside c') :
    c.depth = c'.depth ∧ c.limit = c'.limit := by
  cases beside <;> exact ⟨rfl, rfl⟩

theorem nearby_lexical : Nearby lexical := fun _ _ beside => by cases beside <;> rfl

theorem nearby_receiver : Nearby receiver := fun _ _ beside => by cases beside <;> rfl

theorem nearby_strict : Nearby strict := fun _ _ beside => by cases beside <;> rfl

theorem nearby_depth : Nearby depth := fun _ _ beside => beside.counts.1

end Control

structure Machine where
  store : Store
  control : Control

end ScriptEngine
