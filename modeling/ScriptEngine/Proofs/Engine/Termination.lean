import ScriptEngine.Proofs.Check.Scoping
import ScriptEngine.Proofs.Congruence.Fuel
import ScriptEngine.Proofs.Engine.Faults
import ScriptEngine.Proofs.Heap.Engines

/-!
# Programs without loops end

On an engine without a library, only loops with a condition can go on forever. Recursion is cut off
by the limit on calls, whoever makes the call, and a loop over keys visits keys that were listed
before its first round. So a program without such loops gets by with no rounds at all, and with as
many nested calls as the limit allows; more time makes no difference.

Main result: `loop_free_programs_end`.
-/
namespace ScriptEngine

/-! ### Trees without loops -/

/-- A loop whose rounds nothing limits. A loop over the keys of an object is not one. -/
def Piece.isUnlimited : Piece → Bool
  | statement (.whileLoop ..) | statement (.doLoop ..) | statement (.forLoop ..) => true
  | _ => false

/-- There is no `while`, `do` or `for (;;)` loop in the piece, the functions in it included. -/
def Piece.LoopFree (whole : Piece) : Prop :=
  ∀ path piece, Occurs whole path piece → piece.isUnlimited = false

/-- There are no such loops in the text of the program. -/
def Program.LoopFree (p : Program) : Prop := (Piece.script p.tree).LoopFree

namespace Piece

variable {whole inner : Piece}

theorem LoopFree.inside (free : whole.LoopFree) (mem : inner ∈ whole.below) : inner.LoopFree :=
  fun _ piece occurs => free _ piece (occurs.of_below mem)

/-- Whether a piece that is not deeper than this has none of these loops. -/
def isLoopFreeWithin : Nat → Piece → Bool
  | 0, _ => false
  | depth + 1, piece => !piece.isUnlimited && piece.below.all (isLoopFreeWithin depth)

theorem loopFree_of_within {depth : Nat} (passed : isLoopFreeWithin depth whole = true) :
    whole.LoopFree := by
  induction depth generalizing whole with
  | zero => cases passed
  | succ depth ih =>
    simp only [isLoopFreeWithin, Bool.and_eq_true, Bool.not_eq_true', List.all_eq_true] at passed
    refine (@forall_occurs_iff (fun _ piece => piece.isUnlimited = false) whole []).2 ?_
    exact ⟨passed.1, fun inner mem => ih (passed.2 inner mem)⟩

/-- The scopes in the piece list what is declared in them, and it has no loops without a limit. -/
structure Ends (piece : Piece) : Prop where
  tied : piece.Tied
  free : piece.LoopFree

theorem Ends.inside (ends : whole.Ends) (mem : inner ∈ whole.below) : inner.Ends :=
  ⟨ends.tied.inside mem, ends.free.inside mem⟩

theorem Ends.occurs {path : Path} (ends : whole.Ends) (occurs : Occurs whole path inner) :
    inner.Ends := by
  induction occurs with
  | whole => exact ends
  | inside _ mem ih => exact ih.inside mem

/-- The functions that a scope lists stand below it, so they have no loops without a limit either.
-/
theorem Ends.functions (ends : whole.Ends) :
    ∀ code ∈ whole.functions, (function code).Ends :=
  ends.tied.forall_functions Ends.inside ends

end Piece

/-! ### Evaluations that are not exhausted -/

namespace Regime

/-- Functions have no loops without a limit, and native functions do nothing. -/
def loopFree : Regime where
  code code := (Piece.function code).Ends
  native behaviour := behaviour = .nothing
  confined := False
  endless := False

theorem admits_of_ends {piece : Piece} (ends : piece.Ends) : loopFree.Admits piece := by
  have listed := ends.functions
  cases piece with
  | function code => exact ⟨ends, listed⟩
  | script | block => exact listed
  | statement s =>
    cases s with
    | select => exact listed
    -- There would be one of the loops that the whole tree does not have.
    | whileLoop | doLoop | forLoop => exact absurd (ends.free [] _ .whole) nofun
    | _ => trivial
  | _ => trivial

theorem fits_of_ends {whole : Piece} (ends : whole.Ends) : loopFree.Fits whole :=
  fun _ _ occurs => admits_of_ends (ends.occurs occurs)

theorem loopFree_sound : loopFree.Sound where
  code ends := fits_of_ends ends
  constructed native := nomatch native

/-- What is safe where no loop is without a limit is not exhausted. -/
theorem Safe.not_exhausted {α : Type} {m : Machine} {x : Evaluation α}
    (safe : loopFree.Safe m.store x) (allows : loopFree.Allows m.store)
    (has : loopFree.HasControl m.store m.control) : (x.run m).1 ≠ .exhausted := by
  have suits : loopFree.Suits _ (x.run m) := (safe m.control allows has).suits
  revert suits
  obtain ⟨outcome, after⟩ := x.run m
  rintro suits ⟨⟩
  exact suits

end Regime

namespace Engine

open Evaluation Operation Evaluate

variable {e : Engine} {config : Config} {p : Program}

/-- Runs programs one after another, whatever each of them comes to. -/
def runAll (e : Engine) (programs : List Program) : Engine :=
  programs.foldl (fun e p => (e.runProgram p).2) e

/-- An engine on which only programs without loops have run. -/
structure HasNoLoops (config : Config) (e : Engine) : Prop where
  config : e.config = config
  reachable : e.ReachableByPrograms
  allows : Regime.loopFree.Allows e.machine.store

theorem HasNoLoops.control (free : e.HasNoLoops config) :
    Regime.loopFree.HasControl e.machine.store e.machine.control := by
  rw [free.reachable.idle]
  exact nofun

theorem HasNoLoops.create (bare : config.builtins = false) : (create config).HasNoLoops config := by
  have machine : Engine.create config =
      { config, machine := ⟨WellKnown.store, ⟨[], 0, config.maxCallDepth⟩⟩ } := by
    simp [Engine.create, bare]
  refine ⟨by rw [machine], .create config, ?_⟩
  rw [machine]
  exact Regime.allows_store rfl fun _ => rfl

theorem scriptValue_safe_of_loopFree {s : Store} (accepted : p.Accepted) (free : p.LoopFree)
    (bound remaining : Nat) :
    Regime.loopFree.Safe s (scriptValue (invoke bound remaining) bound p.tree) :=
  Regime.scriptValue_keeps (Regime.invoke_keeps Regime.loopFree_sound bound remaining)
    (Regime.fits_of_ends ⟨accepted.judged.tied, free⟩)

theorem HasNoLoops.runProgram (before : e.HasNoLoops config) (accepted : p.Accepted)
    (free : p.LoopFree) : (e.runProgram p).2.HasNoLoops config where
  config := before.config
  reachable := before.reachable.runProgram accepted
  allows := (scriptValue_safe_of_loopFree accepted free loopBound e.config.maxCallDepth
    e.machine.control before.allows before.control).stop

theorem HasNoLoops.runAll {programs : List Program} (before : e.HasNoLoops config)
    (each : ∀ p ∈ programs, p.Accepted ∧ p.LoopFree) : (e.runAll programs).HasNoLoops config := by
  induction programs generalizing e with
  | nil => exact before
  | cons p rest ih =>
    obtain ⟨first, others⟩ := List.forall_mem_cons.1 each
    exact ih (before.runProgram first.1 first.2) others

/-- A program ends the same way with any number of rounds for loops, and of calls from the limit
on. -/
theorem HasNoLoops.run_eq (before : e.HasNoLoops config) (accepted : p.Accepted)
    (free : p.LoopFree) (bound : Nat) {remaining : Nat} (enough : config.maxCallDepth ≤ remaining) :
    (scriptValue (invoke 0 config.maxCallDepth) 0 p.tree).run e.machine =
      (scriptValue (invoke bound remaining) bound p.tree).run e.machine := by
  have calls := invoke_approximates (Nat.zero_le bound) (Nat.le_refl config.maxCallDepth) enough
  -- Nothing is running, so the room for calls is all that the limit allows.
  have within : e.machine.control.limit ≤ e.machine.control.depth + config.maxCallDepth := by
    rw [before.reachable.idle, before.config]
    exact Nat.le_add_left _ 0
  have alike := scriptValue_approximates calls (Nat.zero_le bound) p.tree
  rcases alike e.machine within with ended | same
  · exact absurd ended ((scriptValue_safe_of_loopFree accepted free 0 _).not_exhausted
      before.allows before.control)
  · exact same

/-- What is neither exhausted nor a fault is a value or an error that the script can see. -/
theorem result_ends {outcome : Outcome (Except (String × Value) Value)}
    (finite : outcome ≠ .exhausted) (faultless : ∀ fault, outcome ≠ .raised (.fault fault)) :
    (∃ value, result outcome = .ok value) ∨
      ∃ description value, result outcome = .error (.uncaught description value) := by
  match outcome with
  | .value (.ok value) => exact .inl ⟨value, rfl⟩
  | .value (.error (description, value)) => exact .inr ⟨description, value, rfl⟩
  | .raised (.thrown value) => exact .inr ⟨"", value, rfl⟩
  | .raised (.error cause) => exact .inr ⟨cause.message, .undefined, rfl⟩
  | .raised (.fault fault) => exact absurd rfl (faultless fault)
  | .exhausted => exact absurd rfl finite

/-- On an engine without a library and with any limit on calls, programs that were compiled and have
no `while`, `do` or `for (;;)` loop run one after another. Each of them ends with a value or with an
error. It does so in the same way, and in the same state, whatever number of rounds a loop may have,
be it none, and whatever number of nested calls the evaluation is given time for, as long as that is
not less than the limit on calls: so it is never the time that cuts the program off. -/
theorem loop_free_programs_end (bare : config.builtins = false) {programs : List Program}
    (each : ∀ q ∈ programs, q.Accepted ∧ q.LoopFree) (accepted : p.Accepted) (free : p.LoopFree) :
    let e := (create config).runAll programs
    ((∃ value, (e.runProgram p).1 = .ok value) ∨
      ∃ description value, (e.runProgram p).1 = .error (.uncaught description value)) ∧
    ∀ bound remaining, config.maxCallDepth ≤ remaining →
      (scriptValue (invoke bound remaining) bound p.tree).run e.machine =
          (scriptValue e.caller loopBound p.tree).run e.machine ∧
        ((scriptValue (invoke bound remaining) bound p.tree).run e.machine).1 ≠ .exhausted := by
  intro e
  have before : e.HasNoLoops config := (HasNoLoops.create bare).runAll each
  have limit : e.config.maxCallDepth = config.maxCallDepth := by rw [before.config]
  have finite : ∀ bound remaining,
      ((scriptValue (invoke bound remaining) bound p.tree).run e.machine).1 ≠ .exhausted :=
    fun bound remaining =>
      (scriptValue_safe_of_loopFree accepted free bound remaining).not_exhausted before.allows
        before.control
  have safe := scriptValue_safe Contract.faultless_governing (e.callerWithin_safe loopBound)
    accepted.judged.admitted loopBound
  have met := (safe [] e.machine before.reachable.faultless trivial).meets
  refine ⟨result_ends (finite loopBound e.config.maxCallDepth) ?_, fun bound remaining enough =>
    ⟨?_, finite bound remaining⟩⟩
  · intro fault failed
    change ((scriptValue (e.callerWithin loopBound) loopBound p.tree).run e.machine).1 = _ at failed
    rw [failed] at met
    exact met fault rfl
  -- Any two amounts of time are compared with the least one that is enough.
  · have least := before.run_eq accepted free bound enough
    exact least.symm.trans (before.run_eq accepted free loopBound (Nat.le_of_eq limit.symm))

/-- A function that calls itself twice over, the second time whatever the first call came to. -/
private def recursing : Sample "function f() \x7b try \x7b f() \x7d finally \x7b f() \x7d \x7d f()"
    (fun p => (Piece.script p.tree).isLoopFreeWithin 12) :=
  .ofSource (by decide +kernel)

/-- The recursion ends with a value or with an error that is not caught. -/
theorem loop_free_programs_end_recursion :
    ∃ p, Program.compile "function f() \x7b try \x7b f() \x7d finally \x7b f() \x7d \x7d f()" ""
        false = .ok p ∧
      let e := (create { builtins := false }).runAll [p]
      (∃ value, (e.runProgram p).1 = .ok value) ∨
        ∃ description value, (e.runProgram p).1 = .error (.uncaught description value) := by
  obtain ⟨p, compiled, passed⟩ := recursing
  have free : p.LoopFree := Piece.loopFree_of_within passed
  have accepted : p.Accepted := ⟨_, _, _, compiled⟩
  exact ⟨p, compiled, (@loop_free_programs_end { builtins := false } p rfl [p]
    (List.forall_mem_singleton.2 ⟨accepted, free⟩) accepted free).1⟩

end Engine

end ScriptEngine
