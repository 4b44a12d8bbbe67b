import ScriptEngine.Engine.Engine
import ScriptEngine.Proofs.Library.Installation

/-!
# Reachable engines

The engines that a host can get to: one that is set up with or without the core library, and from
there any sequence of scripts, calls and definitions. Which programs run and which native
functions the host defines are parameters.

Main result: what holds of a store without any library, and is kept by installation and by
evaluation, holds of the store of every reachable engine (`Reachable.store_invariant`).
-/
namespace ScriptEngine

namespace Engine

open Operation

/-- How the functions of an engine run if no loop may have more rounds than a bound. -/
def callerWithin (e : Engine) (bound : Nat) : Caller := Evaluate.invoke bound e.config.maxCallDepth

/-- No bound on the rounds of loops is special, so each step of the host has one of its own. -/
inductive Reachable (programs : Program → Prop) (natives : Native → Prop) : Engine → Prop where
  | create (config : Config) : Reachable programs natives (create config)
  | runWithin {e : Engine} (before : Reachable programs natives e) (bound : Nat) (p : Program)
    (admitted : programs p) :
    Reachable programs natives (e.perform (scriptValue (e.callerWithin bound) bound p.tree)).2
  /-- Runs a program for its completion, without describing what it throws. -/
  | execute {e : Engine} (before : Reachable programs natives e) (bound : Nat) (p : Program)
    (admitted : programs p) :
    Reachable programs natives (e.perform (execution (e.callerWithin bound) bound p.tree)).2
  /-- Runs a program in some environment. -/
  | executeIn {e : Engine} (before : Reachable programs natives e) (bound : Nat) (p : Program)
    (admitted : programs p) (env : EnvironmentId) :
    Reachable programs natives
      (e.perform (Evaluate.runScript (e.callerWithin bound) bound p.tree env)).2
  | call {e : Engine} (before : Reachable programs natives e) (bound : Nat) (f receiver : Value)
    (arguments : List Value) :
    Reachable programs natives
      (e.perform (callValue (e.callerWithin bound) f receiver arguments)).2
  | construct {e : Engine} (before : Reachable programs natives e) (bound : Nat) (f : Value)
    (arguments : List Value) :
    Reachable programs natives (e.perform (construct (e.callerWithin bound) f arguments)).2
  | readWithin {e : Engine} (before : Reachable programs natives e) (bound : Nat) (name : String) :
    Reachable programs natives (e.perform (binding (e.callerWithin bound) name)).2
  | defineValue {e : Engine} (before : Reachable programs natives e) (name : String)
    (value : Value) : Reachable programs natives (e.defineValue name value)
  | defineFunction {e : Engine} (before : Reachable programs natives e) (m : Method)
    (isConstructor : Bool) (admitted : natives m.behaviour) :
    Reachable programs natives (e.defineFunction m isConstructor)

variable {programs : Program → Prop} {natives : Native → Prop} {P : Store → Prop}

/-! ### Setting up -/

/-- Remembering the constructor afterwards does not touch the machine. -/
theorem machine_install (e : Engine) (b : BuiltIn) :
    (e.install b).2.machine = (e.edit (Install.builtIn b)).2.machine := by
  change (noteConstructor (e.edit (Install.builtIn b)).2 b _).machine = _
  unfold noteConstructor
  split <;> rfl

theorem store_installAll (kept : Install.Kept natives P) {e : Engine} {builtIns : List BuiltIn}
    (admissible : ∀ b ∈ builtIns, b.Admissible natives) (holds : P e.machine.store) :
    P (builtIns.foldl (fun e b => (e.install b).2) e).machine.store := by
  induction builtIns generalizing e with
  | nil => exact holds
  | cons b rest ih =>
    refine ih (fun b' mem => admissible b' (List.mem_cons_of_mem b mem)) ?_
    rw [machine_install]
    exact kept.builtIn (admissible b List.mem_cons_self) _ holds

theorem store_installRegistry (kept : Install.Kept natives P) {e : Engine} {r : Registry}
    (admissible : r.Admissible natives) (holds : P e.machine.store) :
    P (e.installRegistry r).machine.store := by
  have objects := store_installAll kept admissible.objects holds
  -- Functions and values come after the objects, in one change of the store.
  have further : Install.Preserves P (do
      r.functions.forM (Install.method WellKnown.globalObject)
      r.values.forM fun entry =>
        Install.insert WellKnown.globalObject entry.1 (.fixed entry.2)) := by
    refine Install.Preserves.bind (.forM fun m mem => ?_) fun _ => .forM fun entry _ => ?_
    · exact kept.globalMethod (admissible.functions m mem)
    · exact kept.insertGlobal entry.1 (.fixed entry.2)
  exact further _ objects

theorem store_create (kept : Install.Kept natives P)
    (shipped : ∀ native, native.isShipped = true → natives native) (bare : P WellKnown.store)
    (config : Config) : P (create config).machine.store := by
  unfold create
  split
  · exact store_installRegistry kept (Library.core_admissible shipped) bare
  · exact bare

theorem store_defineFunction (kept : Install.Kept natives P) {e : Engine} {m : Method}
    (admitted : natives m.behaviour) (isConstructor : Bool) (holds : P e.machine.store) :
    P (e.defineFunction m isConstructor).machine.store := by
  have preserved : Install.Preserves P (do
      Install.global m.name (.object (← Install.function m isConstructor))) :=
    (kept.function admitted isConstructor).bind fun f => kept.global m.name (.object f)
  exact preserved _ holds

/-! ### Evaluating -/

/-- Evaluating on an engine only takes elementary steps. -/
theorem reaches_perform {α : Type} (e : Engine) (x : Evaluation α) :
    e.machine.store.Reaches (e.perform x).2.machine.store := x.steps e.machine

/-- What installation and evaluation keep holds of every reachable engine. -/
theorem Reachable.store_invariant (kept : Install.Kept natives P)
    (shipped : ∀ native, native.isShipped = true → natives native) (bare : P WellKnown.store)
    (evaluated : ∀ {s t : Store}, s.Reaches t → P s → P t) {e : Engine}
    (reachable : Reachable programs natives e) : P e.machine.store := by
  induction reachable with
  | create config => exact store_create kept shipped bare config
  | @runWithin e _ bound p _ ih => exact evaluated (e.reaches_perform _) ih
  | @execute e _ bound p _ ih => exact evaluated (e.reaches_perform _) ih
  | @executeIn e _ bound p _ env ih => exact evaluated (e.reaches_perform _) ih
  | @call e _ bound f receiver arguments ih => exact evaluated (e.reaches_perform _) ih
  | @construct e _ bound f arguments ih => exact evaluated (e.reaches_perform _) ih
  | @readWithin e _ bound name ih => exact evaluated (e.reaches_perform _) ih
  | @defineValue e _ name value ih => exact kept.global name value _ ih
  | defineFunction _ m isConstructor admitted ih =>
    exact store_defineFunction kept admitted isConstructor ih

/-! ### What a host calls -/

/-- Running a program is a run within the bound of the engine. -/
theorem Reachable.runProgram {e : Engine} (reachable : Reachable programs natives e) {p : Program}
    (admitted : programs p) : Reachable programs natives (e.runProgram p).2 :=
  reachable.runWithin loopBound p admitted

theorem Reachable.global {e : Engine} (reachable : Reachable programs natives e) (name : String) :
    Reachable programs natives (e.global name).2 := by
  have read := reachable.readWithin loopBound name
  change Reachable programs natives (e.perform (binding e.caller name)).2 at read
  -- Whether or not the name has a value, the engine is the one after looking it up.
  unfold Engine.global
  split <;> (next eq => rw [eq] at read; exact read)

end Engine

end ScriptEngine
