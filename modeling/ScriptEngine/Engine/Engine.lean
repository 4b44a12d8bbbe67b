import ScriptEngine.Engine.Config
import ScriptEngine.Evaluate.Call
import ScriptEngine.Library.Core

/-!
# Engines

An engine is a configuration and a machine. Scripts that run on the same engine see each other's
globals. Running a script gives its value, or says why there is none.
-/
namespace ScriptEngine

structure Engine where
  config : Config
  machine : Machine
  /-- The constructors that were installed under the names of well-known ones. -/
  constructors : List (String × ObjectId) := []

/-- Why a script has no value. -/
inductive RunError where
  | compile (error : CompileError)
  /-- The script has thrown a value, which is described for a reader. -/
  | uncaught (description : String) (value : Value)
  | fault (fault : Fault)
  /-- A loop went on for too long. -/
  | exhausted

namespace RunError

/-- What a host shows of a fault. -/
def faultMessage (f : Fault) : String := "internal fault: " ++ f.message

def message : RunError → String
  | compile error => error.message
  | uncaught description _ => "Uncaught " ++ description
  | fault f => faultMessage f
  | exhausted => "a loop went on for too long"

end RunError

namespace Engine

/-- The number of rounds that a loop may have. -/
def loopBound : Nat := Nat.pow 2 62

/-- How the functions of an engine run when nothing is running yet. -/
def caller (e : Engine) : Caller := Evaluate.invoke loopBound e.config.maxCallDepth

/-- Evaluates on an engine. -/
def perform {α : Type} (e : Engine) (x : Evaluation α) : Outcome α × Engine :=
  let (outcome, machine) := x.run e.machine
  (outcome, { e with machine })

/-! ## Setting up -/

/-- Changes the store of an engine from outside. -/
def edit {α : Type} (e : Engine) (change : StateM Store α) : α × Engine :=
  let (a, store) := change.run e.machine.store
  (a, { e with machine := { e.machine with store } })

/-- Remembers the constructor of a well-known name. -/
def noteConstructor (e : Engine) (b : BuiltIn) (target : ObjectId) : Engine :=
  if b.constructor.isSome && (WellKnown.prototypeOf? b.name).isSome then
    { e with
      constructors := (b.name, target) :: e.constructors.filter (·.1 != b.name) }
  else e

/-- Installs a built-in object. -/
def install (e : Engine) (b : BuiltIn) : ObjectId × Engine :=
  let (target, e) := e.edit (Install.builtIn b)
  (target, e.noteConstructor b target)

/-- Installs a library: its objects, then its global functions, then its global values. -/
def installRegistry (e : Engine) (r : Registry) : Engine :=
  let e := r.objects.foldl (fun e b => (e.install b).2) e
  (e.edit do
    r.functions.forM (Install.method WellKnown.globalObject)
    r.values.forM fun (name, value) =>
      Install.insert WellKnown.globalObject name (.fixed value)).2

def create (config : Config) : Engine :=
  let bare : Engine :=
    { config, machine := ⟨WellKnown.store, ⟨[], 0, config.maxCallDepth⟩⟩ }
  if config.builtins then bare.installRegistry Library.core else bare

/-- Binds a global name to a value. -/
def defineValue (e : Engine) (name : String) (value : Value) : Engine :=
  (e.edit (Install.global name value)).2

/-- Binds a global name to a native function. -/
def defineFunction (e : Engine) (m : Method) (isConstructor : Bool) : Engine :=
  (e.edit do Install.global m.name (.object (← Install.function m isConstructor))).2

/-! ## Running -/

def compileNamed (e : Engine) (source name : String) : Except CompileError Program :=
  Program.compile source name e.config.strict

def compile (e : Engine) (source : String) : Except CompileError Program :=
  e.compileNamed source e.config.sourceName

open Evaluation Operation Evaluate

variable (call : Caller) (bound : Nat)

/-- A completion without references. -/
def settled : Completion Remainder → Evaluation (Completion Value)
  | .normal (some (.reference r)) => do
    match ← attempt .script (getValue call r) with
    | .ok value => return .normal (some value)
    | .error raised => return .throws (← caught raised)
  | .normal (some (.value value)) => return .normal (some value)
  | .throws (.value value) => return .throws value
  | completion =>
    match completion.departure? with
    | some departure => raise (.fault (.escapedProgram departure))
    | none => return .normal none

/-- Runs a script in the global environment. A reference that is left is read at once. -/
def execution (script : ScriptTree) : Evaluation (Completion Value) := do
  settled call (← runScript call bound script WellKnown.globalEnvironment)

/-- The text of a property, if it can be had without an error. -/
def readablePart (value : Value) (key : String) : Evaluation (Option String) := do
  match ← attempt .script (getV call value key) with
  | .ok .undefined | .error _ => return none
  | .ok part => return (← attempt .script (toText call part)).toOption

/-- How a thrown value is described: an object by its name and message. -/
def description (value : Value) : Evaluation String := do
  match value with
  | .object _ =>
    let name ← readablePart call value "name"
    let message ← readablePart call value "message"
    match name, message with
    | some name, some message => return if message.isEmpty then name else s!"{name}: {message}"
    | some name, none => return name
    | none, some message => return message
    | none, none => return "[object Object]"
  | _ => ask (·.plainText value)

/-- The value that a script leaves, or what it throws with the description. -/
def scriptValue (script : ScriptTree) : Evaluation (Except (String × Value) Value) := do
  match ← execution call bound script with
  | .normal value => return .ok (value.getD .undefined)
  | .throws value => return .error (← description call value, value)
  | .returns _ => raise (.fault (.atTopLevel .returns))
  | .breaks .. => raise (.fault (.atTopLevel .breaks))
  | .continues .. => raise (.fault (.atTopLevel .continues))

/-- What an evaluation at the outermost level comes to. Nothing is thrown there. -/
def result {α : Type} : Outcome (Except (String × Value) α) → Except RunError α
  | .value (.ok a) => .ok a
  | .value (.error (description, value)) => .error (.uncaught description value)
  | .raised (.fault fault) => .error (.fault fault)
  | .raised (.thrown value) => .error (.uncaught "" value)
  | .raised (.error cause) => .error (.uncaught cause.message .undefined)
  | .exhausted => .error .exhausted

/-- Runs a program. -/
def runProgram (e : Engine) (program : Program) : Except RunError Value × Engine :=
  let (outcome, e) := e.perform (scriptValue e.caller loopBound program.tree)
  (result outcome, e)

/-- Compiles and runs a source text. -/
def run (e : Engine) (source : String) : Except RunError Value × Engine :=
  match e.compile source with
  | .ok program => e.runProgram program
  | .error error => (.error (.compile error), e)

/-- Runs lines as one script. -/
def runLines (e : Engine) (lines : List String) : Except RunError Value × Engine :=
  e.run ("\n".intercalate lines)

/-- The value of a global name. -/
def binding (name : String) : Evaluation Value := do
  getValue call (← resolve WellKnown.globalEnvironment name false)

/-- The value of a global name; `undefined` if it has none. -/
def global (e : Engine) (name : String) : Value × Engine :=
  match e.perform (binding e.caller name) with
  | (.value value, e) => (value, e)
  | (_, e) => (.undefined, e)

end Engine

end ScriptEngine
