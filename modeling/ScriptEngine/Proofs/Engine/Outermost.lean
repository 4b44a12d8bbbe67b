import ScriptEngine.Engine.Engine
import ScriptEngine.Proofs.Evaluation.Calls

/-!
# Outermost evaluations keep contracts

What a host evaluates on an engine: whole scripts, whose value is read and whose error is described,
and the value of a global name.
-/
namespace ScriptEngine.Engine

open Evaluation Operation Evaluate Contract

/-- How a script ends once its value has been read. -/
def Settled : Completion Value → Prop
  | .normal _ | .throws _ => True
  | _ => False

variable {C : Contract} {call : Caller}

section

variable (lawful : C.Lawful) (calls : C.Calls call)

include lawful calls

/-- What is left of a reference is its value, or what reading it raises. -/
theorem settled_reference_keeps (r : Reference) :
    C.Keeps (settled call (.normal (some (.reference r)))) Settled := by
  refine (getValue_safe lawful calls r).attempt.bind fun result attempted => ?_
  cases result with
  | ok value => exact .pure trivial
  | error raised => exact (caught_safe lawful attempted).bind fun _ => .pure trivial

theorem settled_keeps {completion : Completion Remainder} (finished : Finished completion) :
    C.Keeps (settled call completion) Settled := by
  cases completion with
  | normal remainder =>
    match remainder with
    | none | some (.value _) => exact .pure trivial
    | some (.reference r) => exact settled_reference_keeps lawful calls r
  | throws remainder =>
    cases remainder with
    | value => exact .pure trivial
    | reference => cases finished
  | _ => cases finished

/-- Where anything may be raised, it does not matter how the script has ended. -/
theorem settled_safe (lenient : ∀ raised, C.raised raised) (completion : Completion Remainder) :
    C.Safe (settled call completion) := by
  unfold settled
  split
  next r => exact (settled_reference_keeps lawful calls r).safe
  · exact .pure trivial
  · exact .pure trivial
  · split
    · exact .raise (lenient _)
    · exact .pure trivial

theorem readablePart_safe (value : Value) (key : String) :
    C.Safe (readablePart call value key) := by
  refine (getV_safe lawful calls value key).attempt.bind fun part _ => ?_
  split
  · exact .pure trivial
  · exact .pure trivial
  · exact (toText_safe lawful calls _).attempt.bind fun _ _ => .pure trivial

theorem description_safe (value : Value) : C.Safe (description call value) := by
  unfold description
  split
  · refine (readablePart_safe lawful calls _ "name").bind fun name => ?_
    refine (readablePart_safe lawful calls _ "message").bind fun message => ?_
    split <;> exact .pure trivial
  · exact .asked _

/-- The value of a script is safe if its execution is, and settles how the script has ended unless
faults may be raised. -/
theorem scriptValue_of_execution {tree : ScriptTree} {bound : Nat} {Q : Completion Value → Prop}
    (executed : C.Keeps (execution call bound tree) Q)
    (settles : ∀ completion, Q completion →
      Settled completion ∨ ∀ fault, C.raised (.fault fault)) :
    C.Safe (scriptValue call bound tree) := by
  refine executed.bind fun completion holds => ?_
  cases completion with
  | normal value => exact .pure trivial
  | throws value => exact (description_safe lawful calls value).bind fun _ => .pure trivial
  | returns | breaks | continues =>
    rcases settles _ holds with settled | lenient
    · cases settled
    · exact .raise (lenient _)

theorem binding_safe (name : String) : C.Safe (binding call name) :=
  (resolve_safe _ name false).bind fun place => getValue_safe lawful calls place

end

section

variable {T : FunctionCode → Prop} (governing : C.Governing T) (calls : C.Calls call)

include governing calls

theorem execution_keeps {tree : ScriptTree} (admits : C.Admits T tree) (bound : Nat) :
    C.Keeps (execution call bound tree) Settled :=
  (runScript_keeps governing calls bound admits _).bind
    fun _ => settled_keeps governing.toLawful calls

theorem scriptValue_safe {tree : ScriptTree} (admits : C.Admits T tree) (bound : Nat) :
    C.Safe (scriptValue call bound tree) :=
  scriptValue_of_execution governing.toLawful calls
    (execution_keeps governing calls admits bound) fun _ => .inl

end

end ScriptEngine.Engine
