import ScriptEngine.Machine.Raised

/-!
# Completions

How a statement ends: normally, possibly with a value, or on its way to somewhere else. The places
that names and property accesses denote are references; a statement of a program may end with a
reference that nobody has read yet.
-/
namespace ScriptEngine

/-- What a reference starts from. -/
inductive ReferenceBase where
  /-- No environment has a binding of the name. -/
  | unresolvable
  /-- The environment with the binding. -/
  | environment (id : EnvironmentId)
  /-- The value whose property it is, which may be a primitive one. -/
  | property (base : Value)

/-- The place that a name or a property access denotes. -/
structure Reference where
  base : ReferenceBase
  name : String
  strict : Bool

namespace Reference

def isUnresolvable (r : Reference) : Bool :=
  match r.base with
  | .unresolvable => true
  | _ => false

def isProperty (r : Reference) : Bool :=
  match r.base with
  | .property _ => true
  | _ => false

/-- What a function that is called through the reference gets as `this`. -/
def receiver (r : Reference) : Value :=
  match r.base with
  | .property base => base
  | _ => .undefined

end Reference

/-- What a statement of a program may leave. -/
inductive Remainder where
  | value (value : Value)
  | reference (reference : Reference)

/-- How a statement ends. The value of one that is left early is that of what ran before. -/
inductive Completion (α : Type) where
  | normal (value : Option α)
  | returns (value : α)
  | throws (value : α)
  | breaks (label : Option String) (value : Option α)
  | continues (label : Option String) (value : Option α)

namespace Completion

variable {α : Type}

/-- The way in which the completion is not normal. -/
def departure? : Completion α → Option Departure
  | normal _ => none
  | returns _ => some .returns
  | throws _ => some .throws
  | breaks .. => some .breaks
  | continues .. => some .continues

def isNormal (completion : Completion α) : Bool := completion.departure?.isNone

def value? : Completion α → Option α
  | normal value | breaks _ value | continues _ value => value
  | returns value | throws value => some value

/-- The label that a `break` or `continue` names. -/
def label? : Completion α → Option String
  | breaks label _ | continues label _ => label
  | _ => none

/-- Fills in a value where there is none. -/
def updateEmpty (value : Option α) : Completion α → Completion α
  | normal none => normal value
  | breaks label none => breaks label value
  | continues label none => continues label value
  | completion => completion

/-- Whether the completion names one of some labels, or no label at all. -/
def targets (labels : List String) (completion : Completion α) : Bool :=
  match completion.label? with
  | some label => labels.contains label
  | none => true

/-- Whether a loop with some labels goes on after a round that ended so. -/
def letsLoopContinue (labels : List String) : Completion α → Bool
  | normal _ => true
  | continues none _ => true
  | continues (some label) _ => labels.contains label
  | _ => false

/-- Ends a `break` that names nothing, at the loop or switch that it leaves. -/
def endBreak (otherwise : α) : Completion α → Completion α
  | breaks none value => normal (some (value.getD otherwise))
  | completion => completion

/-- Ends a `break` that names a label, at the statement with the label. -/
def endLabelledBreak (label : String) : Completion α → Completion α
  | breaks (some target) value =>
    if target = label then normal value else breaks (some target) value
  | completion => completion

end Completion

end ScriptEngine
