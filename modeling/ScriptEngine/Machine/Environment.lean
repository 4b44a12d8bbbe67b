import ScriptEngine.Machine.Dictionary
import ScriptEngine.Machine.Raised

/-!
# Environments

An environment gives meaning to names and stands inside an outer one. It either holds bindings of
its own or takes the properties of an object for bindings. A binding exists before it has a value:
until it is initialized, it can be neither read nor assigned.
-/
namespace ScriptEngine

/-- A declared name. An immutable binding of the `strict` kind complains about every assignment;
another one only about an assignment from strict code. -/
structure Binding where
  value : Option Value := none
  isMutable : Bool := true
  deletable : Bool := false
  strict : Bool := false

namespace Binding

/-- A binding that no script can remove. -/
def permanent : Binding := {}

/-- A binding that a deletion removes. -/
def removable : Binding := { deletable := true }

def constant (strict : Bool) : Binding := { isMutable := false, strict }

end Binding

abbrev Bindings := Dictionary Binding

namespace Bindings

/-- Adds a name, which must be new. -/
def create (bs : Bindings) (name : String) (binding : Binding) : Except Cause Bindings :=
  if bs.contains name then .error (.alreadyDeclared name) else .ok (bs.insert name binding)

/-- Gives a declared name its value. -/
def setInitial (bs : Bindings) (name : String) (value : Value) : Except Cause Bindings :=
  match bs.find? name with
  | some binding => .ok (bs.insert name { binding with value := some value })
  | none => .error (.notDefined name)

/-- Assigns to a name. A name that is not declared is declared by an assignment that is not
strict. -/
def assign (bs : Bindings) (name : String) (value : Value) (strict : Bool) :
    Except Cause Bindings :=
  match bs.find? name with
  | none =>
    if strict then .error (.notDefined name)
    else .ok (bs.insert name { Binding.removable with value := some value })
  | some binding =>
    if binding.value.isNone then .error (.uninitialized name)
    else if binding.isMutable then .ok (bs.insert name { binding with value := some value })
    else if strict || binding.strict then .error .constantAssignment
    else .ok bs

def read (bs : Bindings) (name : String) : Except Cause Value :=
  match bs.find? name with
  | some { value := some value, .. } => .ok value
  | some _ => .error (.uninitialized name)
  | none => .error (.notDefined name)

/-- Removes a name if it may be removed; the outcome says whether the name is gone. -/
def delete (bs : Bindings) (name : String) : Bindings × Bool :=
  match bs.find? name with
  | none => (bs, true)
  | some binding => if binding.deletable then (bs.erase name, true) else (bs, false)

def isInitialized (bs : Bindings) (name : String) : Bool :=
  (bs.find? name).any (·.value.isSome)

end Bindings

/-- Where an environment has its bindings. -/
inductive Record where
  | declarative (bindings : Bindings)
  | object (id : ObjectId)

structure Environment where
  record : Record
  outer : Option EnvironmentId

end ScriptEngine
