import ScriptEngine.Evaluate.Function

/-!
# Registries

What a library consists of, and how it comes into a store. Installing happens outside of scripts:
properties are put in place without asking whether they may be.
-/
namespace ScriptEngine

/-- A native function with its name and parameters. -/
structure Method where
  name : String
  parameters : List String
  behaviour : Native

namespace Method

def code (m : Method) (isConstructor : Bool) : NativeCode :=
  ⟨m.name, m.parameters, m.behaviour, isConstructor⟩

end Method

/-- An object of a library, which is a function if it has a constructor. -/
structure BuiltIn where
  name : String
  /-- The built-in whose prototype the prototype inherits from. -/
  parent : Option String := some "Object"
  methods : List Method := []
  prototypeMethods : List Method := []
  /-- Properties that never change. -/
  properties : List (String × Value) := []
  /-- The parameters of the constructor and what it does. -/
  constructor : Option (List String × Native) := none

/-- What a library consists of, in the order of installation. -/
structure Registry where
  objects : List BuiltIn := []
  functions : List Method := []
  values : List (String × Value) := []

namespace Registry

/-- Registers an object; one of the same name goes. -/
def addObject (r : Registry) (b : BuiltIn) : Registry :=
  { r with objects := r.objects.filter (·.name != b.name) ++ [b] }

/-- Registers a global function; one of the same name goes. -/
def addFunction (r : Registry) (m : Method) : Registry :=
  { r with functions := r.functions.filter (·.name != m.name) ++ [m] }

/-- Registers a global value; one of the same name goes. -/
def addValue (r : Registry) (name : String) (value : Value) : Registry :=
  { r with values := r.values.filter (·.1 != name) ++ [(name, value)] }

def object? (r : Registry) (name : String) : Option BuiltIn := r.objects.find? (·.name == name)

def objectNames (r : Registry) : List String := r.objects.map BuiltIn.name

/-- Whether an object has a method, by itself or on its prototype. -/
def hasMethod (r : Registry) (object method : String) : Bool :=
  (r.object? object).any fun b => (b.methods ++ b.prototypeMethods).any (·.name == method)

end Registry

/-! ## Installation -/

/-- Sets a property of an object without asking. -/
def Store.insert (s : Store) (id : ObjectId) (key : String) (p : Property) : Store :=
  s.setObject id ((s.object id).insert key p)

namespace Install

/-- Adds an object. -/
def add (o : Object) : StateM Store ObjectId := modifyGet (·.allocate o)

def insert (id : ObjectId) (key : String) (p : Property) : StateM Store Unit :=
  modify (·.insert id key p)

/-- Binds a global name to a value that scripts can change. -/
def global (name : String) (value : Value) : StateM Store Unit :=
  insert WellKnown.globalObject name (.hidden value)

def function (m : Method) (isConstructor : Bool) : StateM Store ObjectId :=
  add (Evaluate.nativeObject (m.code isConstructor))

def method (holder : ObjectId) (m : Method) : StateM Store Unit := do
  insert holder m.name (.hidden (.object (← function m false)))

/-- The object of a built-in, and the prototype that its methods for instances go to. -/
def target (b : BuiltIn) : StateM Store (ObjectId × Option ObjectId) := do
  match b.constructor with
  | some (parameters, behaviour) =>
    let target ← function ⟨b.name, parameters, behaviour⟩ true
    let prototype ← match WellKnown.prototypeOf? b.name with
      | some prototype => pure prototype
      | none => add { kind := .ordinary, prototype := b.parent.bind WellKnown.prototypeOf? }
    insert prototype "constructor" (.hidden (.object target))
    insert target "prototype" (.fixed (.object prototype))
    return (target, some prototype)
  | none =>
    let target ← add { kind := .ordinary, prototype := some WellKnown.objectPrototype }
    return (target, WellKnown.prototypeOf? b.name)

/-- Installs a built-in under its global name. -/
def builtIn (b : BuiltIn) : StateM Store ObjectId := do
  let (target, prototype) ← target b
  if let some prototype := prototype then b.prototypeMethods.forM (method prototype)
  b.methods.forM (method target)
  b.properties.forM fun (key, value) => insert target key (.fixed value)
  global b.name (.object target)
  return target

end Install

end ScriptEngine
