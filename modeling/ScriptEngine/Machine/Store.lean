import ScriptEngine.Machine.Environment
import ScriptEngine.Machine.Object

/-!
# The store

All objects and environments of an engine, and the lines that were printed. Objects and
environments are only ever added, and a new one is linked to one that is there already: the
prototype of an object, and the environment outside another, have smaller numbers. So it is enough
to follow the links from a number on for that many steps.

`Step` lists the elementary changes that evaluation can make to a store. Whatever they all
preserve, every evaluation preserves.
-/
namespace ScriptEngine

structure Store where
  objects : Array Object
  environments : Array Environment
  log : Array String

namespace Store

variable (s : Store)

/-- The object of a number. -/
def object (id : ObjectId) : Object := s.objects.getD id.index { kind := .ordinary }

/-- The environment of a number. -/
def environment (id : EnvironmentId) : Environment :=
  s.environments.getD id.index ⟨.declarative .empty, none⟩

/-- Adds an object. -/
def allocate (o : Object) : ObjectId × Store :=
  (⟨s.objects.size⟩, { s with objects := s.objects.push o })

def setObject (id : ObjectId) (o : Object) : Store :=
  { s with objects := s.objects.setIfInBounds id.index o }

/-- Defines a property of an object; the outcome says whether that was allowed. -/
def define (id : ObjectId) (key : String) (d : Descriptor) : Bool × Store :=
  let (o, allowed) := (s.object id).define key d
  (allowed, s.setObject id o)

/-- Deletes a property of an object; the outcome says whether the property is gone. -/
def delete (id : ObjectId) (key : String) : Bool × Store :=
  match (s.object id).delete? key with
  | some o => (true, s.setObject id o)
  | none => (false, s)

/-- Stops an object from getting further properties. -/
def preventExtensions (id : ObjectId) : Store :=
  s.setObject id { s.object id with extensible := false }

/-- Adds an environment. -/
def openEnvironment (record : Record) (outer : Option EnvironmentId) : EnvironmentId × Store :=
  (⟨s.environments.size⟩, { s with environments := s.environments.push ⟨record, outer⟩ })

/-- Changes the bindings of an environment that has bindings of its own. Where the change is refused
nothing changes. -/
def editBindings (id : EnvironmentId) (edit : Bindings → Except Cause Bindings) :
    Except Cause Unit × Store :=
  match s.environment id with
  | ⟨.declarative bindings, outer⟩ =>
    match edit bindings with
    | .ok bindings =>
      (.ok (), { s with
        environments := s.environments.setIfInBounds id.index ⟨.declarative bindings, outer⟩ })
    | .error cause => (.error cause, s)
  | ⟨.object _, _⟩ => (.ok (), s)

theorem eq_of_editBindings_error {s t : Store} {id : EnvironmentId}
    {edit : Bindings → Except Cause Bindings} {cause : Cause}
    (h : s.editBindings id edit = (.error cause, t)) : t = s := by
  unfold editBindings at h
  split at h
  · split at h
    · cases h
    · exact (congrArg Prod.snd h).symm
  · cases h

def print (line : String) : Store := { s with log := s.log.push line }

/-- The elementary changes of a store. -/
inductive Step : Store → Store → Prop where
  | allocate (s : Store) (o : Object) (h : o.WellFormed) : Step s (s.allocate o).2
  | define (s : Store) (id : ObjectId) (key : String) (d : Descriptor) :
    Step s (s.define id key d).2
  | delete (s : Store) (id : ObjectId) (key : String) : Step s (s.delete id key).2
  | preventExtensions (s : Store) (id : ObjectId) : Step s (s.preventExtensions id)
  | openEnvironment (s : Store) (outer : Option EnvironmentId) :
    Step s (s.openEnvironment (.declarative .empty) outer).2
  | create {s t : Store} (id : EnvironmentId) (name : String) (binding : Binding)
    (fresh : binding.value = none) (h : s.editBindings id (·.create name binding) = (.ok (), t)) :
    Step s t
  | setInitial {s t : Store} (id : EnvironmentId) (name : String) (value : Value)
    (h : s.editBindings id (·.setInitial name value) = (.ok (), t)) : Step s t
  | assign {s t : Store} (id : EnvironmentId) (name : String) (value : Value) (strict : Bool)
    (h : s.editBindings id (·.assign name value strict) = (.ok (), t)) : Step s t
  | forget {s t : Store} (id : EnvironmentId) (name : String)
    (h : s.editBindings id (fun bindings => .ok (bindings.delete name).1) = (.ok (), t)) :
    Step s t
  | print (s : Store) (line : String) : Step s (s.print line)

/-- A store after any number of elementary changes. -/
inductive Reaches : Store → Store → Prop where
  | refl (s : Store) : Reaches s s
  | tail {s t u : Store} (before : Reaches s t) (last : Step t u) : Reaches s u

theorem Reaches.trans {s t u : Store} (first : Reaches s t) (second : Reaches t u) :
    Reaches s u := by
  induction second with
  | refl => exact first
  | tail _ last ih => exact ih.tail last

theorem Step.reaches {s t : Store} (h : Step s t) : Reaches s t := (Reaches.refl s).tail h

/-! ## Following links -/

/-- An object and the prototypes behind it, for at most `bound` objects. -/
def ancestryUpTo : Nat → ObjectId → List ObjectId
  | 0, _ => []
  | bound + 1, id =>
    id :: match (s.object id).prototype with
      | some prototype => ancestryUpTo bound prototype
      | none => []

/-- An object and the prototypes behind it, the object first. -/
def ancestry (id : ObjectId) : List ObjectId := s.ancestryUpTo (id.index + 1) id

/-- The property of a name on the first of some objects that has one. -/
def lookupAmong (key : String) : List ObjectId → Option Property
  | [] => none
  | id :: rest =>
    match (s.object id).property? key with
    | some p => some p
    | none => lookupAmong key rest

/-- The own or inherited property of a name. -/
def lookup (id : ObjectId) (key : String) : Option Property := s.lookupAmong key (s.ancestry id)

/-- Whether an object has or inherits a property. -/
def hasProperty (id : ObjectId) (key : String) : Bool :=
  (s.ancestry id).any fun ancestor => (s.object ancestor).properties.contains key

def enumerableAmong (key : String) : List ObjectId → Bool
  | [] => false
  | id :: rest =>
    match (s.object id).property? key with
    | some p => p.enumerable
    | none => enumerableAmong key rest

/-- Whether the property that a name denotes on an object is enumerable. -/
def isEnumerable (id : ObjectId) (key : String) : Bool :=
  s.enumerableAmong key (s.ancestry id)

/-- The enumerable keys of some objects, without those that an earlier object has. -/
def visibleKeys (shadowed : List String) : List ObjectId → List String
  | [] => []
  | id :: rest =>
    let entries := (s.object id).properties.entries
    (entries.filter fun (key, p) => p.enumerable && !shadowed.contains key).map Prod.fst ++
      visibleKeys (shadowed ++ entries.map Prod.fst) rest

/-- The names that a loop over an object visits. -/
def forInKeys (id : ObjectId) : List String := s.visibleKeys [] (s.ancestry id)

/-- The enumerable own keys of an object. -/
def enumerableKeys (id : ObjectId) : List String :=
  ((s.object id).properties.entries.filter fun (_, p) => p.enumerable).map Prod.fst

/-- Whether an object is among the prototypes of another. -/
def inherits (id prototype : ObjectId) : Bool := (s.ancestry id).tail.contains prototype

/-- Whether an environment itself has a binding of a name. -/
def hasBinding (id : EnvironmentId) (name : String) : Bool :=
  match (s.environment id).record with
  | .declarative bindings => bindings.contains name
  | .object object => s.hasProperty object name

/-- Whether an environment itself has a binding of a name, with a value. -/
def isInitialized (id : EnvironmentId) (name : String) : Bool :=
  match (s.environment id).record with
  | .declarative bindings => bindings.isInitialized name
  | .object object => s.hasProperty object name

/-- The innermost environment with a binding of a name, among an environment and those outside of
it, looking at no more than `bound`. -/
def resolveUpTo (name : String) : Nat → EnvironmentId → Option EnvironmentId
  | 0, _ => none
  | bound + 1, id =>
    if s.hasBinding id name then some id
    else match (s.environment id).outer with
      | some outer => resolveUpTo name bound outer
      | none => none

/-- The innermost environment with a binding of a name. -/
def resolve (id : EnvironmentId) (name : String) : Option EnvironmentId :=
  s.resolveUpTo name (id.index + 1) id

/-! ## Values -/

def isCallable : Value → Bool
  | .object id => (s.object id).kind.isFunction
  | _ => false

def isConstructor : Value → Bool
  | .object id => (s.object id).kind.isConstructor
  | _ => false

/-- What `typeof` says. -/
def typeOf : Value → String
  | .undefined => "undefined"
  | .null => "object"
  | .boolean _ => "boolean"
  | .string _ => "string"
  | .number _ => "number"
  | .object id => if (s.object id).kind.isFunction then "function" else "object"

/-- The text of a value, for which no script has to run: an object shows its class. -/
def plainText : Value → String
  | .undefined => "undefined"
  | .null => "null"
  | .boolean b => if b then "true" else "false"
  | .string text => text
  | .number n => n.text
  | .object id => s!"[object {(s.object id).kind.className}]"

/-- The text of a value for a reader: a function shows its declared name. -/
def display : Value → String
  | .object id =>
    match (s.object id).kind.functionName? with
    | some name => s!"function {name}() \x7b ... \x7d"
    | none => s.plainText (.object id)
  | value => s.plainText value

end Store

end ScriptEngine
