import ScriptEngine.Machine.Store

/-!
# Well-known objects

The objects and environments that are there before any script runs, in every engine under the same
numbers: the prototypes that literals and errors of the engine get, the global object, and the two
global environments. The outer one of these has the properties of the global object as bindings;
the inner one holds what scripts declare with `let` and `const`.
-/
namespace ScriptEngine.WellKnown

def objectPrototype : ObjectId := ⟨0⟩

def functionPrototype : ObjectId := ⟨1⟩

def arrayPrototype : ObjectId := ⟨2⟩

/-- The prototype of all errors, and those of the kinds of errors behind it. -/
def errorPrototype : Option ErrorKind → ObjectId
  | none => ⟨3⟩
  | some .typeError => ⟨4⟩
  | some .referenceError => ⟨5⟩
  | some .rangeError => ⟨6⟩
  | some .syntaxError => ⟨7⟩

def globalObject : ObjectId := ⟨8⟩

def globalObjectEnvironment : EnvironmentId := ⟨0⟩

def globalEnvironment : EnvironmentId := ⟨1⟩

/-- The kinds of errors in the order of their prototypes. -/
def errorKinds : List ErrorKind := [.typeError, .referenceError, .rangeError, .syntaxError]

/-- The name of the constructor of a kind of error. -/
def errorName (kind : Option ErrorKind) : String := (kind.map ErrorKind.name).getD "Error"

/-- The prototype of a built-in constructor, by the name of the constructor. -/
def prototypeOf? : String → Option ObjectId
  | "Object" => some objectPrototype
  | "Function" => some functionPrototype
  | "Array" => some arrayPrototype
  | "Error" => some (errorPrototype none)
  | name => (errorKinds.find? (·.name == name)).map fun kind => errorPrototype (some kind)

def errorPrototypeObject (kind : Option ErrorKind) : Object where
  kind := .ordinary
  prototype := some (kind.elim objectPrototype fun _ => errorPrototype none)
  properties :=
    (Dictionary.singleton "name" (.hidden (.string (errorName kind)))).insert "message"
      (.hidden (.string ""))

/-- The store of an engine without any library. -/
def store : Store where
  objects :=
    #[{ kind := .ordinary },
      { kind := .native ⟨"", [], .nothing, false⟩, prototype := some objectPrototype },
      Object.array objectPrototype [],
      errorPrototypeObject none] ++
    (errorKinds.map fun kind => errorPrototypeObject (some kind)).toArray ++
    #[{ kind := .ordinary, prototype := some objectPrototype }]
  environments :=
    #[⟨.object globalObject, none⟩, ⟨.declarative .empty, some globalObjectEnvironment⟩]
  log := #[]

end ScriptEngine.WellKnown
