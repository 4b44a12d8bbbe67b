import ScriptEngine.Engine.Engine

/-!
# Pictures

What a host sees of a value: an object with its properties and what they lead to. Objects are
numbered as they are met, an object that was met before is only referred to, and far from the
start of the walk objects are cut short. Well-known objects are named.
-/
namespace ScriptEngine

/-- What a picture says about a function. -/
structure FunctionFacts where
  isScript : Bool
  name : String
  parameters : Nat
  strict : Bool
  isConstructor : Bool

mutual

inductive Picture where
  | primitive (value : Value)
  | global
  | wellKnown (name : String)
  /-- An object that was met before. -/
  | seen (number : Nat)
  /-- An object that is too far away. -/
  | cut (number : Nat) (className : String)
  | object (number : Nat) (className : String) (extensible : Bool) (prototype : Option Picture)
      (properties : List (String × PropertyPicture)) (function : Option FunctionFacts)

inductive PropertyPicture where
  | data (value : Picture) (writable enumerable configurable : Bool)
  | accessor (getter setter : Option Picture) (enumerable configurable : Bool)

end

namespace Engine

/-- The name of a well-known object. -/
def wellKnownName? (e : Engine) (id : ObjectId) : Option String :=
  let errors := WellKnown.errorKinds.map fun kind =>
    (kind.name ++ "Prototype", WellKnown.errorPrototype (some kind))
  let prototypes :=
    [("ObjectPrototype", WellKnown.objectPrototype),
      ("FunctionPrototype", WellKnown.functionPrototype),
      ("ArrayPrototype", WellKnown.arrayPrototype),
      ("ErrorPrototype", WellKnown.errorPrototype none)] ++ errors
  ((prototypes ++ e.constructors).find? (·.2 == id)).map Prod.fst

end Engine

namespace Picture

def functionFacts? : ObjectKind → Option FunctionFacts
  | .script code _ => some ⟨true, code.name, code.parameters.length, code.strict, true⟩
  | .native code => some ⟨false, code.name, code.parameters.length, true, code.isConstructor⟩
  | _ => none

/-- The objects that were met, the last one first. -/
abbrev Walk := StateM (List ObjectId)

/-- The number that an object gets when it is met. -/
def meet (id : ObjectId) : Walk Nat := modifyGet fun met => (met.length, id :: met)

/-- The number of an object that was met. -/
def number? (id : ObjectId) (met : List ObjectId) : Option Nat :=
  (met.idxOf? id).map fun index => met.length - 1 - index

/-- A property, with what it leads to. -/
def ofProperty (value : Value → Walk Picture) : Property → Walk PropertyPicture
  | .data v writable enumerable configurable => do
    return .data (← value v) writable enumerable configurable
  | .accessor getter setter enumerable configurable => do
    let getter ← getter.mapM fun f => value (.object f)
    let setter ← setter.mapM fun f => value (.object f)
    return .accessor getter setter enumerable configurable

/-- An object with its prototype and its properties. -/
def ofObject (s : Store) (value : Value → Walk Picture) (id : ObjectId) : Walk Picture := do
  let o := s.object id
  let number ← meet id
  let prototype ← o.prototype.mapM fun prototype => value (.object prototype)
  let properties ← o.properties.entries.mapM fun (key, p) => do
    return (key, ← ofProperty value p)
  return .object number o.kind.className o.extensible prototype properties (functionFacts? o.kind)

/-- A value, with objects up to `depth` links away. -/
def ofValue (e : Engine) : Nat → Value → Walk Picture
  | depth, .object id => do
    if id = WellKnown.globalObject then return .global
    else match e.wellKnownName? id with
      | some name => return .wellKnown name
      | none =>
        match number? id (← get) with
        | some number => return .seen number
        | none =>
          match depth with
          | 0 => return .cut (← meet id) (e.machine.store.object id).kind.className
          | depth + 1 => ofObject e.machine.store (ofValue e depth) id
  | _, value => return .primitive value

end Picture

namespace Engine

/-- The number of links that a picture follows. -/
def pictureDepth : Nat := 5

/-- The picture of a value. -/
def picture (e : Engine) (value : Value) : Picture :=
  ((Picture.ofValue e pictureDepth value).run []).1

/-- The picture of a value as it is, even if it is a well-known object. -/
def closeUp (e : Engine) : Value → Picture
  | .object id =>
    ((Picture.ofObject e.machine.store (Picture.ofValue e (pictureDepth - 1)) id).run []).1
  | value => .primitive value

/-- The picture of a property, as one link away from its object. -/
def propertyPicture (e : Engine) (p : Property) : PropertyPicture :=
  ((Picture.ofProperty (Picture.ofValue e (pictureDepth - 1)) p).run []).1

end Engine

end ScriptEngine
