import ScriptEngine.Number.Text

/-!
# Values and properties

Objects and environments live in a store and are known by their number; all other values stand for
themselves. A property is a value or a pair of functions, together with what may be done to it. A
descriptor is a property with parts left out, as a definition gives it.
-/
namespace ScriptEngine

/-- The number of an object in the store. -/
structure ObjectId where
  index : Nat
deriving DecidableEq, Repr, Inhabited

/-- The number of an environment in the store. -/
structure EnvironmentId where
  index : Nat
deriving DecidableEq, Repr, Inhabited

inductive Value where
  | undefined
  | null
  | boolean (value : Bool)
  | string (value : String)
  | number (value : Number)
  | object (id : ObjectId)
deriving Inhabited

namespace Value

def ofNat (n : Nat) : Value := .number (.ofNat n)

def ofInt (n : Int) : Value := .number (.ofInt n)

/-- The values that have no properties at all. -/
def isNullish : Value → Bool
  | undefined | null => true
  | _ => false

def isUndefined : Value → Bool
  | undefined => true
  | _ => false

def isObject : Value → Bool
  | object _ => true
  | _ => false

/-- Equality of a definition with what is there: NaN equals itself and the two zeros differ. -/
def same : Value → Value → Bool
  | undefined, undefined | null, null => true
  | boolean a, boolean b => a == b
  | string a, string b => a == b
  | number a, number b => a.same b
  | object a, object b => a == b
  | _, _ => false

/-- The operator `===`: NaN equals nothing and the two zeros are equal. -/
def strictlyEqual : Value → Value → Bool
  | undefined, undefined | null, null => true
  | boolean a, boolean b => a == b
  | string a, string b => a == b
  | number a, number b => a.equal b
  | object a, object b => a == b
  | _, _ => false

/-- Equality as a host compares values: NaN equals itself and the two zeros are equal. -/
def indistinct : Value → Value → Bool
  | undefined, undefined | null, null => true
  | boolean a, boolean b => a == b
  | string a, string b => a == b
  | number a, number b => a.indistinct b
  | object a, object b => a == b
  | _, _ => false

/-- Whether a condition holds: all values do except nothing, false, zero, NaN and the empty
text. -/
def isTrue : Value → Bool
  | undefined | null => false
  | boolean b => b
  | string s => !s.isEmpty
  | number n => !(n.isZero || n.isNaN)
  | object _ => true

end Value

/-- A property of an object. -/
inductive Property where
  | data (value : Value) (writable enumerable configurable : Bool)
  | accessor (getter setter : Option ObjectId) (enumerable configurable : Bool)

namespace Property

/-- The property that an assignment makes. -/
def plain (value : Value) : Property := data value true true true

/-- A property that does not show in enumerations, as methods of the library are. -/
def hidden (value : Value) : Property := data value true false true

/-- A property that can neither be changed nor removed nor enumerated. -/
def fixed (value : Value) : Property := data value false false false

def isData : Property → Bool
  | data .. => true
  | accessor .. => false

def enumerable : Property → Bool
  | data _ _ e _ => e
  | accessor _ _ e _ => e

def configurable : Property → Bool
  | data _ _ _ c => c
  | accessor _ _ _ c => c

def writable : Property → Bool
  | data _ w _ _ => w
  | accessor .. => false

def withFlags (enumerable configurable : Bool) : Property → Property
  | data value writable _ _ => data value writable enumerable configurable
  | accessor getter setter _ _ => accessor getter setter enumerable configurable

end Property

/-- A definition of a property. What is left out keeps its value on a property that exists, and is
`undefined` or false on a new one. An accessor given as `some none` is explicitly undefined. -/
structure Descriptor where
  value : Option Value := none
  writable : Option Bool := none
  getter : Option (Option ObjectId) := none
  setter : Option (Option ObjectId) := none
  enumerable : Option Bool := none
  configurable : Option Bool := none

namespace Descriptor

/-- The full definition of a property. -/
def ofProperty : Property → Descriptor
  | .data value writable enumerable configurable =>
    { value := some value, writable := some writable, enumerable := some enumerable,
      configurable := some configurable }
  | .accessor getter setter enumerable configurable =>
    { getter := some getter, setter := some setter, enumerable := some enumerable,
      configurable := some configurable }

/-- A definition that gives a value and nothing else. -/
def ofValue (value : Value) : Descriptor := { value := some value }

def isAccessor (d : Descriptor) : Bool := d.getter.isSome || d.setter.isSome

def isData (d : Descriptor) : Bool := d.value.isSome || d.writable.isSome

/-- A definition that is about neither a value nor accessors. -/
def isGeneric (d : Descriptor) : Bool := !d.isAccessor && !d.isData

/-- The property that a definition makes where there is none. -/
def toProperty (d : Descriptor) : Property :=
  let enumerable := d.enumerable.getD false
  let configurable := d.configurable.getD false
  if d.isAccessor then .accessor (d.getter.getD none) (d.setter.getD none) enumerable configurable
  else .data (d.value.getD .undefined) (d.writable.getD false) enumerable configurable

end Descriptor

namespace Property

/--
What a definition makes of an existing property, or nothing if it is not allowed. A property that
is not configurable keeps its kind, its flags and its accessors; its value may change as long as
it is writable, and being writable may be given up but not regained.
-/
def redefine? (current : Property) (d : Descriptor) : Option Property :=
  let enumerable := d.enumerable.getD current.enumerable
  let configurable := d.configurable.getD current.configurable
  if !current.configurable && (configurable || enumerable != current.enumerable) then none
  else if d.isGeneric then some (current.withFlags enumerable configurable)
  else if current.isData != d.isData then
    if !current.configurable then none
    else if d.isData then
      some (.data (d.value.getD .undefined) (d.writable.getD false) enumerable configurable)
    else some (.accessor (d.getter.getD none) (d.setter.getD none) enumerable configurable)
  else match current with
    | .data value writable _ free =>
      if !free && !writable && (d.writable == some true || d.value.any (!·.same value)) then none
      else some (.data (d.value.getD value) (d.writable.getD writable) enumerable configurable)
    | .accessor getter setter _ free =>
      if !free && (d.getter.any (· != getter) || d.setter.any (· != setter)) then none
      else
        some (.accessor (d.getter.getD getter) (d.setter.getD setter) enumerable configurable)

end Property

end ScriptEngine
