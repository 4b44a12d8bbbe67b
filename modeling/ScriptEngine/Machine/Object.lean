import ScriptEngine.Machine.Dictionary
import ScriptEngine.Machine.Native
import ScriptEngine.Machine.Value
import ScriptEngine.Tree.Basic

/-!
# Objects

An object has properties and, possibly, a prototype whose properties it inherits. Arrays keep their
`length` above all of their indices: an element at or past the end raises it, and a smaller
`length` removes the elements that it excludes.
-/
namespace ScriptEngine

/-- What kind of object it is. A script function closes over the environment that it was made
in. -/
inductive ObjectKind where
  | ordinary
  | array
  | error
  | arguments
  | script (code : FunctionCode) (environment : EnvironmentId)
  | native (code : NativeCode)

structure Object where
  kind : ObjectKind
  prototype : Option ObjectId := none
  extensible : Bool := true
  properties : Dictionary Property := .empty

namespace ObjectKind

def isArray : ObjectKind → Bool
  | array => true
  | _ => false

def isFunction : ObjectKind → Bool
  | script .. | native _ => true
  | _ => false

/-- Every script function can be constructed with. -/
def isConstructor : ObjectKind → Bool
  | script .. => true
  | native code => code.isConstructor
  | _ => false

def className : ObjectKind → String
  | ordinary => "Object"
  | array => "Array"
  | error => "Error"
  | arguments => "Arguments"
  | script .. | native _ => "Function"

/-- The name that a function was declared with, if the object is a function. -/
def functionName? : ObjectKind → Option String
  | script code _ => some code.name
  | native code => some code.name
  | _ => none

end ObjectKind

namespace Object

/-- The own property of a name. -/
def property? (o : Object) (key : String) : Option Property := o.properties.find? key

def keys (o : Object) : List String := o.properties.keys

/-- Sets an own property without asking whether that is allowed. -/
def put (o : Object) (key : String) (p : Property) : Object :=
  { o with properties := o.properties.insert key p }

/-- The definition of a property as every object but an array does it; nothing if it is not
allowed. -/
def defineOrdinary? (o : Object) (key : String) (d : Descriptor) : Option Object :=
  match o.property? key with
  | none => if o.extensible then some (o.put key d.toProperty) else none
  | some current => (current.redefine? d).map (o.put key)

/-- The deletion of a property, or nothing if it is not configurable. -/
def delete? (o : Object) (key : String) : Option Object :=
  match o.property? key with
  | none => some o
  | some p =>
    if p.configurable then some { o with properties := o.properties.erase key } else none

/-- The largest length of an array. -/
def maxLength : Nat := Nat.pow 2 32 - 1

/-- The index that a key denotes. All indices are below the largest length. -/
def arrayIndex? (key : String) : Option Nat :=
  (Text.readDecimal? key).filter (· < maxLength)

/-- The length of an array, as a 32-bit word. -/
def length (o : Object) : Nat :=
  match o.property? "length" with
  | some (.data (.number (.integer n)) _ _ _) => (n % 4294967296).toNat
  | _ => 0

def withLength (o : Object) (n : Nat) : Object :=
  match o.property? "length" with
  | some (.data _ writable enumerable configurable) =>
    o.put "length" (.data (.ofNat n) writable enumerable configurable)
  | _ => o

/-- Deletes the properties of some names, up to the first one that may not be deleted. -/
def deleteEach (o : Object) : List String → Object × Bool
  | [] => (o, true)
  | key :: rest =>
    match o.delete? key with
    | some o => o.deleteEach rest
    | none => (o, false)

/-- Removes the elements of an array from an index on, in the order of its keys. -/
def truncate (o : Object) (n : Nat) : Object × Bool :=
  if o.length ≤ n then (o, true)
  else o.deleteEach (o.keys.filter fun key => (arrayIndex? key).any (n ≤ ·))

/-- The length that a value stands for: only an integer in range does. -/
def lengthOf? : Value → Option Nat
  | .number (.integer n) => if 0 ≤ n ∧ n ≤ maxLength then some n.toNat else none
  | _ => none

/-- A definition with the outcome: the object unchanged if it was refused. -/
def orRefused (o : Object) : Option Object → Object × Bool
  | some o => (o, true)
  | none => (o, false)

/-- The definition of the `length` of an array. Elements go before the definition is judged. -/
def defineLength (o : Object) (d : Descriptor) : Object × Bool :=
  match d.value with
  | none => o.orRefused (o.defineOrdinary? "length" d)
  | some value =>
    match lengthOf? value with
    | none => (o, false)
    | some n =>
      match o.truncate n with
      | (o, true) => o.orRefused (o.defineOrdinary? "length" d)
      | (o, false) => (o, false)

/-- The definition of an element of an array. One at or past the end needs a writable `length`. -/
def defineElement (o : Object) (index : Nat) (key : String) (d : Descriptor) : Object × Bool :=
  if o.length ≤ index then
    if !(o.property? "length").any Property.writable then (o, false)
    else match o.defineOrdinary? key d with
      | some o => (o.withLength (index + 1), true)
      | none => (o, false)
  else o.orRefused (o.defineOrdinary? key d)

/-- The definition of a property: the object afterwards, and whether the definition succeeded. -/
def define (o : Object) (key : String) (d : Descriptor) : Object × Bool :=
  if !o.kind.isArray then o.orRefused (o.defineOrdinary? key d)
  else if key = "length" then o.defineLength d
  else match arrayIndex? key with
    | some index => o.defineElement index key d
    | none => o.orRefused (o.defineOrdinary? key d)

/-- Sets an own property of an object that a host assembles, where nothing has to be allowed. An
array still counts a new element. -/
def insert (o : Object) (key : String) (p : Property) : Object :=
  match arrayIndex? key with
  | some index =>
    if o.kind.isArray && o.length ≤ index then (o.withLength (index + 1)).put key p
    else o.put key p
  | none => o.put key p

/-- An array with the given elements; the places without one are holes. -/
def array (prototype : ObjectId) (places : List (Option Value)) : Object where
  kind := .array
  prototype := some prototype
  properties :=
    (Dictionary.singleton "length"
      (.data (.ofNat (min places.length maxLength)) true false false)).union
      (.indexed (places.map (Option.map Property.plain)))

/-- What holds of every array: its `length` is hidden, permanent and above all of its indices. -/
def WellFormed (o : Object) : Prop :=
  o.kind.isArray = true →
    ∃ n writable, n ≤ maxLength ∧
      o.property? "length" = some (.data (.number (.integer (n : Nat))) writable false false) ∧
      ∀ key ∈ o.keys, ∀ index, arrayIndex? key = some index → index < n

theorem wellFormed_of_not_array {o : Object} (h : o.kind.isArray = false) : o.WellFormed :=
  fun array => by rw [h] at array; cases array

theorem lt_of_arrayIndex?_decimal {i index : Nat} (h : arrayIndex? (Text.decimal i) = some index) :
    index = i ∧ index < maxLength := by
  unfold arrayIndex? at h
  rw [Option.filter_eq_some_iff] at h
  exact ⟨Text.eq_of_readDecimal?_decimal h.1, of_decide_eq_true h.2⟩

theorem ofNat_of_le_maxLength {n : Nat} (h : n ≤ maxLength) :
    Value.ofNat n = .number (.integer n) := by
  have : (Int.ofNat n).natAbs ≤ Binary64.maxSafe := by
    have : maxLength ≤ Binary64.maxSafe := by decide
    simpa using Nat.le_trans h this
  simp only [Value.ofNat, Number.ofNat, Number.ofInt]
  exact congrArg Value.number (if_pos this)

theorem wellFormed_array (prototype : ObjectId) (places : List (Option Value)) :
    (array prototype places).WellFormed := by
  refine fun _ => ⟨min places.length maxLength, true, Nat.min_le_right _ _, ?_, ?_⟩
  · rw [← ofNat_of_le_maxLength (Nat.min_le_right _ _)]
    simp only [array, property?, Dictionary.find?, Dictionary.union, Dictionary.Raw.find?_union]
    simp [Dictionary.singleton, Dictionary.Raw.ofEntries, Table.find?]
  · intro key mem index eq
    simp only [keys, array, Dictionary.union, Dictionary.Raw.union, Dictionary.singleton,
      Dictionary.Raw.ofEntries, List.mem_append, List.map_cons, List.map_nil,
      List.mem_singleton] at mem
    rcases mem with rfl | mem
    · revert eq
      have : arrayIndex? "length" = none := by decide
      simp [this]
    · have mem := (List.mem_filter.1 mem).1
      obtain ⟨i, _, high, rfl⟩ := index_of_mem_indexEntries mem
      have := lt_of_arrayIndex?_decimal eq
      simp only [List.length_map] at high
      omega

end Object

end ScriptEngine
