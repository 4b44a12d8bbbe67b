import ScriptEngine.Proofs.Engine.ReadBack
import ScriptEngine.Proofs.Engine.StringObjects
import ScriptEngine.Proofs.Evaluation.Alike
import ScriptEngine.Proofs.Evaluation.CompoundAssignment
import ScriptEngine.Proofs.Number.Arithmetic

/-!
# Forwarding arguments

A list of values can be handed on as an object: an array that is built from it, or the object in
which a function sees its arguments. As long as the object is what its builder left (`Lists`),
reading it back gives the values again, and nothing happens on the way (`elementsOf_has`). So a
function that is applied to the object does the same as one that is called with the values
(`arguments_forwarded`). Too long a list is refused before the function runs.
-/
namespace ScriptEngine

/-! ## Lists as objects -/

open Evaluation Operation Evaluate

/-- The builders of an object that stands for a list of values: an array of them, or the object in
which a function sees its arguments. -/
inductive BuildsList (values : List Value) : Evaluation ObjectId → Prop where
  | array : BuildsList values (newArrayOf values)
  | arguments (f : ObjectId) (strict : Bool) : BuildsList values (newArguments f values strict)

/-- In the store the object is still what a builder of the list has left. -/
def Store.HasListOf (s : Store) (values : List Value) (list : ObjectId) : Prop :=
  ∃ (build : Evaluation ObjectId) (before after : Machine), BuildsList values build ∧
    build.run before = (.value list, after) ∧ s.object list = after.store.object list

/-- What is read of a list: it states its length, as far as that matters, and has each of the values
under its index. -/
structure Object.Lists (o : Object) (values : List Value) : Prop where
  length : ∃ count writable enumerable configurable,
    o.property? "length" = some (.data (.ofNat count) writable enumerable configurable) ∧
      min (Library.maxArguments + 1) count = min (Library.maxArguments + 1) values.length
  element : ∀ (i : Nat) (value : Value), values[i]? = some value →
    o.property? (Text.decimal i) = some (.plain value)

section

variable {values : List Value} {i : Nat} {value : Value}

theorem find?_indexed_plain (there : values[i]? = some value) :
    (Dictionary.indexed (values.map fun value => some (Property.plain value))).find?
      (Text.decimal i) = some (.plain value) := by
  rw [Dictionary.find?_indexed, Text.readDecimal?_eq_some_iff.2 rfl]
  simp [there]

theorem lists_array (values : List Value) :
    (Object.array WellKnown.arrayPrototype (values.map some)).Lists values where
  length := by
    have most : Library.maxArguments + 1 ≤ Object.maxLength := by decide
    refine ⟨min values.length Object.maxLength, true, false, false, ?_, by omega⟩
    rw [Object.property?, Object.array, Dictionary.find?_union, Dictionary.find?_singleton,
      if_pos rfl, Option.some_or, List.length_map]
  element i value there := by
    have other := Text.decimal_ne (show Text.readDecimal? "length" = none by decide) i
    rw [Object.property?, Object.array, Dictionary.find?_union, Dictionary.find?_singleton,
      if_neg other, Option.none_or, List.map_map]
    exact find?_indexed_plain there

/-- The object in which a function sees its arguments. -/
theorem lists_of_counted {o : Object} {f : ObjectId} {strict : Bool}
    (properties : o.properties =
      let indexed := Dictionary.indexed (values.map fun value => some (Property.plain value))
      let counted := indexed.insert "length" (.hidden (.ofNat values.length))
      if strict then counted else counted.insert "callee" (.hidden (.object f))) :
    o.Lists values where
  length := by
    refine ⟨values.length, true, false, true, ?_, rfl⟩
    rw [Object.property?, properties]
    cases strict <;> simp [Dictionary.find?_insert, Property.hidden]
  element i value there := by
    have found := find?_indexed_plain there
    have other := Text.decimal_ne (show Text.readDecimal? "length" = none by decide) i
    have another := Text.decimal_ne (show Text.readDecimal? "callee" = none by decide) i
    rw [Object.property?, properties]
    cases strict <;> simp [Dictionary.find?_insert, other, another, found]

theorem object_of_allocate {o : Object} (wellFormed : o.WellFormed) {before after : Machine}
    {id : ObjectId} (made : (allocate o wellFormed).run before = (.value id, after)) :
    after.store.object id = o := by
  cases made
  exact (Store.object_allocate before.store o _).trans (if_pos rfl)

theorem Store.HasListOf.lists {s : Store} {list : ObjectId} (has : s.HasListOf values list) :
    (s.object list).Lists values := by
  obtain ⟨build, before, after, builds, built, same⟩ := has
  rw [same]
  cases builds with
  | array =>
    rw [object_of_allocate (Object.wellFormed_array _ _) built]
    exact lists_array values
  | arguments f strict =>
    rw [object_of_allocate (Object.wellFormed_of_not_array rfl) built]
    exact lists_of_counted rfl

end

/-! ## Reading a list back -/

namespace Library

variable {services : Services} {m : Machine} {list : ObjectId} {values : List Value}

theorem getOwn_has (call : Caller) {key : String} {value : Value}
    {writable enumerable configurable : Bool}
    (own : (m.store.object list).property? key =
      some (.data value writable enumerable configurable)) :
    (getOwn call list key).Has m value := by
  refine (has_ask _ m).bind ?_
  rw [lookup_of_own own]
  exact has_pure value m

/-- All items from an index on are collected if each of them has a value. -/
theorem collect_has {α : Type} {item : Nat → Evaluation α} {rest : List α} {index : Nat}
    (items : ∀ (i : Nat) (a : α), rest[i]? = some a → (item (index + i)).Has m a)
    (collected : List α) :
    (collect item collected index rest.length).Has m (collected.reverse ++ rest) := by
  induction rest generalizing collected index with
  | nil =>
    rw [List.append_nil]
    exact has_pure _ m
  | cons a rest ih =>
    refine (items 0 a rfl).bind ?_
    have later : (collect item (a :: collected) (index + 1) rest.length).Has m
        ((a :: collected).reverse ++ rest) := by
      refine ih (fun i b there => ?_) (a :: collected)
      rw [Nat.add_assoc, Nat.add_comm 1 i]
      exact items (i + 1) b there
    rwa [List.reverse_cons, List.append_assoc] at later

theorem elementsOf_alike (services : Services) (lists : (m.store.object list).Lists values) :
    (elementsOf services list).Alike
      (if maxArguments < values.length then fail .argumentCount
        else collect (fun index => getOwn services.call list (Text.decimal index)) [] 0
          values.length) m := by
  obtain ⟨count, writable, enumerable, configurable, own, counted⟩ := lists.length
  refine (getOwn_has services.call own).alike.trans ?_
  have number : (toNumber services.call (.ofNat count)).Has m (.ofNat count) := by
    rw [Value.ofNat, toNumber_number]
    exact has_pure _ m
  refine number.alike.trans ?_
  have small : maxArguments + 1 ≤ Binary64.maxSafe := by decide
  rw [Number.clampNat_ofNat small, counted]
  by_cases long : maxArguments < values.length
  · rw [if_pos long, if_pos (by omega)]
    exact .refl _ m
  · rw [if_neg long, if_neg (by omega), Nat.min_eq_right (by omega)]
    exact .refl _ m

/-- The values are read back without anything else happening. -/
theorem elementsOf_has (lists : (m.store.object list).Lists values)
    (short : values.length ≤ maxArguments) : (elementsOf services list).Has m values := by
  refine (elementsOf_alike services lists).has ?_
  rw [if_neg (Nat.not_lt.2 short)]
  exact collect_has (fun i value there => by
    rw [Nat.zero_add]
    exact getOwn_has services.call (lists.element i value there)) []

theorem elementsOf_refused (services : Services) (lists : (m.store.object list).Lists values)
    (long : maxArguments < values.length) :
    (elementsOf services list).Alike (fail .argumentCount) m := by
  have alike := elementsOf_alike services lists
  rwa [if_pos long] at alike

/-! ## Calling with a list -/

section

variable {f : ObjectId} (receiver : Value)

theorem callable_has (callable : m.store.isCallable (.object f) = true) (method : String) :
    (receiverFunction method (.object f)).Has m f := by
  refine (has_ask _ m).bind ?_
  rw [callable]
  exact has_pure f m

/-- The arguments after the first one become those of the function. -/
theorem functionCall_alike (callable : m.store.isCallable (.object f) = true) :
    (functionCall services (.object f) (receiver :: values)).Alike
      (callValue services.call (.object f) receiver values) m :=
  (callable_has callable "call").alike

/-- The function is called with the values that are listed. -/
theorem functionApply_alike (callable : m.store.isCallable (.object f) = true)
    (lists : (m.store.object list).Lists values) (short : values.length ≤ maxArguments) :
    (functionApply services (.object f) [receiver, .object list]).Alike
      (callValue services.call (.object f) receiver values) m :=
  (callable_has callable "apply").alike.trans (elementsOf_has lists short).alike

/-- Nothing is called with too many values. -/
theorem functionApply_refused (callable : m.store.isCallable (.object f) = true)
    (lists : (m.store.object list).Lists values) (long : maxArguments < values.length) :
    (functionApply services (.object f) [receiver, .object list]).Alike
      (fail .argumentCount) m := by
  have refused := elementsOf_refused services lists long
  exact (callable_has callable "apply").alike.trans (refused.bind _)

end

end Library

namespace Evaluate

open Library

/-- Of a function, a `this` and a list of values: to call the function with them through
`Function.prototype.call`, or through `Function.prototype.apply` with an object that a builder of
lists has made of the values, is to call the function one call further in, with the same moments on
the way, the same outcome and the same machine in the end. `Function.prototype.apply` refuses a list
of too many values with a RangeError instead, before the function is called, and nothing changes. -/
theorem arguments_forwarded {apply call f list : ObjectId} {applyCode callCode : NativeCode}
    {values : List Value}
    (isApply : (m.store.object apply).kind = .native applyCode)
    (applies : applyCode.behaviour = .functionApply)
    (isCall : (m.store.object call).kind = .native callCode)
    (calls : callCode.behaviour = .functionCall)
    (callable : m.store.isCallable (.object f) = true)
    (built : m.store.HasListOf values list) (receiver : Value) (bound remaining : Nat) :
    let direct := oneDeeper (fun remaining =>
      callValue (invoke bound remaining) (.object f) receiver values) remaining
    let applied := invoke bound remaining apply (.object f) [receiver, .object list]
    let called := invoke bound remaining call (.object f) (receiver :: values)
    called.Alike direct m ∧
      (values.length ≤ 65535 → applied.Alike direct m) ∧
      (65535 < values.length →
        applied.Alike (oneDeeper (fun _ => fail .argumentCount) remaining) m ∧
          ∃ cause, cause.kind = .rangeError ∧ applied.run m = (.raised (.error cause), m)) := by
  intro direct applied called
  refine ⟨?_, fun short => ?_, fun long => ?_⟩
  · refine invoke_native_alike isCall (fun remaining => ?_) remaining
    rw [calls]
    exact functionCall_alike receiver callable
  · refine invoke_native_alike isApply (fun remaining => ?_) remaining
    rw [applies]
    exact functionApply_alike receiver callable built.lists short
  · have refused : applied.Alike (oneDeeper (fun _ => fail .argumentCount) remaining) m := by
      refine invoke_native_alike isApply (fun remaining => ?_) remaining
      rw [applies]
      exact functionApply_refused receiver callable built.lists long
    refine ⟨refused, ?_⟩
    rw [refused.run]
    obtain ⟨reason, rfl | rfl, failed⟩ := oneDeeper_fail .argumentCount remaining m
    · exact ⟨.argumentCount, rfl, failed⟩
    · exact ⟨.callDepth, rfl, failed⟩

/-- A function that adds its arguments is applied to an array of two numbers. -/
theorem arguments_forwarded_sum :
    let native := fun (e : Engine) name behaviour =>
      e.edit (Install.function ⟨name, [], behaviour⟩ false)
    let apply := native (.create { builtins := false }) "apply" .functionApply
    let call := native apply.2 "call" .functionCall
    let sum := native call.2 "sum" (.host .sum)
    let values : List Value := [.ofNat 1, .ofNat 2]
    let list : ObjectId := ⟨sum.2.machine.store.objects.size⟩
    let m := ((newArrayOf values).run sum.2.machine).2
    m.store.HasListOf values list ∧
      (invoke 1 2 apply.1 (.object sum.1) [.undefined, .object list]).run m =
        (.value (.ofNat 3), m) := by
  intro native apply call sum values list m
  have built : m.store.HasListOf values list :=
    ⟨newArrayOf values, sum.2.machine, m, .array, rfl, rfl⟩
  have isApply : (m.store.object apply.1).kind = .native ⟨"apply", [], .functionApply, false⟩ := rfl
  have isCall : (m.store.object call.1).kind = .native ⟨"call", [], .functionCall, false⟩ := rfl
  have callable : m.store.isCallable (.object sum.1) = true := rfl
  have forwarded := arguments_forwarded isApply rfl isCall rfl callable built .undefined 1 2
  exact ⟨built, (forwarded.2.1 (by decide)).run.trans rfl⟩

end Evaluate

end ScriptEngine
