import ScriptEngine.Engine.Engine
import ScriptEngine.Proofs.Evaluation.Run
import ScriptEngine.Proofs.Store.Chains
import ScriptEngine.Proofs.Tree.Accepted

/-!
# Strict writes to names without a binding

The name of a reference is looked up when the reference is made, and any amount of evaluation may
lie between that and the write. Main result: by the time of a strict write the place may have lost
the binding; then the write raises a `ReferenceError` and changes nothing, unless the place is an
environment that takes the properties of an object for bindings (`strict_write_unbound_iff`). There
the write asks for no binding and makes a property.
-/
namespace ScriptEngine

namespace Reference

/-- The name has no binding where the reference denotes one: it never had, or it is gone. -/
def Unbound (r : Reference) (s : Store) : Prop :=
  match r.base with
  | .unresolvable => True
  | .environment env => s.hasBinding env r.name = false
  | .property _ => False

/-- The reference denotes a property of the object whose properties are the bindings of an
environment. -/
def OnObject (r : Reference) (s : Store) (id : ObjectId) : Prop :=
  ∃ env, r.base = .environment env ∧ (s.environment env).record = .object id

end Reference

namespace Operation

open Evaluation

variable {m : Machine} {env : EnvironmentId} {name : String}

/-- A name is looked up to no environment or to one that has a binding of it. -/
theorem place_of_resolve {strict : Bool} {r : Reference}
    (resolved : (resolve env name strict).run m = (.value r, m)) :
    r = ⟨.unresolvable, name, strict⟩ ∨
      ∃ holder, r = ⟨.environment holder, name, strict⟩ ∧ m.store.hasBinding holder name = true := by
  have eq := Outcome.value.inj (congrArg Prod.fst resolved)
  dsimp only at eq
  cases found : m.store.resolve env name with
  | none =>
    rw [found] at eq
    exact .inl eq.symm
  | some holder =>
    rw [found] at eq
    exact .inr ⟨holder, eq.symm, Store.hasBinding_of_resolve found⟩

/-- A record of bindings refuses a strict assignment to a name that it does not have. -/
theorem setBinding_undeclared {bindings : Bindings}
    (record : (m.store.environment env).record = .declarative bindings)
    (unbound : m.store.hasBinding env name = false) (value : Value) :
    (setBinding env name value true).run m = (.raised (.error (.notDefined name)), m) := by
  have absent : bindings.find? name = none := by
    rw [Dictionary.find?_eq_none_iff, ← Dictionary.contains_iff, Bool.not_eq_true]
    simpa only [Store.hasBinding, record] using unbound
  have environment : m.store.environment env =
      ⟨.declarative bindings, (m.store.environment env).outer⟩ := by rw [← record]
  have refused : m.store.editBindings env (·.assign name value true) =
      (.error (.notDefined name), m.store) := by
    rw [Store.editBindings, environment]
    simp only [Bindings.assign, absent, if_true]
  simp only [setBinding, run_bind, run_ask, record, andThen_value, assign, editBindings, stepOrFail,
    refused, ofRefusal]

/-- A strict write of a property that an object neither has nor inherits makes a plain one; if the
object gets no further properties, the write is refused as one of a read-only property. -/
theorem putV_absent {id : ObjectId} (absent : m.store.hasProperty id name = false) (call : Caller)
    (value : Value) :
    let made := m.store.define id name (.ofProperty (.plain value))
    (putV call (.object id) name value true).run m =
      (if made.1 then .value () else .raised (.error (.readOnlyProperty name)),
        { m with store := made.2 }) := by
  have missing := (m.store.lookup_eq_none_iff id name).2 absent
  -- A property of its own would be found first.
  have own : (m.store.object id).property? name = none := by
    have found := missing
    rw [Store.lookup, Store.ancestry, Store.ancestryUpTo, Store.lookupAmong] at found
    split at found
    · cases found
    next own => exact own
  intro made
  have written : (set call id name value (.object id)).run m =
      (.value made.1, { m with store := made.2 }) := by
    simp only [set, setOwn, run_bind, run_ask, andThen_value, missing, own, run_define, made]
  simp only [putV, run_bind, written, andThen_value]
  cases made.1 <;> rfl

/-- However much has been evaluated since a name was looked up for a strict reference, a write where
the name has no binding by then raises a `ReferenceError` and changes nothing if and only if the
reference does not denote a property of an object. If it does, the write asks for no binding: it
makes a plain property, or a `TypeError` says that it could not. -/
theorem strict_write_unbound_iff {before now : Machine} {env : EnvironmentId} {name : String}
    {r : Reference} (resolved : (resolve env name true).run before = (.value r, before))
    (between : before.store.Reaches now.store) (unbound : r.Unbound now.store) (call : Caller)
    (value : Value) :
    ((Cause.notDefined name).kind = .referenceError ∧
        (putValue call r value).run now = (.raised (.error (.notDefined name)), now) ↔
      ∀ id, ¬ r.OnObject before.store id) ∧
    ∀ id, r.OnObject before.store id →
      let made := now.store.define id name (.ofProperty (.plain value))
      (putValue call r value).run now =
        (if made.1 then .value () else .raised (.error (.readOnlyProperty name)),
          { now with store := made.2 }) := by
  -- The record of an environment stays of its kind, whatever is evaluated.
  have onObject : ∀ id, r.OnObject before.store id →
      let made := now.store.define id name (.ofProperty (.plain value))
      (putValue call r value).run now =
        (if made.1 then .value () else .raised (.error (.readOnlyProperty name)),
          { now with store := made.2 }) := by
    rintro id ⟨holder, denotes, record⟩
    rcases place_of_resolve resolved with rfl | ⟨_, rfl, -⟩
    · cases denotes
    cases denotes
    have record' := between.record_object record
    have absent : now.store.hasProperty id name = false := by
      simpa only [Reference.Unbound, Store.hasBinding, record'] using unbound
    simp only [putValue, run_bind, run_ask, record', andThen_value]
    exact putV_absent absent call value
  refine ⟨⟨fun refused id denotes => ?_, fun elsewhere => ⟨rfl, ?_⟩⟩, onObject⟩
  · have ended := congrArg Prod.fst ((onObject id denotes).symm.trans refused.2)
    revert ended
    dsimp only
    split <;> rintro ⟨⟩
  · rcases place_of_resolve resolved with rfl | ⟨holder, rfl, bound⟩
    · rfl
    · cases record : (before.store.environment holder).record with
      | object id => exact absurd ⟨holder, rfl, record⟩ (elsewhere id)
      | declarative bindings =>
        have there : before.store.Declarative holder :=
          ⟨Store.present_of_hasBinding bound, bindings, record⟩
        obtain ⟨bindings', record'⟩ := (between.declarative there).record
        simp only [putValue, run_bind, run_ask, record', andThen_value]
        exact setBinding_undeclared record' unbound value

end Operation

namespace Engine

open Evaluation Operation Evaluate

/-- An environment inside the global one, and an engine that has declared a name in it which can be
removed. -/
private def removable : EnvironmentId × Machine :=
  let m := (create { builtins := false }).machine
  let inner := m.store.openEnvironment (.declarative .empty) (some WellKnown.globalEnvironment)
  (inner.1, ((declare inner.1 "x" true .null).run { m with store := inner.2 }).2)

/-- A script that creates a global and removes the name. -/
private def removing : Sample "y = 1; delete x" (fun p =>
    let after := ((runScript (create { builtins := false }).caller loopBound p.tree
      removable.1).run removable.2).2.store
    after.hasProperty WellKnown.globalObject "y" && !after.hasBinding removable.1 "x") :=
  .ofSource (by decide +kernel)

/-- A name is looked up in an environment that it can be removed from. A script then runs there that
creates a global and removes the name, and the write makes neither a binding nor a global of it. -/
theorem strict_write_removed :
    let e := create { builtins := false }
    let inner := e.machine.store.openEnvironment (.declarative .empty)
      (some WellKnown.globalEnvironment)
    let start : Machine := { e.machine with store := inner.2 }
    let before := ((declare inner.1 "x" true .null).run start).2
    let r : Reference := ⟨.environment inner.1, "x", true⟩
    ∃ p, Program.compile "y = 1; delete x" "" false = .ok p ∧
      let now := ((runScript e.caller loopBound p.tree inner.1).run before).2
      (resolve inner.1 "x" true).run before = (.value r, before) ∧
        now.store.hasProperty WellKnown.globalObject "y" = true ∧
        now.store.hasBinding inner.1 "x" = false ∧
        (putValue e.caller r .null).run now = (.raised (.error (.notDefined "x")), now) := by
  intro e inner start before r
  obtain ⟨p, compiled, passed⟩ := removing
  obtain ⟨created, removed⟩ := Bool.and_eq_true_iff.1 passed
  have resolved : (resolve inner.1 "x" true).run before = (.value r, before) := rfl
  have between := (runScript e.caller loopBound p.tree inner.1).steps before
  have gone : ((runScript e.caller loopBound p.tree inner.1).run before).2.store.hasBinding
      inner.1 "x" = false := Bool.not_eq_eq_eq_not.1 removed
  refine ⟨p, compiled, resolved, created, gone,
    ((strict_write_unbound_iff resolved between gone e.caller .null).1.2 ?_).2⟩
  -- The environment has bindings of its own.
  have own : (before.store.environment inner.1).record =
      .declarative (.singleton "x" { deletable := true, value := some .null }) := rfl
  rintro id ⟨env, denotes, record⟩
  cases denotes
  rw [own] at record
  cases record

/-- Strict code that removes a property of the global object while it computes what it assigns to
that name gets no `ReferenceError`, and the assignment creates a global: so it is for a reference to
a property that is then deleted, and in a program. -/
theorem strict_write_creates_global :
    let e := create { builtins := false }
    let global := WellKnown.globalObject
    let before := ((define global "x" (.ofProperty (.plain .null))).run e.machine).2
    let now := ((delete global "x").run before).2
    let r : Reference := ⟨.environment WellKnown.globalObjectEnvironment, "x", true⟩
    let after := (putValue e.caller r .null).run now
    let source := "'use strict'; this.x = 1; x = (delete this.x, 2)"
    ((resolve WellKnown.globalEnvironment "x" true).run before = (.value r, before) ∧
      before.store.Reaches now.store ∧ now.store.hasProperty global "x" = false ∧
      after ≠ (.raised (.error (.notDefined "x")), now) ∧
      after.2.store.hasProperty global "x" = true) ∧
    ∃ p v, e.compile source = .ok p ∧ p.strict = true ∧ (e.runProgram p).1 = .ok v ∧
      v.strictlyEqual (.ofNat 2) = true ∧
      (e.runProgram p).2.machine.store.hasProperty global "x" = true := by
  extract_lets e global before now r after source
  have gone : now.store.hasProperty global "x" = false := by decide +kernel
  have made : after.2.store.hasProperty global "x" = true := by decide +kernel
  refine ⟨⟨rfl, (delete global "x").steps before, gone, fun refused => ?_, made⟩, ?_⟩
  · rw [refused, gone] at made
    cases made
  have computed : (e.compile source).toOption.map (fun p => (p.strict,
      (e.runProgram p).1.toOption.any (·.strictlyEqual (.ofNat 2)),
      (e.runProgram p).2.machine.store.hasProperty global "x")) = some (true, true, true) := by
    decide +kernel
  cases compiled : e.compile source with
  | error error =>
    rw [compiled] at computed
    cases computed
  | ok p =>
    rw [compiled] at computed
    obtain ⟨strict, rest⟩ := Prod.mk.inj (Option.some.inj computed)
    obtain ⟨left, created⟩ := Prod.mk.inj rest
    cases ended : (e.runProgram p).1 with
    | error error =>
      rw [ended] at left
      cases left
    | ok v =>
      rw [ended] at left
      exact ⟨p, v, rfl, strict, ended, left, created⟩

end Engine

end ScriptEngine
