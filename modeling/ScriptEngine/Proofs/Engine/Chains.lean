import ScriptEngine.Proofs.Heap.Engines
import ScriptEngine.Proofs.Store.Chains

/-!
# Prototypes and outer environments

Whatever runs on an engine, the prototype of every object and the environment outside of every
environment were made before it, so that all walks along them end, and the walks that look for a key
of an object or list its keys agree.

Main result: this holds at every moment of a history (`walks_end_and_agree`).
-/
namespace ScriptEngine

namespace Store

/-- Links lead to what was made earlier, and every walk along them goes on until there is no further
link. -/
structure Descends (s : Store) : Prop where
  prototype : ∀ id p, (s.object id).prototype = some p → p.index < id.index ∧ s.HasObject p
  outer : ∀ env outer, (s.environment env).outer = some outer →
    outer.index < env.index ∧ s.HasEnvironment outer
  prototypes_end : WellFounded fun p id : ObjectId => (s.object id).prototype = some p
  outers_end : WellFounded fun outer env : EnvironmentId => (s.environment env).outer = some outer
  lookup : ∀ id key, s.lookup id key =
    ((s.object id).property? key).or ((s.object id).prototype.bind (s.lookup · key))
  hasProperty : ∀ id key, s.hasProperty id key =
    ((s.object id).properties.contains key || (s.object id).prototype.any (s.hasProperty · key))
  isEnumerable : ∀ id key, s.isEnumerable id key =
    ((s.object id).property? key).elim ((s.object id).prototype.any (s.isEnumerable · key))
      Property.enumerable
  inherits : ∀ id p, s.inherits id p = true ↔
    ∃ q, (s.object id).prototype = some q ∧ (p = q ∨ s.inherits q p = true)
  resolve : ∀ env name, s.resolve env name =
    if s.hasBinding env name then some env
    else (s.environment env).outer.bind (s.resolve · name)

/-- The walks along prototypes agree on the key of an object, and on its keys: all of them, each
once, the own ones before those of the prototype that they do not hide. -/
structure WalksAgree (s : Store) : Prop where
  hasProperty : ∀ id key, s.hasProperty id key = true ↔ ∃ p, s.lookup id key = some p
  isEnumerable : ∀ id key, s.isEnumerable id key = (s.lookup id key).any Property.enumerable
  mem_forInKeys : ∀ id key, key ∈ s.forInKeys id ↔ s.isEnumerable id key = true
  nodup : ∀ id, (s.forInKeys id).Nodup
  order : ∀ id, s.forInKeys id = s.enumerableKeys id ++
    ((s.object id).prototype.elim [] s.forInKeys).filter fun key =>
      !(s.object id).properties.contains key
  own : ∀ id, s.enumerableKeys id =
    (s.object id).keys.filter fun key => ((s.object id).property? key).any Property.enumerable

/-- The enumerable keys of an object are in the order of its keys. -/
theorem enumerableKeys_eq_filter (s : Store) (id : ObjectId) : s.enumerableKeys id =
    (s.object id).keys.filter fun key => ((s.object id).property? key).any Property.enumerable := by
  unfold enumerableKeys Object.keys Object.property?
  rw [← Dictionary.map_fst_entries, List.filter_map]
  congr 1
  refine List.filter_congr fun entry mem => ?_
  have found : (s.object id).properties.find? entry.1 = some entry.2 :=
    (Dictionary.mem_entries_iff _ _ _).1 mem
  simp only [Function.comp_apply, found, Option.any_some]

theorem Closed.descends {s : Store} (closed : s.Closed) : s.Descends where
  prototype _ _ link := ⟨closed.prototype link, closed.prototypes link⟩
  outer _ _ link := ⟨closed.outer link, closed.hasOuter link⟩
  prototypes_end := closed.wellFounded_prototype
  outers_end := closed.wellFounded_outer
  lookup := closed.lookup_eq
  hasProperty := closed.hasProperty_eq
  isEnumerable := closed.isEnumerable_eq
  inherits := closed.inherits_iff
  resolve := closed.resolve_eq

theorem LinksDown.walksAgree {s : Store} (links : s.LinksDown) : s.WalksAgree where
  hasProperty := s.hasProperty_iff_lookup
  isEnumerable := s.isEnumerable_eq_lookup
  mem_forInKeys := s.mem_forInKeys_iff
  nodup := s.nodup_forInKeys
  order := links.forInKeys_eq
  own := s.enumerableKeys_eq_filter

end Store

/-- Keys are in the order in which they came: a new one comes last, one that is there already keeps
its place, and removing one leaves the others in their order. -/
structure Object.KeysInOrder (o : Object) : Prop where
  new : ∀ key p, key ∉ o.keys → (o.put key p).keys = o.keys ++ [key]
  kept : ∀ key p, key ∈ o.keys → (o.put key p).keys = o.keys
  deleted : ∀ key o', o.delete? key = some o' → o'.keys = o.keys.filter (· != key)

theorem Object.keysInOrder (o : Object) : o.KeysInOrder where
  new _ p absent := Dictionary.keys_insert_of_not_mem p absent
  kept _ p present := Dictionary.keys_insert_of_mem p present
  deleted key o' deleted := by
    obtain ⟨-, rfl⟩ := Object.delete?_eq_some_iff.1 deleted
    exact Dictionary.keys_erase _ _

namespace Engine

variable {e : Engine}

/-- Whatever programs and calls a host evaluates on an engine, in any environments that are there,
and whatever it defines: at every moment every prototype link and every outer link leads to
something that was made earlier and is there, so that no chain of links leads back to where it
starts and all walks along them end, each described by an equation that goes on until there is no
further link. An object has or inherits a key exactly if a property is found for it; the key is
enumerable if that property is; and a loop over the keys visits exactly the enumerable ones, each
once, the own ones before those of the prototype, in the order in which they came to the object. -/
theorem walks_end_and_agree {moments : List Moment} (history : GroundedHistory False moments e)
    {now : Moment} (mem : now ∈ moments) :
    now.machine.store.Descends ∧ now.machine.store.WalksAgree ∧
      ∀ id, (now.machine.store.object id).KeysInOrder := by
  have closed := (history.allows.1 now mem).closed
  exact ⟨closed.descends, closed.walksAgree, fun id => Object.keysInOrder _⟩

/-- The keys that a loop would visit on the object that a program ends with. -/
private def keysLeft (e : Engine) (p : Program) : Option (List String) :=
  match e.runProgram p with
  | (.ok (.object id), after) => some (after.machine.store.forInKeys id)
  | _ => none

/-- An object with a key of its own, and with one that it inherits from the `prototype` of the
function that it was made with. -/
private def inheriting : Sample
    "function F() \x7b\x7d F.prototype.a = 1; var o = new F(); o.b = 2; o"
    (fun p => keysLeft (create { builtins := false }) p == some ["b", "a"]) :=
  .ofSource (by decide +kernel)

/-- All walks over the chain of the object find its own key first. -/
theorem walks_end_and_agree_inherited :
    let e := create { builtins := false }
    let source := "function F() \x7b\x7d F.prototype.a = 1; var o = new F(); o.b = 2; o"
    ∃ p id, Program.compile source "" false = .ok p ∧
      let s := (e.runProgram p).2.machine.store
      s.forInKeys id = ["b", "a"] ∧ s.Descends ∧ s.WalksAgree := by
  extract_lets e source
  obtain ⟨p, compiled, passed⟩ := inheriting
  have left := eq_of_beq passed
  unfold keysLeft at left
  split at left
  next id after ended =>
    have created : GroundedHistory False [e.moment] e := .create _
    obtain ⟨descends, agree, -⟩ := walks_end_and_agree
      (created.evaluate (.runWithin loopBound p)) (List.mem_append_right _ List.mem_cons_self)
    have keys : (e.runProgram p).2.machine.store.forInKeys id = ["b", "a"] := by
      rw [ended]
      exact Option.some.inj left
    exact ⟨p, id, compiled, keys, descends, agree⟩
  · cases left

end Engine

end ScriptEngine
