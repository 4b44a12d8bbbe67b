import Mathlib.Data.List.Nodup
import ScriptEngine.Proofs.Store.Change
import ScriptEngine.Proofs.Store.Bindings

/-!
# Following links

Where every link goes down to a smaller number, the walks along prototypes and outer environments do
all of the way: each is described by an equation without a bound on the number of steps. The four
walks that look for a key of an object or for its keys treat a key that hides another one alike,
whatever the links are. Main results: the equations (`LinksDown.lookup_eq` and those beside it) and
the agreement of the walks (`hasProperty_iff_lookup`, `isEnumerable_eq_lookup`, `mem_forInKeys_iff`,
`nodup_forInKeys`).
-/
namespace ScriptEngine.Store

/-- Prototypes and outer environments have smaller numbers than what they belong to, so they were
there before it. -/
structure LinksDown (s : Store) : Prop where
  prototype : ∀ {id p : ObjectId}, (s.object id).prototype = some p → p.index < id.index
  outer : ∀ {env outer : EnvironmentId}, (s.environment env).outer = some outer →
    outer.index < env.index

variable {s : Store}

/-! ### The walks agree -/

section

variable {id : ObjectId} {key : String} {ids : List ObjectId}

/-- An object has a key if it has a property of that name. -/
theorem contains_eq_property? (o : Object) (key : String) :
    o.properties.contains key = (o.property? key).isSome := by
  rw [Bool.eq_iff_iff, Dictionary.contains_iff, Dictionary.mem_keys_iff,
    Option.isSome_iff_exists]
  rfl

theorem any_contains_eq (s : Store) (key : String) (ids : List ObjectId) :
    (ids.any fun id => (s.object id).properties.contains key) =
      (s.lookupAmong key ids).isSome := by
  induction ids with
  | nil => rfl
  | cons id rest ih =>
    rw [List.any_cons, ih, contains_eq_property?, lookupAmong]
    cases (s.object id).property? key <;> rfl

/-- An object has or inherits a key if and only if a property is found for it. -/
theorem hasProperty_iff_lookup (s : Store) (id : ObjectId) (key : String) :
    s.hasProperty id key = true ↔ ∃ p, s.lookup id key = some p := by
  rw [hasProperty, any_contains_eq, Option.isSome_iff_exists, lookup]

theorem lookup_eq_none_iff (s : Store) (id : ObjectId) (key : String) :
    s.lookup id key = none ↔ s.hasProperty id key = false := by
  rw [← Bool.not_eq_true, hasProperty_iff_lookup, Option.eq_none_iff_forall_ne_some]
  exact not_exists.symm

theorem enumerableAmong_eq (s : Store) (key : String) (ids : List ObjectId) :
    s.enumerableAmong key ids = (s.lookupAmong key ids).any Property.enumerable := by
  induction ids with
  | nil => rfl
  | cons id rest ih =>
    rw [enumerableAmong, lookupAmong, ih]
    cases (s.object id).property? key <;> rfl

/-- A key is enumerable if the property that is found for it is. -/
theorem isEnumerable_eq_lookup (s : Store) (id : ObjectId) (key : String) :
    s.isEnumerable id key = (s.lookup id key).any Property.enumerable :=
  s.enumerableAmong_eq key (s.ancestry id)

/-- A key that is shadowed is left out, and nothing else changes. -/
theorem visibleKeys_eq_filter (s : Store) (shadowed : List String) (ids : List ObjectId) :
    s.visibleKeys shadowed ids =
      (s.visibleKeys [] ids).filter fun key => !shadowed.contains key := by
  induction ids generalizing shadowed with
  | nil => rfl
  | cons id rest ih =>
    -- What the first object shadows is left out of the rest, with and without `shadowed`.
    simp only [visibleKeys, List.filter_append, List.nil_append]
    rw [ih (shadowed ++ _), ih ((s.object id).properties.entries.map Prod.fst)]
    congr 1
    · rw [List.filter_map, List.filter_filter]
      congr 2
      funext entry
      simp [Bool.and_comm]
    · rw [List.filter_filter]
      congr 1
      funext key
      simp only [List.contains_eq_mem, List.mem_append, Bool.decide_or, Bool.not_or]

/-- The keys of an object and of those behind it: its own enumerable ones first, in their order, and
then those of the others that it does not have. -/
theorem visibleKeys_cons (s : Store) (id : ObjectId) (rest : List ObjectId) :
    s.visibleKeys [] (id :: rest) = s.enumerableKeys id ++
      (s.visibleKeys [] rest).filter fun key => !(s.object id).properties.contains key := by
  rw [visibleKeys, List.nil_append, visibleKeys_eq_filter]
  congr 1
  · simp only [List.contains_nil, Bool.not_false, Bool.and_true, enumerableKeys]
  · congr 1
    funext key
    rw [Bool.not_inj_iff, Bool.eq_iff_iff, Dictionary.contains_iff, List.contains_iff_mem,
      Dictionary.map_fst_entries]

theorem mem_enumerableKeys_iff (s : Store) (id : ObjectId) (key : String) :
    key ∈ s.enumerableKeys id ↔ ∃ p, (s.object id).property? key = some p ∧ p.enumerable := by
  simp only [enumerableKeys, List.mem_map, List.mem_filter, Prod.exists, exists_and_right,
    exists_eq_right, Dictionary.mem_entries_iff, Object.property?]

theorem mem_visibleKeys_iff (s : Store) (key : String) (ids : List ObjectId) :
    key ∈ s.visibleKeys [] ids ↔ s.enumerableAmong key ids = true := by
  induction ids with
  | nil => simp [visibleKeys, enumerableAmong]
  | cons id rest ih =>
    rw [visibleKeys_cons, List.mem_append, mem_enumerableKeys_iff, List.mem_filter, ih,
      contains_eq_property?, enumerableAmong]
    -- An own property decides, whether it is enumerable or not.
    cases (s.object id).property? key <;> simp

/-- A loop over the keys of an object visits exactly the enumerable ones. -/
theorem mem_forInKeys_iff (s : Store) (id : ObjectId) (key : String) :
    key ∈ s.forInKeys id ↔ s.isEnumerable id key = true :=
  s.mem_visibleKeys_iff key (s.ancestry id)

theorem nodup_enumerableKeys (s : Store) (id : ObjectId) : (s.enumerableKeys id).Nodup :=
  ((s.object id).properties.nodup_keys.sublist
    ((List.filter_sublist.map _).trans (by rw [Dictionary.map_fst_entries])))

theorem nodup_visibleKeys (s : Store) (ids : List ObjectId) : (s.visibleKeys [] ids).Nodup := by
  induction ids with
  | nil => exact List.nodup_nil
  | cons id rest ih =>
    rw [visibleKeys_cons]
    refine (s.nodup_enumerableKeys id).append (ih.filter _) fun key own inherited => ?_
    obtain ⟨p, found, -⟩ := (s.mem_enumerableKeys_iff id key).1 own
    have hidden := (List.mem_filter.1 inherited).2
    rw [contains_eq_property?, found] at hidden
    cases hidden

/-- A loop over the keys of an object visits each of them once. -/
theorem nodup_forInKeys (s : Store) (id : ObjectId) : (s.forInKeys id).Nodup :=
  s.nodup_visibleKeys (s.ancestry id)

end

/-- A name is looked up to an environment that has a binding of it. -/
theorem hasBinding_of_resolve {env holder : EnvironmentId} {name : String}
    (found : s.resolve env name = some holder) : s.hasBinding holder name = true := by
  unfold resolve at found
  generalize env.index + 1 = bound at found
  induction bound generalizing env with
  | zero => cases found
  | succ bound ih =>
    rw [resolveUpTo] at found
    split at found
    next bound =>
      cases found
      exact bound
    · cases link : (s.environment env).outer with
      | none =>
        rw [link] at found
        cases found
      | some outer =>
        rw [link] at found
        exact ih found

/-- An environment with a binding is there. -/
theorem present_of_hasBinding {env : EnvironmentId} {name : String}
    (bound : s.hasBinding env name = true) : env.index < s.environments.size := by
  refine Nat.lt_of_not_le fun past => ?_
  rw [hasBinding, s.environment_of_size_le past] at bound
  cases bound

/-! ### The walks go all of the way -/

namespace LinksDown

variable (links : s.LinksDown)

include links

/-- Links cannot be followed for ever, so no object is behind itself. -/
theorem wellFounded_prototype :
    WellFounded fun p id : ObjectId => (s.object id).prototype = some p :=
  Subrelation.wf (fun link => links.prototype link) (measure ObjectId.index).wf

/-- An object that inherits from one that is there may be added. -/
theorem allocate {o : Object} (down : ∀ p ∈ o.prototype, p.index < s.objects.size) :
    (s.allocate o).2.LinksDown where
  prototype {id p} link := by
    rw [object_allocate] at link
    split at link
    next new => exact new ▸ down p link
    · exact links.prototype link
  outer := links.outer

/-- No environment is outside of itself. -/
theorem wellFounded_outer :
    WellFounded fun outer env : EnvironmentId => (s.environment env).outer = some outer :=
  Subrelation.wf (fun link => links.outer link) (measure EnvironmentId.index).wf

/-- Once a bound is large enough it does not matter any more. -/
theorem ancestryUpTo_eq {bound bound' : Nat} {id : ObjectId} (enough : id.index < bound)
    (enough' : id.index < bound') : s.ancestryUpTo bound id = s.ancestryUpTo bound' id := by
  induction bound generalizing bound' id with
  | zero => exact absurd enough (Nat.not_lt_zero _)
  | succ bound ih =>
    cases bound' with
    | zero => exact absurd enough' (Nat.not_lt_zero _)
    | succ bound' =>
      rw [ancestryUpTo, ancestryUpTo]
      cases link : (s.object id).prototype with
      | none => rfl
      | some p =>
        have down := links.prototype link
        have same : s.ancestryUpTo bound p = s.ancestryUpTo bound' p := ih (by omega) (by omega)
        simp only [same]

/-- Behind an object are its prototype and what is behind that. -/
theorem ancestry_eq (id : ObjectId) :
    s.ancestry id = id :: (s.object id).prototype.elim [] s.ancestry := by
  rw [ancestry, ancestryUpTo]
  cases link : (s.object id).prototype with
  | none => rfl
  | some p => exact congrArg _ (links.ancestryUpTo_eq (links.prototype link) (Nat.lt_succ_self _))

/-- The search for a property goes on with the prototype where there is no own one. -/
theorem lookup_eq (id : ObjectId) (key : String) :
    s.lookup id key =
      ((s.object id).property? key).or ((s.object id).prototype.bind (s.lookup · key)) := by
  rw [lookup, links.ancestry_eq, lookupAmong]
  cases (s.object id).property? key with
  | some p => rfl
  | none => cases (s.object id).prototype <;> rfl

theorem hasProperty_eq (id : ObjectId) (key : String) :
    s.hasProperty id key =
      ((s.object id).properties.contains key ||
        (s.object id).prototype.any (s.hasProperty · key)) := by
  rw [hasProperty, links.ancestry_eq, List.any_cons]
  cases (s.object id).prototype <;> rfl

/-- An own property hides those behind it, also where it is not enumerable itself. -/
theorem isEnumerable_eq (id : ObjectId) (key : String) :
    s.isEnumerable id key =
      ((s.object id).property? key).elim ((s.object id).prototype.any (s.isEnumerable · key))
        Property.enumerable := by
  rw [isEnumerable, links.ancestry_eq, enumerableAmong]
  cases (s.object id).property? key with
  | some p => rfl
  | none => cases (s.object id).prototype <;> rfl

/-- The keys of an object in a loop: its own enumerable ones in the order of insertion, and then
those of its prototype that it does not have itself. -/
theorem forInKeys_eq (id : ObjectId) :
    s.forInKeys id = s.enumerableKeys id ++
      ((s.object id).prototype.elim [] s.forInKeys).filter fun key =>
        !(s.object id).properties.contains key := by
  rw [forInKeys, links.ancestry_eq, visibleKeys_cons]
  cases (s.object id).prototype <;> rfl

theorem mem_ancestry_iff (id p : ObjectId) :
    p ∈ s.ancestry id ↔ p = id ∨ s.inherits id p = true := by
  rw [inherits, links.ancestry_eq, List.tail_cons, List.contains_iff_mem, List.mem_cons]

/-- An object inherits from its prototype and from what that inherits from. -/
theorem inherits_iff (id p : ObjectId) :
    s.inherits id p = true ↔
      ∃ q, (s.object id).prototype = some q ∧ (p = q ∨ s.inherits q p = true) := by
  rw [inherits, links.ancestry_eq, List.tail_cons, List.contains_iff_mem]
  cases (s.object id).prototype with
  | none => simp
  | some q => simp [links.mem_ancestry_iff]

theorem resolveUpTo_eq (name : String) {bound bound' : Nat} {env : EnvironmentId}
    (enough : env.index < bound) (enough' : env.index < bound') :
    s.resolveUpTo name bound env = s.resolveUpTo name bound' env := by
  induction bound generalizing bound' env with
  | zero => exact absurd enough (Nat.not_lt_zero _)
  | succ bound ih =>
    cases bound' with
    | zero => exact absurd enough' (Nat.not_lt_zero _)
    | succ bound' =>
      rw [resolveUpTo, resolveUpTo]
      cases link : (s.environment env).outer with
      | none => rfl
      | some outer =>
        have down := links.outer link
        have same : s.resolveUpTo name bound outer = s.resolveUpTo name bound' outer :=
          ih (by omega) (by omega)
        simp only [same]

/-- A name is looked up in an environment, and then outside of it. -/
theorem resolve_eq (env : EnvironmentId) (name : String) :
    s.resolve env name =
      if s.hasBinding env name then some env
      else (s.environment env).outer.bind (s.resolve · name) := by
  rw [resolve, resolveUpTo]
  cases link : (s.environment env).outer with
  | none => rfl
  | some outer =>
    simp only [Option.bind_some, resolve,
      links.resolveUpTo_eq name (links.outer link) (Nat.lt_succ_self outer.index)]

end LinksDown

/-! ### Inside an environment -/

/-- An environment that is inside another one is there. -/
theorem present_of_outer {env outer : EnvironmentId}
    (link : (s.environment env).outer = some outer) : env.index < s.environments.size := by
  by_contra past
  rw [s.environment_of_size_le (Nat.le_of_not_lt past)] at link
  cases link

/-- An environment is another one, or inside of it at any depth. -/
inductive Inside (s : Store) (outer : EnvironmentId) : EnvironmentId → Prop where
  | here : Inside s outer outer
  | within {env next : EnvironmentId} (link : (s.environment env).outer = some next)
    (inside : Inside s outer next) : Inside s outer env

namespace Inside

variable {t : Store} {outer env inner : EnvironmentId}

theorem trans (first : s.Inside outer env) (second : s.Inside env inner) :
    s.Inside outer inner := by
  induction second with
  | here => exact first
  | within link _ ih => exact .within link ih

/-- What is inside an environment stays there. -/
theorem mono (inside : s.Inside outer env) (reached : s.Reaches t) : t.Inside outer env := by
  induction inside with
  | here => exact .here
  | within link _ ih => exact .within ((reached.outer_eq (present_of_outer link)).trans link) ih

/-- What is inside an environment that is there is there too. -/
theorem present (inside : s.Inside outer env) (there : outer.index < s.environments.size) :
    env.index < s.environments.size := by
  cases inside with
  | here => exact there
  | within link _ => exact present_of_outer link

end Inside

namespace LinksDown

variable {t : Store} {outer env env' : EnvironmentId} {name : String}

theorem index_le_of_inside (links : s.LinksDown) (inside : s.Inside outer env) :
    outer.index ≤ env.index := by
  induction inside with
  | here => exact Nat.le_refl _
  | within link _ ih => exact Nat.le_trans ih (Nat.le_of_lt (links.outer link))

/-- Of two environments right inside the same one neither is inside the other. -/
theorem not_inside (links : s.LinksDown) (beside : (s.environment env).outer = some outer)
    (beside' : (s.environment env').outer = some outer) (apart : env ≠ env') :
    ¬ s.Inside env env' := by
  intro inside
  cases inside with
  | here => exact apart rfl
  | within link inside =>
    cases beside'.symm.trans link
    exact Nat.not_lt_of_le (links.index_le_of_inside inside) (links.outer beside)

/-- A name that is bound in an environment is found there from anywhere inside, or before that; and
it is found alike in a store in which the environments there are the same. -/
theorem resolve_of_inside (links : s.LinksDown) (links' : t.LinksDown)
    (inside : s.Inside outer env) (bound : s.hasBinding outer name = true)
    (same : ∀ id, s.Inside outer id → t.environment id = s.environment id)
    (alike : ∀ id, s.Inside outer id → t.hasBinding id name = s.hasBinding id name) :
    ∃ holder, s.Inside outer holder ∧ s.resolve env name = some holder ∧
      t.resolve env name = some holder := by
  induction inside with
  | here =>
    refine ⟨outer, .here, ?_, ?_⟩
    · rw [links.resolve_eq, if_pos bound]
    · rw [links'.resolve_eq, alike outer .here, if_pos bound]
  | @within env next link inside ih =>
    have within : s.Inside outer env := .within link inside
    rw [links.resolve_eq, links'.resolve_eq, alike env within, same env within, link]
    split
    · exact ⟨env, within, rfl, rfl⟩
    · exact ih

end LinksDown

end ScriptEngine.Store
