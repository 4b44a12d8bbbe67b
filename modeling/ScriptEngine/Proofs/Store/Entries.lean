import ScriptEngine.Proofs.Store.Globals

/-!
# Entries of object literals

An object literal adds values, getters and setters under keys, which may come more than once. What
is under a key in the end is said in one piece (`Entry.property?`), and that adding one entry after
another comes to it is proved by looking at the last one. Main result: every entry can be added, and
afterwards the object is what all the entries make of it (`Object.Gathered.add`).
-/
namespace ScriptEngine

/-- What an object literal adds to its object under some key. -/
inductive Entry where
  | data (value : Value)
  | getter (f : ObjectId)
  | setter (f : ObjectId)

namespace Entry

def value? : Entry → Option Value
  | data value => some value
  | getter _ | setter _ => none

def getter? : Entry → Option ObjectId
  | getter f => some f
  | data _ | setter _ => none

def setter? : Entry → Option ObjectId
  | setter f => some f
  | data _ | getter _ => none

/-- The definition that adds the entry. -/
def descriptor : Entry → Descriptor
  | data value => .ofProperty (.plain value)
  | getter f => { enumerable := some true, configurable := some true, getter := some (some f) }
  | setter f => { enumerable := some true, configurable := some true, setter := some (some f) }

/-- The accessors that come after the last value. -/
def accessorsAtEnd (entries : List Entry) : List Entry :=
  (entries.reverse.takeWhile fun entry => entry.value?.isNone).reverse

/-- The property that the entries of a key make: the last value, unless accessors come after it.
Then it is the last getter and the last setter among these. -/
def property? (entries : List Entry) : Option Property :=
  match accessorsAtEnd entries with
  | [] => (entries.filterMap value?).getLast?.map Property.plain
  | accessors =>
    some (.accessor (accessors.filterMap getter?).getLast? (accessors.filterMap setter?).getLast?
      true true)

/-- The entries that have the key. -/
def under (key : String) (entries : List (String × Entry)) : List Entry :=
  (entries.filter fun entry => entry.1 == key).map Prod.snd

/-- What the entry makes of a property that is there, or of none. -/
def onto : Entry → Option Property → Property
  | data value, _ => .plain value
  | getter f, some (.accessor _ other _ _) => .accessor (some f) other true true
  | getter f, _ => .accessor (some f) none true true
  | setter f, some (.accessor other _ _ _) => .accessor other (some f) true true
  | setter f, _ => .accessor none (some f) true true

theorem accessorsAtEnd_append (entries : List Entry) (entry : Entry) :
    accessorsAtEnd (entries ++ [entry]) =
      match entry with
      | data _ => []
      | accessor => accessorsAtEnd entries ++ [accessor] := by
  unfold accessorsAtEnd
  rw [List.reverse_append, List.reverse_singleton, List.singleton_append, List.takeWhile_cons]
  cases entry with
  | data => rfl
  | getter | setter => exact List.reverse_cons

/-- The last of all is the one that comes last, if it is of that sort. -/
theorem getLast?_filterMap_append {α β : Type} (f : α → Option β) (items : List α) (last : α) :
    ((items ++ [last]).filterMap f).getLast? = (f last).or (items.filterMap f).getLast? := by
  rw [List.filterMap_append, List.getLast?_append]
  cases given : f last <;> simp [given]

/-- What the last entry makes of the others is what they all make. -/
theorem property?_append (entries : List Entry) (entry : Entry) :
    property? (entries ++ [entry]) = some (entry.onto (property? entries)) := by
  have accessors := accessorsAtEnd_append entries entry
  unfold property?
  cases entry with
  | data value =>
    simp only [accessors, getLast?_filterMap_append]
    rfl
  | getter f | setter f =>
    simp only [accessors]
    cases before : accessorsAtEnd entries with
    | nil =>
      cases (entries.filterMap value?).getLast? <;> rfl
    | cons first rest =>
      rw [List.cons_append]
      simp only [← List.cons_append, getLast?_filterMap_append]
      rfl

/-- A property that entries make is one of two kinds. -/
theorem property?_cases {entries : List Entry} {p : Property} (made : property? entries = some p) :
    (∃ value, p = .plain value) ∨ ∃ getter setter, p = .accessor getter setter true true := by
  unfold property? at made
  split at made
  · obtain ⟨value, -, rfl⟩ := Option.map_eq_some_iff.1 made
    exact .inl ⟨value, rfl⟩
  · cases made
    exact .inr ⟨_, _, rfl⟩

theorem under_append (key : String) (entries : List (String × Entry)) (last : String × Entry) :
    under key (entries ++ [last]) =
      if last.1 = key then under key entries ++ [last.2] else under key entries := by
  unfold under
  rw [List.filter_append, List.map_append]
  split
  next same => simp [same]
  next other => simp [other]

end Entry

namespace Object

variable {o : Object} {entries : List (String × Entry)}

/-- A definition that can be made is made by every object but an array. -/
theorem define_eq_put (plain : o.kind.isArray = false) {key : String} {d : Descriptor}
    {p : Property} (defined : o.defineOrdinary? key d = some (o.put key p)) :
    o.define key d = (o.put key p, true) := by
  rw [define_of_not_array plain, defined]
  rfl

/-- An object that has just what the entries make of it. -/
structure Gathered (entries : List (String × Entry)) (o : Object) : Prop where
  kind : o.kind = .ordinary
  prototype : o.prototype = some WellKnown.objectPrototype
  extensible : o.extensible = true
  keys : o.keys = (entries.map Prod.fst).eraseDups
  property? : ∀ key, o.property? key = Entry.property? (Entry.under key entries)

namespace Gathered

/-- An entry can be added. -/
theorem define (gathered : o.Gathered entries) (key : String) (entry : Entry) :
    o.define key entry.descriptor = (o.put key (entry.onto (o.property? key)), true) := by
  refine define_eq_put (by rw [gathered.kind]; rfl) (defineOrdinary?_eq_some_iff.2 ⟨_, rfl, ?_⟩)
  cases found : o.property? key with
  | none => exact .inl ⟨rfl, gathered.extensible, by cases entry <;> rfl⟩
  | some p =>
    -- All properties so far can be reconfigured, so a definition may turn one kind into the other.
    refine .inr ⟨p, rfl, ?_⟩
    obtain ⟨value, rfl⟩ | ⟨getter, setter, rfl⟩ :=
      Entry.property?_cases ((gathered.property? key).symm.trans found) <;> cases entry <;> rfl

/-- What has been added is one more entry. -/
theorem add (gathered : o.Gathered entries) (key : String) (entry : Entry) :
    (o.put key (entry.onto (o.property? key))).Gathered (entries ++ [(key, entry)]) where
  kind := gathered.kind
  prototype := gathered.prototype
  extensible := gathered.extensible
  keys := by
    have keys := gathered.keys
    unfold Object.keys at keys ⊢
    change (o.properties.insert key _).keys = _
    rw [List.map_append, List.eraseDups_append, ← keys]
    by_cases mem : key ∈ o.properties.keys
    · rw [Dictionary.keys_insert_of_mem _ mem]
      have again : key ∈ entries.map Prod.fst := List.mem_eraseDups.1 (keys ▸ mem)
      simp [List.removeAll, again]
    · rw [Dictionary.keys_insert_of_not_mem _ mem]
      have new : key ∉ entries.map Prod.fst := fun mem' => mem (keys ▸ List.mem_eraseDups.2 mem')
      simp [List.removeAll, new, List.eraseDups_cons]
  property? other := by
    rw [property?_put, Entry.under_append]
    by_cases same : other = key
    · subst same
      rw [if_pos rfl, if_pos rfl, Entry.property?_append, gathered.property?]
    · rw [if_neg same, if_neg fun eq => same eq.symm, gathered.property?]

/-- All properties can be enumerated and reconfigured. -/
theorem flags (gathered : o.Gathered entries) {key : String} {p : Property}
    (found : o.property? key = some p) : p.enumerable = true ∧ p.configurable = true := by
  obtain ⟨value, rfl⟩ | ⟨getter, setter, rfl⟩ :=
    Entry.property?_cases ((gathered.property? key).symm.trans found) <;> exact ⟨rfl, rfl⟩

end Gathered

end Object

end ScriptEngine
