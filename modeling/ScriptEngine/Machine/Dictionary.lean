import ScriptEngine.Text.Digit

/-!
# Dictionaries

Names with values, in the order in which the names first came, each name once. Giving a value to
a name that is already there keeps its place. The properties of an object and the bindings of an
environment are dictionaries.

A dictionary is kept in two containers: a table with the values, which has no order that counts, and
a list of the names, which has no values. Each change is made to the one and to the other, and it has
to leave them in step (`Raw.InStep`): no name is in the list twice, and the names in the list are
those in the table.
-/
namespace ScriptEngine

/-! ## Tables -/

/-- Gives a name a new value where it stands. -/
def replaceValue {α : Type} (name : String) (value : α) :
    List (String × α) → List (String × α)
  | [] => []
  | (key, old) :: rest =>
    if key = name then (key, value) :: rest else (key, old) :: replaceValue name value rest

/-- Names with values. Only the value of a name counts, not where it stands. -/
structure Table (α : Type) where
  entries : List (String × α)

namespace Table

variable {α : Type}

/-- The value of a name. -/
def find? (t : Table α) (name : String) : Option α :=
  (t.entries.find? fun entry => entry.1 == name).map Prod.snd

def contains (t : Table α) (name : String) : Bool := t.entries.any fun entry => entry.1 == name

/-- Gives a name a value, in place of the one that it has. -/
def insert (t : Table α) (name : String) (value : α) : Table α :=
  if t.contains name then ⟨replaceValue name value t.entries⟩ else ⟨(name, value) :: t.entries⟩

/-- Removes a name. -/
def erase (t : Table α) (name : String) : Table α :=
  ⟨t.entries.filter fun entry => entry.1 != name⟩

theorem contains_eq_isSome (t : Table α) (name : String) :
    t.contains name = (t.find? name).isSome := by
  rw [find?, Option.isSome_map, Bool.eq_iff_iff, contains, List.any_eq_true, List.find?_isSome]

theorem contains_iff (t : Table α) (name : String) :
    t.contains name = true ↔ ∃ value, t.find? name = some value := by
  rw [contains_eq_isSome, Option.isSome_iff_exists]

private theorem find?_replaceValue (name : String) (value : α) (key : String)
    (entries : List (String × α)) (present : name ∈ entries.map Prod.fst) :
    find? ⟨replaceValue name value entries⟩ key =
      if key = name then some value else find? ⟨entries⟩ key := by
  simp only [find?]
  induction entries with
  | nil => cases present
  | cons entry rest ih =>
    obtain ⟨first, old⟩ := entry
    simp only [replaceValue]
    -- The entry of the name is replaced; the ones before it stay, the ones after it do not matter.
    by_cases same : first = name
    · subst same
      by_cases asked : key = first
      · simp [asked]
      · have other : ¬ first = key := fun eq => asked eq.symm
        simp [asked, other]
    · have later : name ∈ rest.map Prod.fst := by
        rcases List.mem_cons.1 present with eq | later
        · exact absurd eq.symm same
        · exact later
      by_cases asked : first = key
      · subst asked
        simp [same]
      · simpa [same, asked] using ih later

theorem find?_insert (t : Table α) (name : String) (value : α) (key : String) :
    (t.insert name value).find? key = if key = name then some value else t.find? key := by
  unfold insert
  split
  next present =>
    exact find?_replaceValue name value key t.entries (by simpa [contains] using present)
  next =>
    by_cases asked : key = name
    · simp [find?, asked]
    · have other : ¬ name = key := fun eq => asked eq.symm
      simp [find?, asked, other]

theorem find?_erase (t : Table α) (name key : String) :
    (t.erase name).find? key = if key = name then none else t.find? key := by
  simp only [find?, erase, List.find?_filter]
  by_cases asked : key = name
  · simp [asked]
  · rw [if_neg asked]
    congr 2
    funext entry
    -- What is asked for is not what has been removed.
    by_cases found : entry.1 = key <;> simp [found, asked]

/-- Where no name comes twice, the value of a name is the one that stands with it. -/
theorem find?_eq_some_iff_mem {t : Table α} (nodup : (t.entries.map Prod.fst).Nodup) (name : String)
    (value : α) : t.find? name = some value ↔ (name, value) ∈ t.entries := by
  obtain ⟨entries⟩ := t
  simp only [find?]
  induction entries with
  | nil => simp
  | cons entry rest ih =>
    obtain ⟨first, old⟩ := entry
    have absent := (List.nodup_cons.1 nodup).1
    have ih := ih (List.nodup_cons.1 nodup).2
    by_cases same : first = name
    · subst same
      constructor
      · intro found
        have eq : old = value := by simpa using found
        exact eq ▸ List.mem_cons_self
      · intro mem
        rcases List.mem_cons.1 mem with eq | later
        · cases eq
          simp
        · exact absurd (List.mem_map_of_mem later) absent
    · have other : ¬ name = first := fun eq => same eq.symm
      simpa [same, other] using ih

end Table

/-! ## Two containers -/

/-- A table with values, and a list of names. -/
structure Dictionary.Raw (α : Type) where
  table : Table α
  keys : List String

namespace Dictionary.Raw

variable {α : Type}

/-- Gives a name a value; if the table did not have the name, it comes last in the list. -/
def insert (d : Raw α) (name : String) (value : α) : Raw α where
  table := d.table.insert name value
  keys := if d.table.contains name then d.keys else d.keys ++ [name]

/-- Removes a name from the table and from the list. -/
def erase (d : Raw α) (name : String) : Raw α where
  table := d.table.erase name
  keys := d.keys.filter (· != name)

/-- All names of both, those of the first before the further ones of the second. -/
def union (d e : Raw α) : Raw α where
  table := ⟨d.table.entries ++ e.table.entries⟩
  keys := d.keys ++ e.keys.filter fun name => !d.table.contains name

/-- Names and values that are given together. -/
def ofEntries (entries : List (String × α)) : Raw α := ⟨⟨entries⟩, entries.map Prod.fst⟩

/-- The list has no name twice, and the names in the list are those in the table. -/
structure InStep (d : Raw α) : Prop where
  nodup : d.keys.Nodup
  mem_keys_iff : ∀ name, name ∈ d.keys ↔ ∃ value, d.table.find? name = some value

variable {d e : Raw α}

theorem InStep.contains_iff (inStep : d.InStep) (name : String) :
    d.table.contains name = true ↔ name ∈ d.keys := by
  rw [d.table.contains_iff, inStep.mem_keys_iff]

theorem InStep.insert (inStep : d.InStep) (name : String) (value : α) :
    (d.insert name value).InStep where
  nodup := by
    simp only [Raw.insert]
    split
    · exact inStep.nodup
    -- The name is new to the table, and so it is to the list.
    next absent =>
      rw [inStep.contains_iff] at absent
      refine List.nodup_append.2 ⟨inStep.nodup, by simp, ?_⟩
      rintro _ mem _ new rfl
      exact absent (List.mem_singleton.1 new ▸ mem)
  mem_keys_iff key := by
    simp only [Raw.insert, d.table.find?_insert]
    by_cases present : d.table.contains name = true
    · have there := (inStep.contains_iff name).1 present
      rw [if_pos present, inStep.mem_keys_iff]
      by_cases asked : key = name
      · simpa [asked] using (inStep.mem_keys_iff name).1 there
      · simp [asked]
    · rw [if_neg present, List.mem_append, List.mem_singleton, inStep.mem_keys_iff]
      by_cases asked : key = name <;> simp [asked]

theorem InStep.erase (inStep : d.InStep) (name : String) : (d.erase name).InStep where
  nodup := inStep.nodup.sublist List.filter_sublist
  mem_keys_iff key := by
    simp only [Raw.erase, d.table.find?_erase, List.mem_filter, inStep.mem_keys_iff]
    by_cases asked : key = name <;> simp [asked]

theorem find?_union (d e : Raw α) (name : String) :
    (d.union e).table.find? name = (d.table.find? name).or (e.table.find? name) := by
  simp only [union, Table.find?, List.find?_append]
  cases d.table.entries.find? _ <;> rfl

theorem InStep.union (first : d.InStep) (second : e.InStep) : (d.union e).InStep where
  nodup := by
    refine List.nodup_append.2 ⟨first.nodup, second.nodup.sublist List.filter_sublist, ?_⟩
    rintro name mem _ further rfl
    have absent := (List.mem_filter.1 further).2
    rw [(first.contains_iff name).2 mem] at absent
    cases absent
  mem_keys_iff name := by
    rw [find?_union]
    simp only [Raw.union, List.mem_append, List.mem_filter, first.mem_keys_iff,
      second.mem_keys_iff, d.table.contains_eq_isSome]
    cases d.table.find? name <;> simp

theorem InStep.ofEntries {entries : List (String × α)} (nodup : (entries.map Prod.fst).Nodup) :
    (Raw.ofEntries entries).InStep where
  nodup := nodup
  mem_keys_iff name := by
    simp only [Raw.ofEntries, List.mem_map, Table.find?_eq_some_iff_mem nodup, Prod.exists,
      exists_and_right, exists_eq_right]

end Dictionary.Raw

/-- Names with values in the order of first insertion: two containers that are in step. -/
structure Dictionary (α : Type) extends Dictionary.Raw α where
  inStep : toRaw.InStep

namespace Dictionary

variable {α : Type}

def empty : Dictionary α := ⟨.ofEntries [], .ofEntries List.nodup_nil⟩

instance : Inhabited (Dictionary α) := ⟨empty⟩

def singleton (name : String) (value : α) : Dictionary α :=
  ⟨.ofEntries [(name, value)], .ofEntries (by simp)⟩

/-- The value of a name. -/
def find? (d : Dictionary α) (name : String) : Option α := d.table.find? name

def contains (d : Dictionary α) (name : String) : Bool := d.table.contains name

/-- The names with their values, in order. -/
def entries (d : Dictionary α) : List (String × α) :=
  d.keys.filterMap fun name => (d.find? name).map (name, ·)

/-- Gives a name a value; a new name comes last. -/
def insert (d : Dictionary α) (name : String) (value : α) : Dictionary α :=
  ⟨d.toRaw.insert name value, d.inStep.insert name value⟩

/-- Removes a name. -/
def erase (d : Dictionary α) (name : String) : Dictionary α :=
  ⟨d.toRaw.erase name, d.inStep.erase name⟩

/-- All names of both, those of the first with their values in it, before the further ones. -/
def union (d e : Dictionary α) : Dictionary α :=
  ⟨d.toRaw.union e.toRaw, d.inStep.union e.inStep⟩

end Dictionary

/-! ## Sequences -/

/-- The places of a sequence that are filled, each named by its index; the first place has index
`start`. -/
def indexEntries {α : Type} (start : Nat) (places : List (Option α)) : List (String × α) :=
  (places.zipIdx start).filterMap fun place => place.1.map (Text.decimal place.2, ·)

theorem indexEntries_none {α : Type} (start : Nat) (rest : List (Option α)) :
    indexEntries start (none :: rest) = indexEntries (start + 1) rest := by
  simp [indexEntries]

theorem indexEntries_some {α : Type} (start : Nat) (value : α) (rest : List (Option α)) :
    indexEntries start (some value :: rest) =
      (Text.decimal start, value) :: indexEntries (start + 1) rest := by
  simp [indexEntries]

theorem index_of_mem_indexEntries {α : Type} {start : Nat} {places : List (Option α)}
    {name : String} (h : name ∈ (indexEntries start places).map Prod.fst) :
    ∃ i, start ≤ i ∧ i < start + places.length ∧ name = Text.decimal i := by
  induction places generalizing start with
  | nil => simp [indexEntries] at h
  | cons place rest ih =>
    cases place with
    | none =>
      rw [indexEntries_none] at h
      obtain ⟨i, low, high, eq⟩ := ih h
      exact ⟨i, by omega, by simp only [List.length_cons]; omega, eq⟩
    | some value =>
      simp only [indexEntries_some, List.map_cons, List.mem_cons] at h
      rcases h with eq | h
      · exact ⟨start, by omega, by simp, eq⟩
      · obtain ⟨i, low, high, eq⟩ := ih h
        exact ⟨i, by omega, by simp only [List.length_cons]; omega, eq⟩

theorem nodup_indexEntries {α : Type} (start : Nat) (places : List (Option α)) :
    ((indexEntries start places).map Prod.fst).Nodup := by
  induction places generalizing start with
  | nil => exact List.nodup_nil
  | cons place rest ih =>
    cases place with
    | none => rw [indexEntries_none]; exact ih (start + 1)
    | some value =>
      rw [indexEntries_some]
      refine List.nodup_cons.2 ⟨fun h => ?_, ih (start + 1)⟩
      obtain ⟨i, low, _, eq⟩ := index_of_mem_indexEntries h
      have := Text.decimal_injective eq
      omega

/-- The filled places of a sequence under their indices. -/
def Dictionary.indexed {α : Type} (places : List (Option α)) : Dictionary α :=
  ⟨.ofEntries (indexEntries 0 places), .ofEntries (nodup_indexEntries 0 places)⟩

end ScriptEngine
