import Mathlib.Data.List.Basic
import ScriptEngine.Machine.Dictionary

/-!
# Laws of dictionaries

A dictionary is known by what its two containers say: the list of its names in order, and the value
of each name. Every operation is described by what it does to these two, so nothing outside of this
module has to look into the table.
-/
namespace ScriptEngine

namespace Dictionary

variable {α : Type}

theorem nodup_keys (d : Dictionary α) : d.keys.Nodup := d.inStep.nodup

theorem contains_iff (d : Dictionary α) (name : String) :
    d.contains name = true ↔ name ∈ d.keys := d.inStep.contains_iff name

theorem mem_keys_iff (d : Dictionary α) (name : String) :
    name ∈ d.keys ↔ ∃ value, d.find? name = some value := d.inStep.mem_keys_iff name

theorem find?_eq_none_iff (d : Dictionary α) (name : String) :
    d.find? name = none ↔ name ∉ d.keys := by
  rw [mem_keys_iff, ← Option.isSome_iff_exists, Option.not_isSome_iff_eq_none]

theorem mem_entries_iff (d : Dictionary α) (name : String) (value : α) :
    (name, value) ∈ d.entries ↔ d.find? name = some value := by
  simp only [entries, List.mem_filterMap, Option.map_eq_some_iff, Prod.mk.injEq]
  constructor
  · rintro ⟨_, -, _, found, rfl, rfl⟩
    exact found
  · exact fun found => ⟨name, (d.mem_keys_iff name).2 ⟨value, found⟩, value, found, rfl, rfl⟩

/-- The entries are in the order of the names, and none is missing. -/
@[simp]
theorem map_fst_entries (d : Dictionary α) : d.entries.map Prod.fst = d.keys := by
  have each : ∀ name ∈ d.keys,
      ((d.find? name).map (name, ·)).map Prod.fst = some name := fun name mem => by
    obtain ⟨value, found⟩ := (d.mem_keys_iff name).1 mem
    rw [found]
    rfl
  rw [entries, List.map_filterMap, List.filterMap_congr each, List.filterMap_some]

/-! ### Insertion -/

theorem find?_insert (d : Dictionary α) (name : String) (value : α) (key : String) :
    (d.insert name value).find? key = if key = name then some value else d.find? key :=
  d.table.find?_insert name value key

theorem keys_insert_of_mem {d : Dictionary α} {name : String} (value : α) (h : name ∈ d.keys) :
    (d.insert name value).keys = d.keys := if_pos ((d.contains_iff name).2 h)

theorem keys_insert_of_not_mem {d : Dictionary α} {name : String} (value : α)
    (h : name ∉ d.keys) : (d.insert name value).keys = d.keys ++ [name] :=
  if_neg fun there => h ((d.contains_iff name).1 there)

theorem mem_keys_insert (d : Dictionary α) (name : String) (value : α) (key : String) :
    key ∈ (d.insert name value).keys ↔ key = name ∨ key ∈ d.keys := by
  simp only [mem_keys_iff, find?_insert]
  by_cases asked : key = name <;> simp [asked]

/-! ### Removal -/

@[simp]
theorem keys_erase (d : Dictionary α) (name : String) :
    (d.erase name).keys = d.keys.filter (· != name) := rfl

/-- Removing a name that is not there changes nothing. -/
theorem erase_of_not_mem {d : Dictionary α} {name : String} (absent : name ∉ d.keys) :
    d.erase name = d := by
  have missing : d.table.contains name = false :=
    Bool.eq_false_iff.2 fun there => absent ((d.contains_iff name).1 there)
  obtain ⟨⟨⟨entries⟩, keys⟩, inStep⟩ := d
  simp only [erase, Raw.erase, Table.erase, mk.injEq, Raw.mk.injEq, Table.mk.injEq,
    List.filter_eq_self]
  constructor
  · intro entry mem
    rw [Table.contains, List.any_eq_false] at missing
    simpa using missing entry mem
  · intro key mem
    have other : key ≠ name := fun eq => absent (eq ▸ mem)
    simpa using other

theorem find?_erase (d : Dictionary α) (name key : String) :
    (d.erase name).find? key = if key = name then none else d.find? key :=
  d.table.find?_erase name key

theorem mem_keys_erase (d : Dictionary α) (name key : String) :
    key ∈ (d.erase name).keys ↔ key ≠ name ∧ key ∈ d.keys := by
  simp [and_comm]

/-! ### Several names at once -/

theorem find?_singleton (name : String) (value : α) (key : String) :
    (singleton name value).find? key = if key = name then some value else none := by
  by_cases asked : key = name
  · simp [singleton, find?, Raw.ofEntries, Table.find?, asked]
  · have other : ¬ name = key := fun eq => asked eq.symm
    simp [singleton, find?, Raw.ofEntries, Table.find?, asked, other]

theorem find?_union (d e : Dictionary α) (name : String) :
    (d.union e).find? name = (d.find? name).or (e.find? name) :=
  Raw.find?_union d.toRaw e.toRaw name

theorem find?_indexed_iff (places : List (Option α)) (name : String) (value : α) :
    (indexed places).find? name = some value ↔ (name, value) ∈ indexEntries 0 places :=
  Table.find?_eq_some_iff_mem (nodup_indexEntries 0 places) name value

/-! ### What holds of every value -/

/-- Something holds of the value of every name. -/
def Each (P : α → Prop) (d : Dictionary α) : Prop :=
  ∀ (name : String) (value : α), d.find? name = some value → P value

namespace Each

variable {P : α → Prop} {d e : Dictionary α}

theorem empty : Each P .empty := nofun

theorem insert (each : Each P d) (name : String) {value : α} (holds : P value) :
    Each P (d.insert name value) := by
  intro key old found
  rw [find?_insert] at found
  split at found
  · cases found
    exact holds
  · exact each key old found

theorem singleton (name : String) {value : α} (holds : P value) :
    Each P (.singleton name value) := empty.insert name holds

theorem erase (each : Each P d) (name : String) : Each P (d.erase name) := by
  intro key value found
  rw [find?_erase] at found
  split at found
  · cases found
  · exact each key value found

theorem union (first : Each P d) (second : Each P e) : Each P (d.union e) := by
  intro key value found
  rw [find?_union, Option.or_eq_some_iff] at found
  rcases found with found | ⟨-, found⟩
  · exact first key value found
  · exact second key value found

/-- The values of a sequence under its indices are those of its filled places. -/
theorem indexed {places : List (Option α)} (each : ∀ value, some value ∈ places → P value) :
    Each P (.indexed places) := by
  intro key value found
  obtain ⟨⟨place, index⟩, mem, eq⟩ :=
    List.mem_filterMap.1 ((find?_indexed_iff places key value).1 found)
  obtain ⟨_, rfl, same⟩ := Option.map_eq_some_iff.1 eq
  cases same
  exact each value (List.fst_mem_of_mem_zipIdx mem)

end Each

end Dictionary

end ScriptEngine
