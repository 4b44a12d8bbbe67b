import ScriptEngine.Operation.Convert
import ScriptEngine.Proofs.Engine.ReadBack
import ScriptEngine.Proofs.Evaluation.KeyLoops
import ScriptEngine.Proofs.Heap.Engines
import ScriptEngine.Proofs.Store.Freezing
import ScriptEngine.Proofs.Text.Decimal
import ScriptEngine.Proofs.Text.Units

/-!
# Texts and their objects

The object that a text becomes lists the code units as properties, each under its index, and the
number of them as `length`. A read of the text itself finds the unit of a key without that object,
by reading the key as a number. The object has the same properties under all keys
(`stringObject_property?`, `stringProperty?_eq`), no others (`stringObject_contains_iff`), and it is
frozen (`stringObject_frozen`).

A property of a text can be read from the text itself, or from the object that the text becomes.
Main result: while all properties of `Object.prototype` have values, the two reads agree for every
key, `hasOwnProperty` knows exactly the keys that a text has by itself, and what a loop over the
keys of a text gets from the object is the unit that the text has there (`strings_read_alike`).
Both reads go on with `Object.prototype`, and end there: it was made before every other object, so
it has no prototype.
-/
namespace ScriptEngine

/-! ## The object of a text -/

/-- The entries of a sequence are its filled places, each under its index. -/
theorem mem_indexEntries_iff {α : Type} {start : Nat} {places : List (Option α)} {key : String}
    {value : α} :
    (key, value) ∈ indexEntries start places ↔
      ∃ i, places[i]? = some (some value) ∧ key = Text.decimal (start + i) := by
  simp only [indexEntries, List.mem_filterMap, Option.map_eq_some_iff, Prod.mk.injEq, Prod.exists,
    List.mem_zipIdx_iff_le_and_getElem?_sub]
  constructor
  · rintro ⟨_, index, ⟨le, there⟩, _, rfl, rfl, rfl⟩
    exact ⟨index - start, there, by rw [Nat.add_sub_cancel' le]⟩
  · rintro ⟨i, there, rfl⟩
    exact ⟨some value, start + i, ⟨Nat.le_add_right _ _, by rwa [Nat.add_sub_cancel_left]⟩, value,
      rfl, rfl, rfl⟩

/-- A name is looked up in a sequence as the index that it is written as. -/
theorem Dictionary.find?_indexed {α : Type} (places : List (Option α)) (key : String) :
    (Dictionary.indexed places).find? key =
      (Text.readDecimal? key).bind fun i => places[i]?.join := by
  ext value
  rw [Dictionary.find?_indexed_iff, mem_indexEntries_iff]
  simp only [Nat.zero_add, Option.bind_eq_some_iff, Text.readDecimal?_eq_some_iff,
    Option.join_eq_some_iff]
  exact exists_congr fun i => And.comm

/-- The value of a property that has one. -/
def Property.value? : Property → Option Value
  | .data value _ _ _ => some value
  | .accessor .. => none

namespace Operation

variable (text key : String)

/-- The properties of the object of a text. -/
theorem stringObject_property? :
    (stringObject text).property? key =
      if key = "length" then some (.fixed (.ofNat (Text.unitLength text)))
      else ((Text.readDecimal? key).bind (Text.unitAt? text)).map fun unit =>
        .data (.string unit) false true false := by
  simp only [stringObject, Object.property?, Dictionary.find?_insert, Dictionary.find?_indexed,
    List.getElem?_map, Option.map_bind, Text.unitAt?, Option.map_map, Function.comp_def]
  congr 2
  funext i
  cases (Text.units text)[i]? <;> rfl

/-- What a text has by itself is what its object has. -/
theorem stringProperty?_eq :
    stringProperty? text key = ((stringObject text).property? key).bind Property.value? := by
  rw [stringProperty?, stringObject_property?]
  split
  · rfl
  · cases (Text.readDecimal? key).bind (Text.unitAt? text) <;> rfl

/-- All properties of the object of a text have values. -/
theorem isData_of_stringObject {text key : String} {p : Property}
    (own : (stringObject text).property? key = some p) : p.isData = true := by
  rw [stringObject_property?] at own
  split at own
  · cases own
    rfl
  · obtain ⟨unit, -, rfl⟩ := Option.map_eq_some_iff.1 own
    rfl

/-- The object of a text has its `length`, and the canonical texts of the numbers below that. -/
theorem stringObject_contains_iff :
    (stringObject text).properties.contains key = true ↔
      key = "length" ∨ ∃ i < Text.unitLength text, key = Text.decimal i := by
  rw [Dictionary.contains_iff, Dictionary.mem_keys_iff]
  change (∃ p, (stringObject text).property? key = some p) ↔ _
  rw [stringObject_property?]
  split
  next length => exact ⟨fun _ => .inl length, fun _ => ⟨_, rfl⟩⟩
  next other =>
    simp only [other, false_or, Option.map_eq_some_iff, Option.bind_eq_some_iff,
      Text.readDecimal?_eq_some_iff, ← Text.isSome_unitAt?, Option.isSome_iff_exists]
    constructor
    · rintro ⟨_, unit, ⟨i, here, there⟩, rfl⟩
      exact ⟨i, ⟨unit, there⟩, here⟩
    · rintro ⟨i, ⟨unit, there⟩, here⟩
      exact ⟨_, unit, ⟨i, here, there⟩, rfl⟩

theorem stringObject_frozen : (stringObject text).Frozen where
  closed := rfl
  permanent key p own := by
    rw [stringObject_property?] at own
    split at own
    · cases own
      exact ⟨rfl, rfl⟩
    · obtain ⟨unit, -, rfl⟩ := Option.map_eq_some_iff.1 own
      exact ⟨rfl, rfl⟩

end Operation

open Evaluation Operation Evaluate

/-! ## Reading from an engine -/

/-- All properties of `Object.prototype` have values. -/
def Store.PlainRoot (s : Store) : Prop :=
  ∀ key p, (s.object WellKnown.objectPrototype).property? key = some p → p.isData = true

namespace Store

variable {s : Store}

/-- Nothing is behind the first object. -/
theorem LinksDown.prototype_root (links : s.LinksDown) :
    (s.object WellKnown.objectPrototype).prototype = none :=
  Option.eq_none_iff_forall_ne_some.2 fun _ link => Nat.not_lt_zero _ (links.prototype link)

theorem LinksDown.lookup_root (links : s.LinksDown) (key : String) :
    s.lookup WellKnown.objectPrototype key =
      (s.object WellKnown.objectPrototype).property? key := by
  rw [links.lookup_eq, links.prototype_root, Option.bind_none, Option.or_none]

end Store

namespace Operation

variable (call : Caller) {m : Machine} {id : ObjectId} {key : String}

/-- What is read where no getter is found. -/
theorem get_run_of_isData (receiver : Value)
    (data : ∀ p, m.store.lookup id key = some p → p.isData = true) :
    (get call id key receiver).run m =
      (.value (((m.store.lookup id key).bind Property.value?).getD .undefined), m) := by
  simp only [get, run_bind, run_ask, andThen_value]
  cases found : m.store.lookup id key with
  | none => rfl
  | some p =>
    cases p with
    | data => rfl
    | accessor => cases data _ found

theorem toKey_run (text : String) (m : Machine) :
    (toKey call (.string text)).run m = (.value text, m) := rfl

end Operation

/-- A text has become an object. -/
structure Store.BecomesObject (s : Store) (text : String) (id : ObjectId) (t : Store) : Prop where
  /-- The object is new. -/
  fresh : id.index = s.objects.size
  here : t.object id = stringObject text
  root : t.object WellKnown.objectPrototype = s.object WellKnown.objectPrototype
  links : t.LinksDown

namespace Store.BecomesObject

variable {s t : Store} {text : String} {id : ObjectId}

theorem allocate (closed : s.Closed) (text : String) :
    s.BecomesObject text (s.allocate (stringObject text)).1 (s.allocate (stringObject text)).2 where
  fresh := rfl
  here := by rw [object_allocate, if_pos (by rfl)]
  root := by
    have present : (0 : Nat) < s.objects.size := Nat.zero_lt_of_lt closed.globalObject
    rw [object_allocate, if_neg]
    exact Nat.ne_of_lt present
  links := closed.toLinksDown.allocate fun p link => by
    cases link
    exact Nat.zero_lt_of_lt closed.globalObject

/-- A key of the object is one of its own, or one of `Object.prototype`. -/
theorem lookup (object : s.BecomesObject text id t) (key : String) :
    t.lookup id key = ((stringObject text).property? key).or
      ((s.object WellKnown.objectPrototype).property? key) := by
  rw [object.links.lookup_eq, object.here, ← object.root, ← object.links.lookup_root]
  rfl

/-- The keys of the object that a loop visits are the indices of the text. -/
theorem own_key {key : String} (object : s.BecomesObject text id t)
    (visited : key ∈ t.forInKeys id) (own : (t.object id).properties.contains key = true) :
    ∃ i unit, key = Text.decimal i ∧ (Text.units text)[i]? = some unit ∧
      (t.object id).property? key = some (.data (.string (Text.ofUnit unit)) false true false) := by
  rw [contains_eq_property?, Option.isSome_iff_exists] at own
  obtain ⟨p, found⟩ := own
  rw [mem_forInKeys_iff, object.links.isEnumerable_eq, found] at visited
  rw [found]
  rw [object.here, stringObject_property?] at found
  split at found
  -- The `length` is hidden from loops.
  · cases found
    cases visited
  · simp only [Option.map_eq_some_iff, Option.bind_eq_some_iff, Text.readDecimal?_eq_some_iff,
      Text.unitAt?] at found
    obtain ⟨_, ⟨i, here, unit, there, rfl⟩, rfl⟩ := found
    exact ⟨i, unit, here, there, rfl⟩

end Store.BecomesObject

namespace Operation

variable (call : Caller) {text : String} {m : Machine}

theorem toObject_run_string (text : String) (m : Machine) :
    (toObject (.string text)).run m =
      (.value (m.store.allocate (stringObject text)).1,
        { m with store := (m.store.allocate (stringObject text)).2 }) := rfl

/-- What a text has under a key by itself, or else from `Object.prototype`. -/
def stringRead (s : Store) (text key : String) : Value :=
  ((stringProperty? text key).or
    (((s.object WellKnown.objectPrototype).property? key).bind Property.value?)).getD .undefined

theorem getV_run_string (links : m.store.LinksDown) (plain : m.store.PlainRoot)
    (text key : String) :
    (getV call (.string text) key).run m = (.value (stringRead m.store text key), m) := by
  have inherited : (get call WellKnown.objectPrototype key (.string text)).run m = _ :=
    get_run_of_isData call (.string text) fun p found => plain key p (links.lookup_root key ▸ found)
  rw [links.lookup_root] at inherited
  rw [stringRead]
  cases own : stringProperty? text key with
  | none => simp only [getV, own, inherited, Option.none_or]
  | some value => simp only [getV, own, run_pure, Option.some_or, Option.getD_some]

theorem getV_run_stringObject {s : Store} {id : ObjectId}
    (object : s.BecomesObject text id m.store) (plain : s.PlainRoot) (key : String) :
    (getV call (.object id) key).run m = (.value (stringRead s text key), m) := by
  have data : ∀ p, m.store.lookup id key = some p → p.isData = true := by
    intro p found
    rw [object.lookup, Option.or_eq_some_iff] at found
    exact found.elim isData_of_stringObject fun inherited => plain key p inherited.2
  have read := get_run_of_isData call (.object id) data
  rw [object.lookup] at read
  refine read.trans ?_
  rw [stringRead, stringProperty?_eq]
  cases own : (stringObject text).property? key with
  | none => rfl
  | some p =>
    cases p with
    | data => rfl
    | accessor => cases isData_of_stringObject own

theorem hasOwnProperty_run_string (services : Services) (text key : String)
    (rest : List Value) (m : Machine) :
    (Library.hasOwnProperty services (.string text) (.string key :: rest)).run m =
      (.value (.boolean ((stringObject text).properties.contains key)),
        { m with store := (m.store.allocate (stringObject text)).2 }) := by
  have here : (m.store.allocate (stringObject text)).2.object
      (m.store.allocate (stringObject text)).1 = stringObject text := by
    rw [Store.object_allocate, if_pos (by rfl)]
  simp only [Library.hasOwnProperty, run_bind, Library.argument, List.getElem?_cons_zero,
    Option.getD_some, toKey_run, andThen_value, toObject_run_string, run_ask, here, run_pure]

end Operation

/-- A round of a loop over the keys of a text, for a key that the object of the text has when the
round starts: the key is an index, and the text and the object both have the unit of that index
there. -/
theorem Store.BecomesObject.reads_in_round {call : Caller} {text key : String} {id : ObjectId}
    {s : Store} {entry start : Machine} (object : s.BecomesObject text id entry.store)
    (visited : key ∈ entry.store.forInKeys id) (present : entry.store.HasObject id)
    (reached : entry.store.Reaches start.store)
    (own : (start.store.object id).properties.contains key = true) :
    ∃ i unit, key = Text.decimal i ∧ (Text.units text)[i]? = some unit ∧
      (getV call (.string text) key).run start = (.value (.string (Text.ofUnit unit)), start) ∧
      (getV call (.object id) key).run start = (.value (.string (Text.ofUnit unit)), start) := by
  -- Nothing can change about the object, so it has the key since the start of the loop.
  have alike := reached.alike_of_frozen present (object.here ▸ stringObject_frozen text)
  have keys : (start.store.object id).properties.keys = (entry.store.object id).properties.keys :=
    alike.keys
  rw [Dictionary.contains_iff, keys, ← Dictionary.contains_iff] at own
  obtain ⟨i, unit, here, there, found⟩ := object.own_key visited own
  obtain ⟨q, still, same⟩ := alike.property key _ found
  refine ⟨i, unit, here, there, ?_, ?_⟩
  · have byItself : stringProperty? text key = some (.string (Text.ofUnit unit)) := by
      rw [stringProperty?_eq, ← object.here, found]
      rfl
    simp only [getV, byItself, run_pure]
  · cases q with
    | accessor => cases same
    | data value =>
      have text : value = .string (Text.ofUnit unit) := by
        cases value with
        | string read => exact congrArg Value.string (eq_of_beq same.1).symm
        | _ => cases same.1
      rw [← text]
      exact getOwn_run call still

namespace Engine

variable {confined : Prop} {e : Engine}

/-- Whatever has happened on an engine, as long as all properties of `Object.prototype` have values:
a property of a text reads alike from the text and from the object that the text becomes, under
every key. The text has of its own the `length` and the canonical decimal texts of the numbers below
it, and no other keys. And in a loop over the keys of the text, each round whose key is one of the
object gets the text of an index, under which the text and the object both have the unit that
stands there. -/
theorem strings_read_alike {moments : List Moment} (history : GroundedHistory confined moments e)
    {now : Moment} (mem : now ∈ moments) (plain : now.machine.store.PlainRoot) {m : Machine}
    (current : m.store = now.machine.store) (call : Caller) (services : Services) (text : String) :
    ∃ id entry, (toObject (.string text)).run m = (.value id, entry) ∧
      (∀ key, ∃ value,
        (getV call (.string text) key).run m = (.value value, m) ∧
        (getV call (.string text) key).run entry = (.value value, entry) ∧
        (getV call (.object id) key).run entry = (.value value, entry)) ∧
      (∀ key rest, ∃ holds after,
        (Library.hasOwnProperty services (.string text) (.string key :: rest)).run m =
          (.value (.boolean holds), after) ∧
        (holds = true ↔ key = "length" ∨ ∃ i < Text.unitLength text, key = Text.decimal i)) ∧
      ∀ (left : ForTarget) (right : Expression) (start : Machine),
        (forInObject left (evaluate call right)).run start = (.value (.string text), m) →
        ∀ (bound : Nat) (labels : List String) (span : Span) (body : Statement) (scope : Scope),
        let visit := keyRound call left (execute call bound [] body)
        let keys := entry.store.forInKeys id
        let loop := visitKeys labels id visit keys .undefined
        (execute call bound labels (.forInLoop span left right body scope)).run start =
            (loop >>= fun ending => pure (ending.endBreak .undefined)).run entry ∧
          ∃ rounds, KeyRounds labels id visit keys .undefined entry rounds (loop.run entry) ∧
            ∀ round ∈ rounds, (round.2.store.object id).properties.contains round.1 = true →
              ∃ i unit, round.1 = Text.decimal i ∧ (Text.units text)[i]? = some unit ∧
                (getV call (.string text) round.1).run round.2 =
                  (.value (.string (Text.ofUnit unit)), round.2) ∧
                (getV call (.object id) round.1).run round.2 =
                  (.value (.string (Text.ofUnit unit)), round.2) := by
  have closed : m.store.Closed := current ▸ (history.allows.1 now mem).closed
  have plain : m.store.PlainRoot := current ▸ plain
  have made := toObject_run_string text m
  have object := Store.BecomesObject.allocate closed text
  have present := m.store.hasObject_allocate (stringObject text)
  generalize (m.store.allocate (stringObject text)).1 = id at made object present
  generalize entered : (⟨(m.store.allocate (stringObject text)).2, m.control⟩ : Machine) = entry
    at made
  have store : (m.store.allocate (stringObject text)).2 = entry.store := by rw [← entered]
  rw [store] at object present
  refine ⟨id, entry, made, fun key => ?_, fun key rest => ?_, ?_⟩
  · have plain' : entry.store.PlainRoot := fun key p found => plain key p (object.root ▸ found)
    have first := getV_run_string call closed.toLinksDown plain text key
    have again := getV_run_string call object.links plain' text key
    have same : stringRead entry.store text key = stringRead m.store text key := by
      rw [stringRead, stringRead, object.root]
    exact ⟨_, first, same ▸ again, getV_run_stringObject call object plain key⟩
  · exact ⟨_, _, hasOwnProperty_run_string services text key rest m,
      stringObject_contains_iff text key⟩
  · intro left right start evaluated bound labels span body scope visit keys loop
    have whole : (forInObject left (evaluate call right) >>= toObject).run start =
        (.value id, entry) := by
      rw [run_bind, evaluated, andThen_value, made]
    obtain ⟨rounds, all⟩ := keyRounds_run labels id visit keys .undefined entry
    refine ⟨?_, rounds, all, fun round mem own => ?_⟩
    · rw [execute_forIn, run_bind, (forInLoop_entered whole labels visit).1, run_bind]
    · have visited := all.sublist.mem (List.mem_map_of_mem mem)
      exact object.reads_in_round visited present (all.reaches round mem) own

/-- A text with a character of two units, on an engine with the whole library: under the index of
the second unit there is one text to read, and the same index with a zero before it is no key. -/
theorem strings_read_alike_surrogates :
    let e := create {}
    let services : Services := ⟨e.caller, runScript e.caller loopBound⟩
    let text := "a😀"
    ∃ id entry, (toObject (.string text)).run e.machine = (.value id, entry) ∧
      (∃ value, (getV e.caller (.string text) "2").run e.machine = (.value value, e.machine) ∧
        (getV e.caller (.object id) "2").run entry = (.value value, entry)) ∧
      ∃ after, (Library.hasOwnProperty services (.string text) [.string "02"]).run e.machine =
        (.value (.boolean false), after) := by
  intro e services text
  have created : GroundedHistory False [e.moment] e := .create _
  have plain : e.machine.store.PlainRoot := by
    have entries : ∀ entry ∈ (e.machine.store.object WellKnown.objectPrototype).properties.entries,
        entry.2.isData = true := by decide +kernel
    exact fun key p found => entries (key, p) ((Dictionary.mem_entries_iff _ _ _).2 found)
  obtain ⟨id, entry, made, reads, owns, -⟩ :=
    strings_read_alike created List.mem_cons_self plain rfl e.caller services text
  obtain ⟨value, byItself, -, fromObject⟩ := reads "2"
  obtain ⟨holds, after, asked, known⟩ := owns "02" []
  have absent : ¬ ("02" = "length" ∨ ∃ i < Text.unitLength text, "02" = Text.decimal i) := by
    decide
  cases holds with
  | true => exact absurd (known.1 rfl) absent
  | false => exact ⟨id, entry, made, ⟨value, byItself, fromObject⟩, after, asked⟩

end Engine

end ScriptEngine
