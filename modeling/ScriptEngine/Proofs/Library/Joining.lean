import Mathlib
import ScriptEngine.Engine.Engine
import ScriptEngine.Proofs.Evaluation.Run

/-!
# Joined texts

Joining the elements of an object puts the separator between their texts, and refuses when the
result would be too long. It is refused at once if the separators alone are too long, and otherwise
as soon as what has been joined so far is. Neither check may refuse a text that fits, and together
they may miss none that does not.

What is read may run functions. `AlwaysEnds` says of an evaluation that it ends in one way in all of
some states, and in one of them again, so that another evaluation finds the same states behind it;
`Joinable` says so of all that is read for a join. Main result: a join then returns the text if it
fits, and refuses it otherwise (`join_ends_by_length`).
-/
namespace ScriptEngine

open Evaluation Operation

/-! ## Evaluations that always end alike -/

namespace Evaluation

variable {α β : Type} {states : Machine → Prop}

/-- From each of some states the evaluation ends in the same way, and in one of these states. -/
def AlwaysEnds (x : Evaluation α) (states : Machine → Prop) (outcome : Outcome α) : Prop :=
  ∀ m, states m → ∃ after, states after ∧ x.run m = (outcome, after)

theorem AlwaysEnds.pure (a : α) : AlwaysEnds (pure a) states (.value a) :=
  fun m here => ⟨m, here, rfl⟩

theorem AlwaysEnds.fail (cause : Cause) :
    AlwaysEnds (fail cause : Evaluation α) states (.raised (.error cause)) :=
  fun m here => ⟨m, here, rfl⟩

theorem AlwaysEnds.bind {x : Evaluation α} {f : α → Evaluation β} {a : α} {outcome : Outcome β}
    (first : x.AlwaysEnds states (.value a)) (second : (f a).AlwaysEnds states outcome) :
    (x >>= f).AlwaysEnds states outcome := by
  intro m here
  obtain ⟨between, there, ended⟩ := first m here
  obtain ⟨after, last, result⟩ := second between there
  refine ⟨after, last, ?_⟩
  rw [run_bind, ended, andThen_value, result]

theorem AlwaysEnds.bind_raised {x : Evaluation α} {f : α → Evaluation β} {raised : Raised}
    (first : x.AlwaysEnds states (.raised raised)) :
    (x >>= f).AlwaysEnds states (.raised raised) := by
  intro m here
  obtain ⟨after, last, ended⟩ := first m here
  refine ⟨after, last, ?_⟩
  rw [run_bind, ended]
  rfl

end Evaluation

/-! ## Texts with a separator -/

namespace Text

/-- Parts that come behind a first one, each with the separator in front of it. -/
def separated (separator : String) : List String → String
  | [] => ""
  | part :: rest => separator ++ part ++ separated separator rest

/-- Parts with the separator between them are the first one and then the others, separated. -/
theorem intercalate_cons (separator part : String) (rest : List String) :
    separator.intercalate (part :: rest) = part ++ separated separator rest := by
  induction rest generalizing part with
  | nil => simp [separated]
  | cons next rest ih =>
    rw [String.intercalate_cons_cons, ih, separated]
    simp only [String.append_assoc]

theorem size_separated_ge (separator : String) (rest : List String) :
    rest.length * separator.utf8ByteSize ≤ (separated separator rest).utf8ByteSize := by
  induction rest with
  | nil => simp
  | cons part rest ih =>
    simp only [List.length_cons, Nat.succ_mul, separated, String.utf8ByteSize_append]
    omega

/-- The separators alone are no longer than the whole text. -/
theorem separators_le (separator : String) (parts : List String) :
    (parts.length - 1) * separator.utf8ByteSize ≤
      (separator.intercalate parts).utf8ByteSize := by
  cases parts with
  | nil => simp
  | cons part rest =>
    have others := size_separated_ge separator rest
    rw [intercalate_cons, String.utf8ByteSize_append, List.length_cons, Nat.add_sub_cancel]
    omega

end Text

namespace Library

open Text

variable {services : Services} {states : Machine → Prop} {o : ObjectId}

/-- What a joined text of some size is: itself, or refused. -/
def ifFits (text : String) : Outcome String :=
  if text.utf8ByteSize ≤ maxJoined then .value text else .raised (.error .textLength)

theorem ifFits_of_le {text : String} (fits : text.utf8ByteSize ≤ maxJoined) :
    ifFits text = .value text :=
  if_pos fits

theorem ifFits_of_lt {text : String} (long : maxJoined < text.utf8ByteSize) :
    ifFits text = .raised (.error .textLength) :=
  if_neg (Nat.not_le.mpr long)

/-- What goes on from a text that does not fit does not fit either. -/
theorem ifFits_append {front : String} (long : maxJoined < front.utf8ByteSize) (rest : String) :
    ifFits (front ++ rest) = .raised (.error .textLength) := by
  apply ifFits_of_lt
  rw [String.utf8ByteSize_append]
  omega

/-- What an element adds to a joined text, given the text that its value converts to. -/
def shown (value : Value) (text : String) : String :=
  match value with
  | .undefined | .null => ""
  | _ => text

/-! ## Joining from an element on -/

/-- The element at an index always adds the same text. -/
def AddsText (services : Services) (states : Machine → Prop) (o : ObjectId) (index : Nat)
    (part : String) : Prop :=
  (getOwn services.call o (decimal index) >>= elementText services).AlwaysEnds states (.value part)

/-- One element is joined, and the others unless it was one too many. -/
theorem joinFrom_succ_ends {separator joined part : String} {index count : Nat}
    {outcome : Outcome String} (element : AddsText services states o index part)
    (front : String) (starts : front = if index = 0 then joined else joined ++ separator)
    (refused : maxJoined < (front ++ part).utf8ByteSize → outcome = .raised (.error .textLength))
    (later : (front ++ part).utf8ByteSize ≤ maxJoined →
      (joinFrom services o separator (front ++ part) (index + 1) count).AlwaysEnds states outcome) :
    (joinFrom services o separator joined index (count + 1)).AlwaysEnds states outcome := by
  have step : joinFrom services o separator joined index (count + 1) =
      (getOwn services.call o (decimal index) >>= elementText services) >>= fun part =>
        if maxJoined < (front ++ part).utf8ByteSize then fail .textLength
        else joinFrom services o separator (front ++ part) (index + 1) count := by
    rw [joinFrom, starts, bind_assoc]
  rw [step]
  apply element.bind
  by_cases long : maxJoined < (front ++ part).utf8ByteSize
  · rw [if_pos long, refused long]
    exact .fail _
  · rw [if_neg long]
    exact later (Nat.le_of_not_lt long)

/-- Behind the first element, what is joined so far is followed by the others, separated. -/
theorem joinFrom_ends {separator joined : String} {index count : Nat} {part : Nat → String}
    (elements : ∀ i, i < index + count → AddsText services states o i (part i))
    (behind : index ≠ 0) (fits : joined.utf8ByteSize ≤ maxJoined) :
    (joinFrom services o separator joined index count).AlwaysEnds states
      (ifFits (joined ++ separated separator ((List.range' index count).map part))) := by
  induction count generalizing index joined with
  | zero =>
    have whole : ifFits (joined ++ "") = .value joined := by
      rw [String.append_empty]
      exact ifFits_of_le fits
    rw [List.range'_zero, List.map_nil, separated, whole]
    exact .pure joined
  | succ count ih =>
    -- The text so far with the next element is what the text of the others goes on from.
    have next : joined ++ separated separator ((List.range' index (count + 1)).map part) =
        joined ++ separator ++ part index ++
          separated separator ((List.range' (index + 1) count).map part) := by
      rw [List.range'_succ, List.map_cons, separated]
      simp only [String.append_assoc]
    rw [next]
    apply joinFrom_succ_ends (elements index (by omega)) _ (if_neg behind).symm
    · exact fun long => ifFits_append long _
    · intro fits
      apply ih _ (Nat.succ_ne_zero index) fits
      intro i below
      exact elements i (by omega)

/-- All elements are joined, with the separator between them. -/
theorem joinFrom_zero_ends {separator : String} {count : Nat} {part : Nat → String}
    (elements : ∀ i, i < count → AddsText services states o i (part i)) :
    (joinFrom services o separator "" 0 count).AlwaysEnds states
      (ifFits (separator.intercalate ((List.range count).map part))) := by
  cases count with
  | zero =>
    have empty : ifFits (separator.intercalate []) = .value "" := by
      rw [String.intercalate_nil]
      exact ifFits_of_le (by decide)
    rw [List.range_zero, List.map_nil, empty]
    exact .pure ""
  | succ count =>
    rw [List.range_eq_range', List.range'_succ, List.map_cons, intercalate_cons]
    have first : ("" : String) ++ part 0 = part 0 := String.empty_append
    apply joinFrom_succ_ends (elements 0 (Nat.succ_pos count)) "" (if_pos rfl).symm
    · rw [first]
      exact fun long => ifFits_append long _
    · rw [first]
      intro fits
      apply joinFrom_ends _ Nat.one_ne_zero fits
      intro i below
      exact elements i (by omega)

/-! ## The whole join -/

/-- What a join does once it knows the separator and how many elements there are. -/
def joinFirst (services : Services) (o : ObjectId) (separator : String) (count : Nat) :
    Evaluation Value :=
  if maxJoined < (count - 1) * separator.utf8ByteSize then fail .textLength
  else do return .string (← joinFrom services o separator "" 0 count)

section joinFirst

variable {separator joined : String} {count : Nat}

theorem joinFirst_returns (room : (count - 1) * separator.utf8ByteSize ≤ maxJoined)
    (joins : (joinFrom services o separator "" 0 count).AlwaysEnds states (.value joined)) :
    (joinFirst services o separator count).AlwaysEnds states (.value (.string joined)) := by
  rw [joinFirst, if_neg (Nat.not_lt.mpr room)]
  exact joins.bind (.pure _)

theorem joinFirst_refuses
    (joins : (joinFrom services o separator "" 0 count).AlwaysEnds states
      (.raised (.error .textLength))) :
    (joinFirst services o separator count).AlwaysEnds states (.raised (.error .textLength)) := by
  rw [joinFirst]
  split
  · exact .fail _
  · exact joins.bind_raised

end joinFirst

/-- What is read for a join is the same in all of some states, and reading leads to no others: the
length of the object, the separator if one is given, and the elements up to the length. -/
structure Joinable (services : Services) (states : Machine → Prop) (o : ObjectId) (given : Value)
    (length : Number) (separator : String) (value : Nat → Value) (text : Nat → String) : Prop where
  readsLength : (getOwn services.call o "length" >>= toNumber services.call).AlwaysEnds states
    (.value length)
  comma : given = .undefined → separator = ","
  convertsSeparator : given ≠ .undefined →
    (toText services.call given).AlwaysEnds states (.value separator)
  readsElement : ∀ i < length.clampNat Object.maxLength,
    (getOwn services.call o (decimal i)).AlwaysEnds states (.value (value i))
  convertsElement : ∀ i < length.clampNat Object.maxLength, value i ≠ .undefined →
    value i ≠ .null → (toText services.call (value i)).AlwaysEnds states (.value (text i))

namespace Joinable

variable {given : Value} {length : Number} {separator : String} {value : Nat → Value}
  {text : Nat → String}

theorem addsText (joinable : Joinable services states o given length separator value text) {i : Nat}
    (below : i < length.clampNat Object.maxLength) :
    AddsText services states o i (shown (value i) (text i)) := by
  apply (joinable.readsElement i below).bind
  have converted := joinable.convertsElement i below
  cases known : value i with
  | undefined => exact .pure ""
  | null => exact .pure ""
  | boolean | string | number | object =>
    rw [known] at converted
    exact converted nofun nofun

/-- A join goes as what it does once the length and the separator are known. -/
theorem arrayJoin_ends {arguments : List Value} {outcome : Outcome Value}
    (joinable : Joinable services states o (argument arguments 0) length separator value text)
    (rest : (joinFirst services o separator (length.clampNat Object.maxLength)).AlwaysEnds states
      outcome) :
    (arrayJoin services (.object o) arguments).AlwaysEnds states outcome := by
  have counted : (lengthOf services o).AlwaysEnds states
      (.value (length.clampNat Object.maxLength)) := by
    have limited : lengthOf services o =
        (getOwn services.call o "length" >>= toNumber services.call) >>= fun length =>
          pure (length.clampNat Object.maxLength) := by
      rw [lengthOf, bind_assoc]
    rw [limited]
    exact joinable.readsLength.bind (.pure _)
  apply (AlwaysEnds.pure o).bind
  apply counted.bind
  have comma := joinable.comma
  have converts := joinable.convertsSeparator
  dsimp only
  cases given : argument arguments 0 with
  | undefined =>
    obtain rfl := comma given
    exact rest
  | null | boolean | string | number | object =>
    rw [given] at converts
    exact (converts nofun).bind rest

end Joinable

/-- If what a join reads does not change by being read, it returns the texts of the first elements,
as many as the length says and an array can have, with the separator between them; `undefined`,
`null` and missing elements are empty. It does so exactly if this text is small enough, and raises
the `RangeError` that its length is invalid otherwise. -/
theorem join_ends_by_length {arguments : List Value} {length : Number} {separator : String}
    {value : Nat → Value} {text : Nat → String}
    (joinable : Joinable services states o (argument arguments 0) length separator value text) :
    let count := length.clampNat (2 ^ 32 - 1)
    let joined := separator.intercalate ((List.range count).map fun i => shown (value i) (text i))
    (joined.utf8ByteSize ≤ 2 ^ 30 - 25 →
      (perform services .arrayJoin (.object o) arguments).AlwaysEnds states
        (.value (.string joined))) ∧
      (2 ^ 30 - 25 < joined.utf8ByteSize →
        ∃ cause : Cause, cause.kind = .rangeError ∧ cause.message = "Invalid string length" ∧
          (perform services .arrayJoin (.object o) arguments).AlwaysEnds states
            (.raised (.error cause))) := by
  intro count joined
  have joins : (joinFrom services o separator "" 0 count).AlwaysEnds states (ifFits joined) := by
    apply joinFrom_zero_ends
    intro i below
    exact joinable.addsText below
  constructor
  · intro fits
    rw [ifFits_of_le fits] at joins
    apply joinable.arrayJoin_ends
    apply joinFirst_returns _ joins
    -- The separators alone are no longer than the whole text, so nothing is refused early.
    have room := separators_le separator ((List.range count).map fun i => shown (value i) (text i))
    rw [List.length_map, List.length_range] at room
    exact Nat.le_trans room fits
  · intro long
    rw [ifFits_of_lt long] at joins
    exact ⟨.textLength, rfl, rfl, joinable.arrayJoin_ends (joinFirst_refuses joins)⟩

/-- An array with a hole is joined, in a machine in which nothing else happens. -/
theorem join_ends_by_length_holes :
    let m := (Engine.create { builtins := false }).machine
    let array := newArray [some (.string "a"), none, some .null, some (.boolean true)]
    let after := (array.run m).2
    let o : ObjectId := ⟨m.store.objects.size⟩
    let services : Services := ⟨fun _ _ _ => pure .undefined, fun _ _ => pure (.normal none)⟩
    (array.run m).1 = .value o ∧
      (perform services .arrayJoin (.object o) [.string "-"]).AlwaysEnds (· = after)
        (.value (.string "a---true")) := by
  intro m array after o services
  let elements : List Value := [.string "a", .undefined, .null, .boolean true]
  let texts : List String := ["a", "", "", "true"]
  have joinable : Joinable services (· = after) o (argument [.string "-"] 0) (.ofNat 4) "-"
      (elements.getD · .undefined) (texts.getD · "") := by
    have four : (Number.ofNat 4).clampNat Object.maxLength = 4 := by decide +kernel
    constructor
    · rintro _ rfl
      exact ⟨after, rfl, rfl⟩
    · nofun
    · rintro - _ rfl
      exact ⟨after, rfl, rfl⟩
    · rw [four]
      rintro i below _ rfl
      match i with
      | 0 | 1 | 2 | 3 => exact ⟨after, rfl, rfl⟩
    · rw [four]
      rintro i below defined notNull _ rfl
      match i with
      | 0 | 3 => exact ⟨after, rfl, rfl⟩
      | 1 => exact absurd rfl defined
      | 2 => exact absurd rfl notNull
  have joined := join_ends_by_length joinable
  exact ⟨rfl, joined.1 (by decide +kernel)⟩

end Library

end ScriptEngine
