import ScriptEngine.Proofs.Store.Arrays
import ScriptEngine.Proofs.Text.Decimal

/-!
# Indices and words

The index that a key denotes is the number that the key is the decimal text of, as long as it is
below the largest length (`arrayIndex?_eq_some_iff`). So no two keys denote one index.

The numbers here are unbounded. A machine reads the digits of a key into a word of 64 bits, keeps
the index in one of 32 bits, and adds one to it when an element comes to the end of an array. None
of this makes a difference: the digits are given up where their word would overflow, which is far
beyond all indices (`arrayIndex?_eq_map_word`); the largest word is no index, so there is a word
behind each of them (`toNat_succ_of_arrayIndexWord?`); and the lengths that arrays get are just those
words (`WellFormed.countsInWords`).
-/
namespace ScriptEngine

namespace Text

/-- Puts a digit behind a number in a word of 64 bits, unless it overflows. -/
def pushDigit? (n : UInt64) (c : Char) : Option UInt64 :=
  let next := n.toNat * 10 + digitValue c
  if next < 2 ^ 64 then some (UInt64.ofNat next) else none

/-- The number written by decimal digits, read into a word of 64 bits. -/
def wordOfDigits? (digits : List Char) : Option UInt64 := digits.foldlM pushDigit? 0

theorem le_foldl_digits (digits : List Char) (n : Nat) :
    n ≤ digits.foldl (fun acc c => acc * 10 + digitValue c) n := by
  induction digits generalizing n with
  | nil => exact Nat.le_refl n
  | cons c rest ih => exact Nat.le_trans (by omega) (ih (n * 10 + digitValue c))

private theorem foldlM_pushDigit? (digits : List Char) (n : UInt64) :
    digits.foldlM pushDigit? n =
      let read := digits.foldl (fun acc c => acc * 10 + digitValue c) n.toNat
      if read < 2 ^ 64 then some (UInt64.ofNat read) else none := by
  induction digits generalizing n with
  | nil => simp [n.toNat_lt]
  | cons c rest ih =>
    rw [List.foldlM_cons, List.foldl_cons, pushDigit?]
    split
    next fits =>
      rw [Option.bind_eq_bind, Option.bind_some, ih, UInt64.toNat_ofNat_of_lt' fits]
    -- A number that has outgrown the word does not become smaller by more digits.
    next overflows =>
      have larger := le_foldl_digits rest (n.toNat * 10 + digitValue c)
      exact (if_neg (by omega)).symm

/-- The digits are given up exactly if their number does not fit the word. -/
theorem wordOfDigits?_eq (digits : List Char) :
    wordOfDigits? digits =
      if ofDigits digits < 2 ^ 64 then some (UInt64.ofNat (ofDigits digits)) else none :=
  foldlM_pushDigit? digits 0

end Text

namespace Object

variable {key : String} {index : Nat}

/-! ## Keys -/

/-- A key denotes the index that it is the decimal text of, and all indices are below the largest
length. -/
theorem arrayIndex?_eq_some_iff :
    arrayIndex? key = some index ↔ index < maxLength ∧ key = Text.decimal index := by
  rw [arrayIndex?, Option.filter_eq_some_iff, Text.readDecimal?_eq_some_iff, decide_eq_true_iff,
    and_comm]

theorem arrayIndex?_decimal {n : Nat} (below : n < maxLength) :
    arrayIndex? (Text.decimal n) = some n := arrayIndex?_eq_some_iff.2 ⟨below, rfl⟩

/-- Keys that denote the same index are the same. -/
theorem eq_of_arrayIndex?_eq {key' : String} (read : arrayIndex? key = some index)
    (read' : arrayIndex? key' = some index) : key = key' :=
  (arrayIndex?_eq_some_iff.1 read).2.trans (arrayIndex?_eq_some_iff.1 read').2.symm

/-! ## Words -/

/-- The index that a key denotes, read into a word of 64 bits and kept in one of 32 bits. -/
def arrayIndexWord? (key : String) : Option UInt32 :=
  match key.toList with
  | [] => none
  | first :: rest =>
    if (first == '0' && !rest.isEmpty) || !(first :: rest).all Char.isDigit then none
    else ((Text.wordOfDigits? (first :: rest)).filter (· < 0xFFFFFFFF)).map UInt64.toUInt32

/-- A number is an index if it is one in words. What fits no word of 64 bits is above all lengths
anyway. -/
private theorem filter_eq_map_word (n : Nat) :
    (some n).filter (· < maxLength) =
      ((((if n < 2 ^ 64 then some (UInt64.ofNat n) else none).filter (· < 0xFFFFFFFF)).map
        UInt64.toUInt32).map UInt32.toNat) := by
  have bound : maxLength = 4294967295 := rfl
  by_cases fits : n < 2 ^ 64
  · have same : (UInt64.ofNat n).toNat = n := UInt64.toNat_ofNat_of_lt' fits
    have below : UInt64.ofNat n < 0xFFFFFFFF ↔ n < maxLength := by
      rw [UInt64.lt_iff_toNat_lt, same]
      rfl
    rw [if_pos fits, Option.filter_some, Option.filter_some]
    by_cases index : n < maxLength
    · have narrow : (UInt64.ofNat n).toUInt32.toNat = n := by
        rw [UInt64.toNat_toUInt32, same]
        omega
      rw [if_pos (decide_eq_true index), if_pos (decide_eq_true (below.2 index)), Option.map_some,
        Option.map_some, narrow]
    · rw [if_neg (by simpa using index), if_neg (by simpa [below] using index)]
      rfl
  · rw [if_neg fits, Option.filter_some, if_neg (by simp; omega)]
    rfl

theorem arrayIndex?_eq_map_word (key : String) :
    arrayIndex? key = (arrayIndexWord? key).map UInt32.toNat := by
  unfold arrayIndex? Text.readDecimal? arrayIndexWord?
  cases key.toList with
  | nil => rfl
  | cons first rest =>
    dsimp only
    split
    · rfl
    · rw [Text.wordOfDigits?_eq]
      exact filter_eq_map_word _

theorem arrayIndex?_of_word {w : UInt32} (read : arrayIndexWord? key = some w) :
    arrayIndex? key = some w.toNat := by
  rw [arrayIndex?_eq_map_word, read, Option.map_some]

/-- There is a word behind every index. -/
theorem toNat_succ_of_arrayIndexWord? {w : UInt32} (read : arrayIndexWord? key = some w) :
    (w + 1).toNat = w.toNat + 1 := by
  have below : w.toNat < 4294967295 := arrayIndex?_lt (arrayIndex?_of_word read)
  rw [UInt32.toNat_add]
  exact Nat.mod_eq_of_lt (by simpa using Nat.succ_lt_succ below)

/-! ## Lengths -/

/-- What an array counts in words of 32 bits is what it should be. Its `length` is the same as a
word. An element that comes to it, by a definition that is not refused or put in place by a host,
leaves the `length` at least the word behind the index; and a `length` that is given and not refused
is a word, which the array has for `length` then. -/
structure CountsInWords (o : Object) : Prop where
  stored : ∃ (w : UInt32) (writable : Bool), o.length = w.toNat ∧
    o.property? "length" = some (.data (.number (.integer w.toNat)) writable false false)
  defined : ∀ key w, arrayIndexWord? key = some w → ∀ d,
    (o.define key d).1.length =
      if (o.define key d).2 then max o.length (w + 1).toNat else o.length
  inserted : ∀ key w, arrayIndexWord? key = some w → ∀ p,
    (o.insert key p).length = max o.length (w + 1).toNat
  given : ∀ d, (o.define "length" d).2 = true → ∀ value ∈ d.value,
    ∃ w : UInt32, lengthOf? value = some w.toNat ∧ (o.define "length" d).1.length = w.toNat

variable {o : Object} {n : Nat} {writable : Bool}

/-- The `length` behind a definition of an element. -/
theorem Measured.length_define (m : o.Measured n writable) (array : o.kind.isArray = true)
    (read : arrayIndex? key = some index) (d : Descriptor) :
    (o.define key d).1.length = if (o.define key d).2 then max n (index + 1) else n := by
  have other := ne_length_of_arrayIndex? read
  have element : o.define key d = o.defineElement index key d := by
    simp [Object.define, array, other, read]
  rw [element]
  unfold Object.defineElement
  rw [m.length_eq]
  split
  next past =>
    split
    · exact m.length_eq
    · split
      next o' defined =>
        obtain ⟨p, rfl, -⟩ := defineOrdinary?_eq_some_iff.1 defined
        rw [(m.put_withLength p read past).length_eq, if_pos rfl]
        omega
      · exact m.length_eq
  next inside =>
    cases defined : o.defineOrdinary? key d with
    | none => exact m.length_eq
    | some o' =>
      have same := m.defineOrdinary? other (fun index' eq => by rw [read] at eq; cases eq; omega)
        defined
      rw [orRefused, same.length_eq, if_pos rfl]
      omega

/-- The `length` behind an element that was put in place. -/
theorem Measured.length_insert (m : o.Measured n writable) (array : o.kind.isArray = true)
    (read : arrayIndex? key = some index) (p : Property) :
    (o.insert key p).length = max n (index + 1) := by
  simp only [Object.insert, read, array, m.length_eq, Bool.true_and, decide_eq_true_eq]
  split
  next past =>
    rw [(m.withLength_put p read past).length_eq]
    omega
  next inside =>
    have same := m.put p (ne_length_of_arrayIndex? read)
      fun index' eq => by rw [read] at eq; cases eq; omega
    rw [same.length_eq]
    omega

/-- The `length` behind a definition of the `length` itself. -/
theorem Measured.length_define_length (m : o.Measured n writable) (array : o.kind.isArray = true)
    {d : Descriptor} (success : (o.define "length" d).2 = true) {value : Value}
    (given : value ∈ d.value) :
    lengthOf? value = some (o.define "length" d).1.length ∧
      (o.define "length" d).1.length ≤ maxLength := by
  have own : o.define "length" d = o.defineLength d := by simp [Object.define, array]
  rw [own] at success ⊢
  obtain ⟨n', writable', m', reads⟩ := m.defineLength d
  rw [m'.length_eq]
  exact ⟨reads success value given, m'.bound⟩

theorem toNat_ofNat_of_le_maxLength (bound : n ≤ maxLength) : (UInt32.ofNat n).toNat = n :=
  UInt32.toNat_ofNat_of_lt' (Nat.lt_succ_of_le bound)

theorem WellFormed.countsInWords (wellFormed : o.WellFormed) (array : o.kind.isArray = true) :
    o.CountsInWords := by
  obtain ⟨n, writable, m⟩ := (wellFormed_iff o).1 wellFormed array
  constructor
  · have same := toNat_ofNat_of_le_maxLength m.bound
    refine ⟨UInt32.ofNat n, writable, ?_, ?_⟩
    · rw [same, m.length_eq]
    · rw [same, m.length]
  · intro key w read d
    rw [m.length_define array (arrayIndex?_of_word read), m.length_eq,
      toNat_succ_of_arrayIndexWord? read]
  · intro key w read p
    rw [m.length_insert array (arrayIndex?_of_word read), m.length_eq,
      toNat_succ_of_arrayIndexWord? read]
  · intro d success value given
    obtain ⟨reads, bound⟩ := m.length_define_length array success given
    have same := toNat_ofNat_of_le_maxLength bound
    exact ⟨UInt32.ofNat _, by rw [same, reads], same.symm⟩

end Object

end ScriptEngine
