import Mathlib.Data.List.Lex
import ScriptEngine.Text.Units
import ScriptEngine.Tree.Literal

/-!
# The units of texts

Strings are stored as characters and put in order by their code units. That this order tells any two
of them apart rests on the units of a text being those of no other text (`units_injective`): the
unit of a character of the basic plane is no surrogate, so the first unit of a character shows
whether there is a second one, and the units give the code point back.

The order itself is the lexicographic one on sequences of units (`less_iff_lt`).
-/
namespace ScriptEngine.Text

open Literal (isHighSurrogate isLowSurrogate)

variable {c : Char} {code high low : Nat}

/-! ## Characters -/

/-- The unit of a character of the basic plane is its code point, which is no surrogate. -/
theorem charUnits_single (units : charUnits c = [code]) :
    code = c.toNat ∧ isHighSurrogate code = false := by
  have same : code = c.toNat := by
    simp only [charUnits] at units
    split at units
    · simpa using units.symm
    · simp at units
  refine ⟨same, ?_⟩
  -- Surrogates are the gap in the range of characters.
  have valid : c.toNat < 0xD800 ∨ 0xDFFF < c.toNat ∧ c.toNat < 0x110000 := c.valid
  simp only [isHighSurrogate, same, Bool.and_eq_false_iff, decide_eq_false_iff_not]
  omega

/-- The two units of any other character are a high and a low surrogate, and their ten bits each
give the code point back. -/
theorem charUnits_pair (units : charUnits c = [high, low]) :
    isHighSurrogate high = true ∧ isLowSurrogate low = true ∧
      0x10000 + (high - 0xD800) * 0x400 + (low - 0xDC00) = c.toNat := by
  have valid : c.toNat < 0xD800 ∨ 0xDFFF < c.toNat ∧ c.toNat < 0x110000 := c.valid
  simp only [charUnits] at units
  split at units
  · simp at units
  next beyond =>
    simp only [List.cons.injEq, and_true] at units
    obtain ⟨rfl, rfl⟩ := units
    simp only [isHighSurrogate, isLowSurrogate, Bool.and_eq_true, decide_eq_true_eq]
    omega

theorem charUnits_cases (c : Char) :
    (∃ code, charUnits c = [code]) ∨ ∃ high low, charUnits c = [high, low] := by
  simp only [charUnits]
  split
  · exact .inl ⟨_, rfl⟩
  · exact .inr ⟨_, _, rfl⟩

/-- The first unit of a character shows whether there is a second one. -/
theorem ne_of_single_of_pair {d : Char} (single : charUnits c = [code])
    (pair : charUnits d = [high, low]) : code ≠ high := by
  rintro rfl
  have surrogate := (charUnits_pair pair).1
  rw [(charUnits_single single).2] at surrogate
  cases surrogate

/-- The units of a character do not begin those of another one, whatever follows. -/
theorem charUnits_append_inj {c d : Char} {as bs : List Nat}
    (same : charUnits c ++ as = charUnits d ++ bs) : c = d ∧ as = bs := by
  rcases charUnits_cases c with ⟨code, left⟩ | ⟨high, low, left⟩ <;>
    rcases charUnits_cases d with ⟨code', right⟩ | ⟨high', low', right⟩ <;>
    rw [left, right] at same <;>
    simp only [List.cons_append, List.nil_append, List.cons.injEq] at same
  · obtain ⟨rfl, rest⟩ := same
    have points := (charUnits_single left).1.symm.trans (charUnits_single right).1
    exact ⟨Char.toNat_inj.1 points, rest⟩
  · exact absurd same.1 (ne_of_single_of_pair left right)
  · exact absurd same.1.symm (ne_of_single_of_pair right left)
  · obtain ⟨rfl, rfl, rest⟩ := same
    have points := (charUnits_pair left).2.2.symm.trans (charUnits_pair right).2.2
    exact ⟨Char.toNat_inj.1 points, rest⟩

theorem charUnits_ne_nil (c : Char) : charUnits c ≠ [] := by
  rcases charUnits_cases c with ⟨code, eq⟩ | ⟨high, low, eq⟩ <;> rw [eq] <;> nofun

/-! ## Texts -/

theorem flatMap_charUnits_injective {chars others : List Char}
    (same : chars.flatMap charUnits = others.flatMap charUnits) : chars = others := by
  induction chars generalizing others with
  | nil =>
    cases others with
    | nil => rfl
    | cons d rest =>
      rw [List.flatMap_cons] at same
      exact absurd (List.append_eq_nil_iff.1 same.symm).1 (charUnits_ne_nil d)
  | cons c rest ih =>
    cases others with
    | nil =>
      rw [List.flatMap_cons] at same
      exact absurd (List.append_eq_nil_iff.1 same).1 (charUnits_ne_nil c)
    | cons d rest' =>
      rw [List.flatMap_cons, List.flatMap_cons] at same
      obtain ⟨rfl, later⟩ := charUnits_append_inj same
      rw [ih later]

/-- Texts with the same units are the same. -/
theorem units_injective : Function.Injective units := fun _ _ same =>
  String.toList_injective (flatMap_charUnits_injective same)

theorem units_eq_nil_iff {text : String} : units text = [] ↔ text = "" :=
  ⟨fun none => units_injective none, fun empty => empty ▸ rfl⟩

/-! ## Lengths -/

theorem length_charUnits (c : Char) :
    (charUnits c).length = if c.toNat < 0x10000 then 1 else 2 := by
  simp only [charUnits]
  split <;> rfl

/-- The length of a text is the number of its units. -/
theorem unitLength_eq_length (text : String) : unitLength text = (units text).length := by
  have counted : ∀ (chars : List Char) (start : Nat),
      chars.foldl (fun count c => count + (if c.toNat < 0x10000 then 1 else 2)) start =
        start + (chars.flatMap charUnits).length := by
    intro chars
    induction chars with
    | nil => exact fun _ => rfl
    | cons c rest ih =>
      intro start
      rw [List.foldl_cons, ih, List.flatMap_cons, List.length_append, length_charUnits,
        Nat.add_assoc]
  rw [unitLength, counted, Nat.zero_add, units]

theorem isSome_unitAt? (text : String) (i : Nat) :
    (unitAt? text i).isSome = true ↔ i < unitLength text := by
  rw [unitAt?, Option.isSome_map, unitLength_eq_length, Option.isSome_iff_exists]
  constructor
  · rintro ⟨unit, there⟩
    exact (List.getElem?_eq_some_iff.1 there).1
  · exact fun below => ⟨_, List.getElem?_eq_getElem below⟩

/-! ## The order -/

theorem unitsLess_iff_lt {as bs : List Nat} : unitsLess as bs = true ↔ as < bs := by
  induction as generalizing bs with
  | nil => cases bs <;> simp [unitsLess]
  | cons a as ih =>
    cases bs with
    | nil => simp [unitsLess]
    | cons b bs =>
      rw [unitsLess, List.cons_lt_cons_iff]
      split
      next same =>
        rw [ih, same]
        simp
      next differ => simp [differ]

/-- The order of strings is the lexicographic one on their units. -/
theorem less_iff_lt {left right : String} : less left right = true ↔ units left < units right :=
  unitsLess_iff_lt

theorem less_eq_decide (left right : String) :
    less left right = decide (units left < units right) := by
  rw [Bool.eq_iff_iff, less_iff_lt, decide_eq_true_iff]

/-- Equality can be read off the units as well. -/
theorem beq_eq_decide (left right : String) :
    (left == right) = decide (units left = units right) := by
  rw [Bool.eq_iff_iff, beq_iff_eq, decide_eq_true_iff, units_injective.eq_iff]

end ScriptEngine.Text
