import Mathlib.Algebra.Group.Nat.Defs
import ScriptEngine.Text.Digit

/-!
# Decimal texts

The text that a number is read from is the one that it is written as: a decimal text counts only if
it has no sign and no leading zero, which is what `Nat.toDigits` writes
(`readDecimal?_eq_some_iff`).
-/
namespace ScriptEngine.Text

theorem digitValue_lt {c : Char} (digit : c.isDigit = true) : digitValue c < 10 := by
  have range : c.toNat ≤ 57 := by
    simp only [Char.isDigit, Bool.and_eq_true, decide_eq_true_eq, UInt32.le_iff_toNat_le] at digit
    exact digit.2
  rw [digitValue, if_pos digit]
  change c.toNat - 48 < 10
  omega

theorem digitChar_digitValue {c : Char} (digit : c.isDigit = true) :
    (digitValue c).digitChar = c := by
  have low : 48 ≤ c.toNat := by
    simp only [Char.isDigit, Bool.and_eq_true, decide_eq_true_eq, UInt32.le_iff_toNat_le] at digit
    exact digit.1
  apply Char.toNat_inj.1
  rw [Nat.toNat_digitChar_of_lt_ten (digitValue_lt digit), digitValue, if_pos digit]
  change 48 + (c.toNat - 48) = c.toNat
  omega

/-- Digits that are read behind a number come after its own. -/
theorem toDigits_foldl {digits : List Char} (all : ∀ c ∈ digits, c.isDigit = true) {n : Nat}
    (positive : 0 < n) :
    Nat.toDigits 10 (digits.foldl (fun acc c => acc * 10 + digitValue c) n) =
      Nat.toDigits 10 n ++ digits := by
  induction digits generalizing n with
  | nil => exact (List.append_nil _).symm
  | cons c rest ih =>
    have digit := all c List.mem_cons_self
    have small := digitValue_lt digit
    have first : Nat.toDigits 10 (n * 10 + digitValue c) = Nat.toDigits 10 n ++ [c] := by
      rw [Nat.mul_comm, ← Nat.toDigits_append_toDigits (by decide) positive small,
        Nat.toDigits_of_lt_base small, digitChar_digitValue digit]
    rw [List.foldl_cons, ih (fun d mem => all d (List.mem_cons_of_mem c mem)) (by omega), first,
      List.append_assoc, List.singleton_append]

/-- Digits without a leading zero are the ones that their number is written with. -/
theorem toDigits_ofDigits {c : Char} {rest : List Char}
    (all : ∀ d ∈ c :: rest, d.isDigit = true) (canonical : c = '0' → rest = []) :
    Nat.toDigits 10 (ofDigits (c :: rest)) = c :: rest := by
  have digit := all c List.mem_cons_self
  have single : Nat.toDigits 10 (digitValue c) = [c] := by
    rw [Nat.toDigits_of_lt_base (digitValue_lt digit), digitChar_digitValue digit]
  rw [ofDigits, List.foldl_cons, Nat.zero_mul, Nat.zero_add]
  by_cases zero : digitValue c = 0
  · have : c = '0' := by rw [← digitChar_digitValue digit, zero]; rfl
    rw [canonical this]
    exact single
  · rw [toDigits_foldl (fun d mem => all d (List.mem_cons_of_mem c mem)) (by omega), single,
      List.singleton_append]

/-- A multiple of a power of ten is written with zeros at its end. -/
theorem toDigits_mul_pow {n : Nat} (positive : 0 < n) (zeros : Nat) :
    Nat.toDigits 10 (n * 10 ^ zeros) = Nat.toDigits 10 n ++ List.replicate zeros '0' := by
  induction zeros with
  | zero => rw [Nat.pow_zero, Nat.mul_one, List.replicate_zero, List.append_nil]
  | succ zeros ih =>
    have more : 0 < n * 10 ^ zeros := Nat.mul_pos positive (Nat.pow_pos (by decide))
    have last : Nat.toDigits 10 (10 * (n * 10 ^ zeros)) = Nat.toDigits 10 (n * 10 ^ zeros) ++ ['0'] :=
      (Nat.toDigits_append_toDigits (b := 10) (d := 0) (by decide) more (by decide)).symm
    rw [Nat.pow_succ, ← Nat.mul_assoc, Nat.mul_comm _ 10, last, ih, List.append_assoc,
      ← List.replicate_succ']

/-- The first of several digits of a number is not zero. -/
theorem toDigits_ne_zero_cons {n : Nat} {rest : List Char} (more : rest ≠ []) :
    Nat.toDigits 10 n ≠ '0' :: rest := by
  induction n using Nat.strongRecOn generalizing rest with
  | ind n ih =>
    intro digits
    by_cases small : n < 10
    · rw [Nat.toDigits_of_lt_base small, List.cons.injEq] at digits
      exact more digits.2.symm
    · rw [Nat.toDigits_of_base_le (by decide) (by omega)] at digits
      -- The digits before the last one are those of a number that is not zero.
      cases front : Nat.toDigits 10 (n / 10) with
      | nil => exact Nat.toDigits_ne_nil front
      | cons c others =>
        rw [front, List.cons_append, List.cons.injEq] at digits
        rw [digits.1] at front
        cases others with
        | nil =>
          have : n / 10 = 0 := by
            have value := congrArg ofDigits front
            rwa [ofDigits_toDigits] at value
          omega
        | cons d others => exact ih (n / 10) (by omega) (List.cons_ne_nil d others) front

/-- A number is read from the text that it is written as, and from no other text. -/
theorem readDecimal?_eq_some_iff {key : String} {n : Nat} :
    readDecimal? key = some n ↔ key = decimal n := by
  rw [decimal, ← String.toList_inj, String.toList_ofList]
  unfold readDecimal?
  cases key.toList with
  | nil => exact ⟨nofun, fun digits => absurd digits.symm Nat.toDigits_ne_nil⟩
  | cons c rest =>
    simp only [Option.ite_none_left_eq_some, Option.some.injEq, Bool.or_eq_true, Bool.and_eq_true,
      beq_iff_eq, Bool.not_eq_true', List.isEmpty_eq_false_iff, not_or, not_and, ne_eq,
      Classical.not_not, Bool.not_eq_false, List.all_eq_true]
    constructor
    · rintro ⟨⟨canonical, all⟩, rfl⟩
      exact (toDigits_ofDigits all canonical).symm
    · intro digits
      refine ⟨⟨fun zero => ?_, fun d mem => ?_⟩, ?_⟩
      · exact Classical.byContradiction fun more =>
          toDigits_ne_zero_cons more (zero ▸ digits.symm)
      · exact Nat.isDigit_of_mem_toDigits (by decide) (by decide) (digits ▸ mem)
      · rw [digits, ofDigits_toDigits]

/-- What is not read as a number is not what a number is written as. -/
theorem decimal_ne {name : String} (text : readDecimal? name = none) (n : Nat) :
    decimal n ≠ name := by
  rintro rfl
  cases (readDecimal?_eq_some_iff.2 rfl).symm.trans text

end ScriptEngine.Text
