import ScriptEngine.Proofs.Number.Doubles
import ScriptEngine.Proofs.Text.Decimal

/-!
# The digits of whole numbers

A whole number that a double can tell from its neighbours is written with its decimal digits, by
way of the shortest digits of the double as well as directly. What reads back as the double lies
less than one away from it, so that of all whole numbers only the number itself does; a grid of tens,
hundreds and so on has it exactly if the number is a multiple, and the zeros that this grid leaves
out are filled in again. Main results: the digits (`writeDecimal_ofMagnitude`), and that a number
has the text of its double (`text_ofFloat`, `text_ofNat`).
-/
namespace ScriptEngine

namespace Number

open Shortest (Decimal)

/-- Zeros at the end that have been taken away can be put back. -/
theorem strip_append_zeros (digits : List Char) :
    (digits.reverse.dropWhile (· == '0')).reverse ++ List.replicate
      (digits.length - (digits.reverse.dropWhile (· == '0')).reverse.length) '0' = digits := by
  have parts := List.takeWhile_append_dropWhile (p := (· == '0')) (l := digits.reverse)
  have zeros : digits.reverse.takeWhile (· == '0') = List.replicate
      (digits.reverse.takeWhile (· == '0')).length '0' :=
    List.eq_replicate_of_mem fun c mem =>
      eq_of_beq (List.all_eq_true.1 List.all_takeWhile c mem)
  have length := congrArg List.length parts
  rw [List.length_append, List.length_reverse] at length
  have count : digits.length - (digits.reverse.dropWhile (· == '0')).reverse.length =
      (digits.reverse.takeWhile (· == '0')).length := by
    rw [List.length_reverse]
    omega
  rw [count, ← List.reverse_replicate, ← zeros, ← List.reverse_append, parts, List.reverse_reverse]

/-- A whole number is written with its digits, however many zeros are apart in the exponent. -/
theorem writeDecimal_whole {digits exponent : Nat} (positive : 0 < digits)
    (short : (Nat.toDigits 10 (digits * 10 ^ exponent)).length ≤ 21) :
    writeDecimal ⟨digits, exponent⟩ = Nat.toDigits 10 (digits * 10 ^ exponent) := by
  have whole := Text.toDigits_mul_pow positive exponent
  rw [whole, List.length_append, List.length_replicate] at short
  rw [whole]
  have strip := strip_append_zeros (Nat.toDigits 10 digits)
  unfold writeDecimal
  dsimp only
  generalize stripped : ((Nat.toDigits 10 digits).reverse.dropWhile (· == '0')).reverse = front
    at strip ⊢
  have length := congrArg List.length strip
  rw [List.length_append, List.length_replicate] at length
  have some : 0 < (Nat.toDigits 10 digits).length := Nat.length_toDigits_pos
  have zeros : ((Nat.toDigits 10 digits).length + exponent - front.length : Int).toNat =
      (Nat.toDigits 10 digits).length - front.length + exponent := by omega
  rw [if_pos (by omega), positional, if_neg (by omega), if_pos (by omega), zeros,
    ← List.replicate_append_replicate, ← List.append_assoc, strip]

end Number

namespace Shortest

open Binary64 (Magnitude)

namespace Interval

/-- Of the whole numbers only `n` lies in the interval, and inside of it. -/
structure Whole (i : Interval) (n : Nat) : Prop where
  denominator : 0 < i.denominator
  value : i.value = n * i.denominator
  low : i.low < i.value
  high : i.value < i.high
  below : i.value < i.low + i.denominator
  above : i.high < i.value + i.denominator

namespace Whole

variable {i : Interval} {n : Nat} (whole : i.Whole n)

include whole

theorem contains_iff (digits exponent : Nat) :
    i.contains ⟨digits, exponent⟩ = true ↔ digits * 10 ^ exponent = n := by
  have scale : (-(exponent : Int)).toNat = 0 := by omega
  have unfolded : i.contains ⟨digits, exponent⟩ =
      if i.closed then i.low ≤ digits * 10 ^ exponent * i.denominator &&
        digits * 10 ^ exponent * i.denominator ≤ i.high
      else i.low < digits * 10 ^ exponent * i.denominator &&
        digits * 10 ^ exponent * i.denominator < i.high := by
    simp only [contains, scale, Int.toNat_natCast, Nat.pow_eq, Nat.pow_zero, Nat.mul_one]
  rw [unfolded]
  generalize digits * 10 ^ exponent = number
  obtain ⟨positive, value, low, high, below, above⟩ := whole
  constructor
  · intro inside
    have between : i.low ≤ number * i.denominator ∧ number * i.denominator ≤ i.high := by
      split at inside <;> simp only [Bool.and_eq_true, decide_eq_true_eq] at inside <;> omega
    -- Less than one step away from a whole number there is no other one.
    have least : n * i.denominator < (number + 1) * i.denominator := by
      rw [Nat.add_mul, Nat.one_mul]
      omega
    have most : number * i.denominator < (n + 1) * i.denominator := by
      rw [Nat.add_mul, Nat.one_mul]
      omega
    have least := Nat.lt_of_mul_lt_mul_right least
    have most := Nat.lt_of_mul_lt_mul_right most
    omega
  · rintro rfl
    split <;> simp only [Bool.and_eq_true, decide_eq_true_eq] <;> omega

/-- A grid has the number if it is a multiple of the step. -/
theorem onGrid?_eq (exponent : Nat) :
    i.onGrid? exponent = if 10 ^ exponent ∣ n then some ⟨n / 10 ^ exponent, exponent⟩ else none := by
  have scale : (-(exponent : Int)).toNat = 0 := by omega
  have step : 0 < 10 ^ exponent := Nat.pow_pos (by decide)
  have lower : i.value / (i.denominator * 10 ^ exponent) = n / 10 ^ exponent := by
    rw [whole.value, Nat.mul_comm, Nat.mul_div_mul_left _ _ whole.denominator]
  have upper : i.contains ⟨n / 10 ^ exponent + 1, exponent⟩ = false := by
    rw [← Bool.not_eq_true, whole.contains_iff]
    exact Nat.ne_of_gt (Nat.lt_mul_of_div_lt (Nat.lt_succ_self _) step)
  simp only [onGrid?, scale, Int.toNat_natCast, Nat.pow_eq, Nat.pow_zero, Nat.mul_one, lower, upper]
  by_cases multiple : 10 ^ exponent ∣ n
  · rw [(whole.contains_iff _ _).2 (Nat.div_mul_cancel multiple), if_pos multiple]
  · have absent : i.contains ⟨n / 10 ^ exponent, exponent⟩ = false := by
      rw [← Bool.not_eq_true, whole.contains_iff]
      exact fun same => multiple ⟨_, (Nat.mul_comm _ _).trans same |>.symm⟩
    rw [absent, if_neg multiple]

/-- The search ends at the grid of ones, if not before. -/
theorem search_eq {position attempts count : Nat} (rest : count ≤ position)
    (enough : position < attempts + count) :
    ∃ digits exponent : Nat, i.search position attempts count = ⟨digits, exponent⟩ ∧
      digits * 10 ^ exponent = n := by
  induction attempts generalizing count with
  | zero => omega
  | succ attempts ih =>
    have grid : (position : Int) - count = (position - count : Nat) := by omega
    rw [search, grid, whole.onGrid?_eq]
    split
    next multiple => exact ⟨_, _, rfl, Nat.div_mul_cancel multiple⟩
    next other =>
      have more : count ≠ position := by
        rintro rfl
        rw [Nat.sub_self, Nat.pow_zero] at other
        exact other (Nat.one_dvd n)
      exact ih (by omega) (by omega)

theorem pointPosition_eq (positive : 0 < n) :
    i.pointPosition = (Nat.toDigits 10 n).length := by
  have large : i.denominator ≤ i.value := whole.value ▸ Nat.le_mul_of_pos_left _ positive
  rw [pointPosition, if_pos large, whole.value, Nat.mul_div_cancel _ whole.denominator]

end Whole

/-- A double that is a whole number: what reads back as it lies at most half a step of its last bit
away, and its steps are no larger than one. -/
theorem whole_ofMagnitude {m n places : Nat} (value : m = n * 2 ^ places) (positive : 0 < m) :
    (ofMagnitude ⟨m, -(places : Int)⟩).Whole n := by
  have scale : (-(places : Int) - 2).toNat = 0 := by omega
  have denominator : (2 - -(places : Int)).toNat = places + 2 := by omega
  have steps : 2 ^ (places + 2) = 4 * 2 ^ places := by rw [Nat.pow_add, Nat.mul_comm]
  have step := Nat.two_pow_pos places
  constructor <;>
    simp only [ofMagnitude, scale, denominator, steps, Nat.pow_eq, Nat.pow_zero, Nat.mul_one, value,
      Nat.mul_left_comm n] <;>
    (try split) <;>
    omega

end Interval

theorem ofMagnitude_whole {m n places : Nat} (value : m = n * 2 ^ places) (positive : 0 < n)
    (short : (Nat.toDigits 10 n).length ≤ 17) :
    ∃ digits exponent : Nat, ofMagnitude ⟨m, -(places : Int)⟩ = ⟨digits, exponent⟩ ∧
      digits * 10 ^ exponent = n := by
  have whole := Interval.whole_ofMagnitude value
    (value ▸ Nat.mul_pos positive (Nat.two_pow_pos places))
  rw [ofMagnitude, whole.pointPosition_eq positive]
  have some : 0 < (Nat.toDigits 10 n).length := Nat.length_toDigits_pos
  exact whole.search_eq some (by omega)

end Shortest

namespace Number

open Binary64

theorem isIntegral_iff (a : Magnitude) :
    a.isIntegral = true ↔ 0 ≤ a.exponent ∨ 2 ^ (-a.exponent).toNat ∣ a.mantissa := by
  simp only [Magnitude.isIntegral, Bool.or_eq_true, decide_eq_true_eq, Nat.dvd_iff_mod_eq_zero,
    Nat.pow_eq]

/-- The mantissa of a double has 53 bits, unless it is too small to be a whole number. -/
theorem normal_of_magnitude? {x : Float} {a : Magnitude} (magnitude : magnitude? x = some a)
    (integral : a.isIntegral = true) (nonzero : a.mantissa ≠ 0) : 2 ^ 52 ≤ a.mantissa := by
  unfold magnitude? at magnitude
  dsimp only at magnitude
  split at magnitude
  · cases magnitude
  split at magnitude
  · cases magnitude
    have below : ¬ (0 : Int) ≤ -1074 := by decide
    have divides := ((isIntegral_iff _).1 integral).resolve_left below
    have small : x.toBits.toNat % Nat.pow 2 52 < 2 ^ 52 := Nat.mod_lt _ (by decide)
    have large := Nat.le_of_dvd (Nat.pos_of_ne_zero nonzero) divides
    have power : 2 ^ 52 ≤ 2 ^ (-(-1074) : Int).toNat := Nat.pow_le_pow_right (by decide) (by decide)
    exact absurd (Nat.le_trans power large) (Nat.not_le.2 small)
  · cases magnitude
    exact Nat.le_add_left _ _

/-- The magnitude of a double that is a whole number, in the range where integers are exact. -/
theorem magnitude_whole {x : Float} {a : Magnitude} (magnitude : magnitude? x = some a)
    (integral : a.isIntegral = true) (safe : a.floor ≤ maxSafe) (nonzero : a.mantissa ≠ 0) :
    ∃ places : Nat, a.exponent = -(places : Int) ∧ a.mantissa = a.floor * 2 ^ places := by
  have normal := normal_of_magnitude? magnitude integral nonzero
  by_cases whole : 0 ≤ a.exponent
  · have floor : a.floor = a.mantissa * 2 ^ a.exponent.toNat := if_pos whole
    rw [floor] at safe ⊢
    -- With a larger exponent the number would be past the range.
    cases exponent : a.exponent.toNat with
    | zero => exact ⟨0, by omega, by simp only [Nat.pow_zero, Nat.mul_one]⟩
    | succ more =>
      rw [exponent, Nat.pow_succ, ← Nat.mul_assoc] at safe
      have grown : a.mantissa ≤ a.mantissa * 2 ^ more := Nat.le_mul_of_pos_right _ (Nat.two_pow_pos _)
      have bound : maxSafe < 2 ^ 52 * 2 := by decide
      omega
  · have divides := ((isIntegral_iff a).1 integral).resolve_left whole
    have floor : a.floor = a.mantissa / 2 ^ (-a.exponent).toNat := if_neg whole
    rw [floor]
    exact ⟨(-a.exponent).toNat, by omega, (Nat.div_mul_cancel divides).symm⟩

/-- The shortest digits of such a double are the decimal digits of the number. -/
theorem writeDecimal_ofMagnitude {x : Float} {a : Magnitude} (magnitude : magnitude? x = some a)
    (integral : a.isIntegral = true) (safe : a.floor ≤ maxSafe) (nonzero : a.mantissa ≠ 0) :
    0 < a.floor ∧ writeDecimal (Shortest.ofMagnitude a) = Nat.toDigits 10 a.floor := by
  obtain ⟨places, exponent, mantissa⟩ := magnitude_whole magnitude integral safe nonzero
  have positive : 0 < a.floor := by
    refine Nat.pos_of_ne_zero fun zero => nonzero ?_
    rw [mantissa, zero, Nat.zero_mul]
  have short : (Nat.toDigits 10 a.floor).length ≤ 17 := by
    rw [Nat.length_toDigits_le_iff (by decide) (by decide)]
    exact Nat.lt_of_le_of_lt safe (by decide)
  obtain ⟨digits, exponent', shortest, value⟩ :=
    Shortest.ofMagnitude_whole mantissa positive short
  have same : a = ⟨a.mantissa, -(places : Int)⟩ := by rw [← exponent]
  have some : 0 < digits := by
    refine Nat.pos_of_ne_zero fun zero => Nat.ne_of_gt positive ?_
    rw [← value, zero, Nat.zero_mul]
  refine ⟨positive, ?_⟩
  rw [same, shortest, ← same, ← value]
  exact writeDecimal_whole some (value ▸ Nat.le_trans short (by decide))

/-- An integer in the range where integers are exact is written with its decimal digits. -/
theorem floatText_of_safeInteger? {x : Float} {n : Int} (safe : safeInteger? x = some n) :
    floatText x = Text.signedDecimal n := by
  unfold safeInteger? at safe
  split at safe
  · cases safe
  next a magnitude =>
    simp only [Option.ite_none_right_eq_some, Option.some.injEq, Bool.and_eq_true,
      decide_eq_true_eq] at safe
    obtain ⟨⟨⟨integral, small⟩, -⟩, rfl⟩ := safe
    rw [floatText, magnitude]
    dsimp only
    split
    next zero =>
      have floor : a.floor = 0 := by simp [Magnitude.floor, zero]
      rw [floor]
      split <;> rfl
    next nonzero =>
      obtain ⟨positive, digits⟩ := writeDecimal_ofMagnitude magnitude integral small nonzero
      rw [digits]
      split
      · obtain ⟨n, floor⟩ := Nat.exists_eq_add_one_of_ne_zero (Nat.ne_of_gt positive)
        rw [floor]
        exact (String.ofList_append : String.ofList (['-'] ++ Nat.toDigits 10 (n + 1)) = _)
      · rfl

/-- A number has the text of its double. -/
theorem text_ofFloat (x : Float) : (ofFloat x).text = floatText x := by
  unfold ofFloat
  cases safe : safeInteger? x with
  | some n => exact (floatText_of_safeInteger? safe).symm
  | none =>
    dsimp only
    cases magnitude : magnitude? x with
    | some a =>
      obtain ⟨notNaN, notInf⟩ := finite_of_magnitude? magnitude
      rw [notNaN, notInf]
      rfl
    | none =>
      have special : floatText x =
          if x.isNaN then "NaN" else if Binary64.isNegative x then "-Infinity" else "Infinity" := by
        rw [floatText, magnitude]
      rw [special]
      split
      · rfl
      · split
        · split <;> rfl
        next notNaN _ =>
          rw [text, special, if_neg notNaN]

theorem text_ofNat (n : Nat) : (ofNat n).text = floatText (Float.ofNat n) := by
  unfold ofNat ofInt
  split
  next safe => exact (floatText_of_safeInteger? (safeInteger?_ofNat safe)).symm
  · exact text_ofFloat _

end Number

end ScriptEngine
