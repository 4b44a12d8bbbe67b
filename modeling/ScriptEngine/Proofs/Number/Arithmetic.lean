import Mathlib
import ScriptEngine.Proofs.Number.Nearest

/-!
# Arithmetic on doubles

What the operations give on doubles that are not negative: of the exact sum, product or quotient of
two doubles, the nearest double (`Exact.add`, `Exact.mul`, `Exact.div`). A decimal number `m` with
an exponent becomes its nearest double as well (`nearest_ofScientific`), for every `m` and every
exponent, and so does a natural number (`nearest_ofNat`). From `2 ^ 53` on that is another number;
but what is read back up to a bound below is the natural number all the same
(`Number.clampNat_ofNat`).
-/
namespace ScriptEngine

namespace Binary64

open Float.Model (Format UnpackedFloat totalExponent)
open Float.Model.UnpackedFloat

variable {p q : ℚ} {x y : Float} {a b : Magnitude} {m n : Nat} {e t : Int}

/-! ### Doubles that are exact -/

/-- The double is just that number. -/
def Exact (x : Float) (q : ℚ) : Prop := ∃ a, Holds x a ∧ a.value = q

theorem Magnitude.Fits.value_lt (fits : a.Fits) : a.value < limit := by
  have mantissa : ((a.mantissa + 1 : Nat) : ℚ) ≤ ((2 ^ 53 : Nat) : ℚ) := by
    exact_mod_cast fits.small
  push_cast at mantissa
  have steps : (2 : ℚ) ^ a.exponent ≤ 2 ^ (971 : Int) :=
    zpow_le_zpow_right₀ (by norm_num) fits.most
  calc a.value ≤ a.mantissa * 2 ^ (971 : Int) :=
        mul_le_mul_of_nonneg_left steps (Nat.cast_nonneg _)
    _ < limit := mul_lt_mul_of_pos_right (by linarith) (two_zpow_pos _)

namespace Exact

theorem of_fits (fits : a.Fits) : Exact (packed (unpacked a)) a.value :=
  ⟨a, (packed_unpacked fits).1, rfl⟩

theorem nearest (exact : Exact x q) : Nearest q x := by
  obtain ⟨a, holds, rfl⟩ := exact
  refine ⟨a.value_nonneg, holds.sign, (finite_of_magnitude? holds.magnitude).1,
    fun c magnitude => ?_, fun none => ?_⟩
  · obtain rfl : a = c := Option.some.inj (holds.magnitude.symm.trans magnitude)
    refine ⟨holds.fits.value_lt, fun y b magnitude' => ?_⟩
    rw [sub_self, abs_zero]
    refine ⟨abs_nonneg _, fun other tie => absurd ?_ other⟩
    have same : b.value = a.value := (sub_eq_zero.mp (abs_eq_zero.mp tie.symm)).symm
    exact (fits_of_magnitude? magnitude').toCanonical.eq_of_value holds.fits.toCanonical same
  · rw [holds.magnitude] at none
    cases none

theorem zero : Exact 0.0 0 :=
  ⟨⟨0, -1074⟩, ⟨rfl, rfl⟩, by simp [Magnitude.value]⟩

theorem sixteen : Exact 16.0 16 :=
  ⟨⟨2 ^ 52, -48⟩, ⟨rfl, rfl⟩, by norm_num [Magnitude.value]⟩

end Exact

namespace Nearest

/-- What is near a number that is a double is that double. -/
theorem exact (nearest : Nearest a.value x) (fits : a.Fits) : Exact x a.value := by
  have other := Exact.of_fits fits
  rwa [nearest.unique other.nearest]

theorem exact_or_infinity (nearest : Nearest q x) : (∃ p, Exact x p) ∨ x = infinity := by
  cases magnitude : magnitude? x with
  | none => exact .inr (eq_infinity nearest.sign nearest.number magnitude)
  | some a => exact .inl ⟨a.value, a, ⟨nearest.sign, magnitude⟩, rfl⟩

/-- Numbers that are at most half of the smallest double are rounded down to zero. -/
theorem zero (nonneg : 0 ≤ q) (small : q ≤ 2 ^ (-1075 : Int)) : Nearest q 0.0 := by
  have half : q / 2 ^ (-1074 : Int) ≤ 1 / 2 := by
    have twice : (2 : ℚ) ^ (-1074 : Int) = 2 ^ (-1075 : Int) * 2 :=
      zpow_add_one₀ (by norm_num) (-1075)
    have positive := two_zpow_pos (-1075)
    rw [twice, div_le_iff₀ (by linarith)]
    linarith
  have rounds : Rounds q 0 (-1074) := by
    have above : 0 ≤ q / 2 ^ (-1074 : Int) := div_nonneg nonneg (two_zpow_pos _).le
    refine ⟨⟨nonneg, le_refl _, .inl rfl, by linarith⟩, ?_, fun _ => rfl⟩
    rw [Nat.cast_zero, sub_zero, abs_of_nonneg above]
    exact half
  exact rounds.nearest_packed

theorem infinity (large : limit ≤ q) : Nearest q infinity := by
  have nonneg : 0 ≤ q := le_trans (by unfold limit; positivity) large
  obtain ⟨r, t, rounds⟩ := exists_rounds nonneg
  have beyond : 971 < (carry r t).exponent := by
    rw [← not_le, ← rounds.lt_limit_iff]
    exact not_lt.mpr large
  rw [← packed_eq_infinity rounds.canonical_carry beyond]
  exact rounds.nearest_packed

end Nearest

/-! ### The ends of the operations -/

theorem nearest_roundWithAccuracy {accuracy : Accuracy} (nonneg : 0 ≤ q)
    (represents : Represents (.ofMantissaAndAccuracy m accuracy) (q / 2 ^ e))
    (enough : e ≤ Format.binary64.targetExponent (totalExponent m e)) :
    Nearest q (packed (roundWithAccuracy Format.binary64 .positive m e accuracy)) := by
  obtain ⟨r, t, rounds⟩ := exists_rounds nonneg
  rw [roundWithAccuracy_eq rounds represents enough]
  exact rounds.nearest_packed

/-- The exponent to which a mantissa is shifted. -/
theorem targetExponent_eq (m : Nat) (e : Int) :
    Format.binary64.targetExponent (totalExponent m e) = max ((m.log2 : Int) + e - 52) (-1074) := by
  simp only [Format.targetExponent, totalExponent, Format.mantissaBits, Format.minExponent]
  omega

/-- A product of mantissas has enough bits if one factor is a full mantissa. -/
theorem nearest_product (enough : 2 ^ 52 ≤ m ∨ e ≤ -1074) :
    Nearest (m * 2 ^ e) (packed (roundWithAccuracy Format.binary64 .positive m e .exact)) := by
  refine nearest_roundWithAccuracy (by positivity) ?_ ?_
  · rw [mul_div_cancel_right₀ _ (two_zpow_pos e).ne']
    exact .exact m
  · rw [targetExponent_eq]
    rcases enough with full | least
    · have : 52 ≤ m.log2 := (Nat.le_log2 (by omega)).mpr full
      omega
    · omega

theorem nearest_round (positive : 0 < m) (e : Int) :
    Nearest (m * 2 ^ e) (packed (round Format.binary64 .positive m e)) := by
  have filled : (decreaseExponent m e (Format.binary64.targetExponent (totalExponent m e))) =
      (m * 2 ^ (e - max ((m.log2 : Int) + e - 52) (-1074)).toNat,
        e - (e - max ((m.log2 : Int) + e - 52) (-1074)).toNat) := by
    rw [targetExponent_eq, decreaseExponent, Nat.shiftLeft_eq]
  rw [UnpackedFloat.round, filled]
  generalize places : (e - max ((m.log2 : Int) + e - 52) (-1074)).toNat = k
  have shifted : ((m * 2 ^ k : Nat) : ℚ) * 2 ^ (e - k) = m * 2 ^ e := by
    rw [zpow_sub₀ (by norm_num), zpow_natCast]
    push_cast
    field_simp
  rw [← shifted]
  apply nearest_product
  by_cases least : e - k ≤ -1074
  · exact .inr least
  · left
    have log : (m * 2 ^ k).log2 = m.log2 + k := log2_mul_two_pow positive k
    have some : m * 2 ^ k ≠ 0 := by positivity
    rw [← Nat.le_log2 some, log]
    omega

theorem nearest_normalize (m : Nat) (e : Int) :
    Nearest (m * 2 ^ e) (packed (normalize Format.binary64 m e .positive)) := by
  rcases Nat.eq_zero_or_pos m with rfl | positive
  · rw [Nat.cast_zero, zero_mul]
    exact Exact.zero.nearest
  · have above : compare (m : Int) 0 = .gt := by
      rw [Std.compare_eq_gt]
      omega
    rw [UnpackedFloat.normalize, above]
    exact nearest_round positive e

/-- The remainder of a division tells what is behind the mantissa. -/
theorem represents_fraction (positive : 0 < n) :
    Represents (.ofMantissaAndAccuracy (m / n) (accuracyOfFraction (m % n) n)) (m / n : ℚ) := by
  have positive' : (0 : ℚ) < n := by exact_mod_cast positive
  have split : (m / n : ℚ) = (m / n : Nat) + ((m % n : Nat) : ℚ) / n := by
    have : (m : ℚ) = n * (m / n : Nat) + (m % n : Nat) := by
      exact_mod_cast (Nat.div_add_mod m n).symm
    rw [div_eq_iff positive'.ne', add_mul, div_mul_cancel₀ _ positive'.ne', mul_comm]
    exact this
  have less : ((m % n : Nat) : ℚ) < n := by exact_mod_cast Nat.mod_lt m positive
  have next : ((m % n : Nat) : ℚ) / n < 1 := (div_lt_one positive').mpr less
  rw [split]
  unfold accuracyOfFraction
  split
  next exact =>
    rw [exact, Nat.cast_zero, zero_div, add_zero]
    exact .exact _
  next inexact =>
    have some : (0 : ℚ) < ((m % n : Nat) : ℚ) / n := by
      have : 0 < m % n := Nat.pos_of_ne_zero inexact
      positivity
    cases order : compare (2 * (m % n)) n with
    | lt =>
      have below : 2 * (m % n) < n := Std.compare_eq_lt.mp order
      have below : 2 * ((m % n : Nat) : ℚ) < n := by exact_mod_cast below
      have := (div_lt_iff₀ positive').mpr (show ((m % n : Nat) : ℚ) < 1 / 2 * n by linarith)
      constructor <;> simp only [ExtendedMantissa.ofMantissaAndAccuracy] <;> linarith
    | eq =>
      have middle : 2 * (m % n) = n := Nat.compare_eq_eq.mp order
      have middle : 2 * ((m % n : Nat) : ℚ) = n := by exact_mod_cast middle
      have := (div_eq_iff positive'.ne').mpr (show ((m % n : Nat) : ℚ) = 1 / 2 * n by linarith)
      simp only [Represents, ExtendedMantissa.ofMantissaAndAccuracy]
      linarith
    | gt =>
      have above : n < 2 * (m % n) := Std.compare_eq_gt.mp order
      have above : (n : ℚ) < 2 * ((m % n : Nat) : ℚ) := by exact_mod_cast above
      have := (lt_div_iff₀ positive').mpr (show 1 / 2 * (n : ℚ) < ((m % n : Nat) : ℚ) by linarith)
      constructor <;> simp only [ExtendedMantissa.ofMantissaAndAccuracy] <;> linarith

/-- A division comes out right, whatever the exponents are. -/
theorem nearest_quotient (some : 0 < m) (positive : 0 < n) (e t : Int) :
    Nearest (m * 2 ^ e / (n * 2 ^ t))
      (packed (div Format.binary64 (.finite .positive m e some) (.finite .positive n t positive))) := by
  have target : Format.binary64.targetExponent (totalExponent m e - totalExponent n t) =
      max ((m.log2 : Int) + e - (n.log2 + t) - 53) (-1074) := by
    simp only [Format.targetExponent, totalExponent, Format.mantissaBits, Format.minExponent]
    omega
  change Nearest _ (packed (roundWithAccuracy Format.binary64 .positive
    (divCore Format.binary64 m e n t).1 (divCore Format.binary64 m e n t).2.1
    (divCore Format.binary64 m e n t).2.2))
  simp only [divCore, target, Nat.shiftLeft_eq]
  generalize goal : min (e - t) (max ((m.log2 : Int) + e - (n.log2 + t) - 53) (-1074)) = g
  generalize places : (e - t - g).toNat = k
  have place : (k : Int) = e - t - g := by omega
  have shifted : (m * 2 ^ e / (n * 2 ^ t) : ℚ) / 2 ^ g = (m * 2 ^ k : Nat) / n := by
    have power : (2 : ℚ) ^ k * (2 ^ t * 2 ^ g) = 2 ^ e := by
      rw [← zpow_natCast, ← zpow_add₀ (by norm_num), ← zpow_add₀ (by norm_num)]
      congr 1
      omega
    have positive' : (0 : ℚ) < n := by exact_mod_cast positive
    have first := two_zpow_pos t
    have second := two_zpow_pos g
    rw [← power]
    push_cast
    field_simp
  refine nearest_roundWithAccuracy (by positivity) ?_ ?_
  · rw [shifted]
    exact represents_fraction positive
  · rw [targetExponent_eq]
    by_cases least : g ≤ -1074
    · omega
    · -- The dividend was moved so far that the quotient fills the mantissa.
      have full : 2 ^ 52 ≤ m * 2 ^ k / n := by
        rw [Nat.le_div_iff_mul_le positive]
        calc 2 ^ 52 * n ≤ 2 ^ 52 * 2 ^ (n.log2 + 1) := Nat.mul_le_mul_left _ Nat.lt_log2_self.le
          _ = 2 ^ (n.log2 + 53) := by rw [← pow_add]; congr 1; omega
          _ ≤ 2 ^ (m.log2 + k) := Nat.pow_le_pow_right (by decide) (by omega)
          _ = 2 ^ m.log2 * 2 ^ k := pow_add _ _ _
          _ ≤ m * 2 ^ k := Nat.mul_le_mul_right _ (Nat.log2_self_le some.ne')
      have : 52 ≤ (m * 2 ^ k / n).log2 := (Nat.le_log2 (by omega)).mpr full
      omega

/-! ### The operations -/

theorem unpacked_zero (zero : a.mantissa = 0) : unpacked a = .zero .positive := dif_pos zero

theorem unpacked_pos (positive : 0 < a.mantissa) :
    unpacked a = .finite .positive a.mantissa a.exponent positive := dif_neg positive.ne'

theorem add_eq (x y : Float) :
    x + y = packed (UnpackedFloat.add Format.binary64 x.toModel.unpack y.toModel.unpack) := rfl

theorem mul_eq (x y : Float) :
    x * y = packed (UnpackedFloat.mul Format.binary64 x.toModel.unpack y.toModel.unpack) := rfl

theorem div_eq (x y : Float) :
    x / y = packed (UnpackedFloat.div Format.binary64 x.toModel.unpack y.toModel.unpack) := rfl

theorem Magnitude.value_zero (zero : a.mantissa = 0) : a.value = 0 := by
  rw [Magnitude.value, zero, Nat.cast_zero, zero_mul]

namespace Exact

theorem add (exact : Exact x p) (exact' : Exact y q) : Nearest (p + q) (x + y) := by
  obtain ⟨a, holds, rfl⟩ := exact
  obtain ⟨b, holds', rfl⟩ := exact'
  rw [add_eq, holds.unpack_eq, holds'.unpack_eq]
  rcases Nat.eq_zero_or_pos a.mantissa with none | some
  · have sum : UnpackedFloat.add Format.binary64 (unpacked a) (unpacked b) = unpacked b := by
      rw [unpacked_zero none]
      rcases Nat.eq_zero_or_pos b.mantissa with none' | some'
      · rw [unpacked_zero none']
        rfl
      · rw [unpacked_pos some']
        rfl
    rw [Magnitude.value_zero none, zero_add, sum]
    exact (of_fits holds'.fits).nearest
  · rcases Nat.eq_zero_or_pos b.mantissa with none' | some'
    · have sum : UnpackedFloat.add Format.binary64 (unpacked a) (unpacked b) = unpacked a := by
        rw [unpacked_zero none', unpacked_pos some]
        rfl
      rw [Magnitude.value_zero none', add_zero, sum]
      exact (of_fits holds.fits).nearest
    · rw [unpacked_pos some, unpacked_pos some', Magnitude.value_eq (min_le_left _ b.exponent),
        Magnitude.value_eq (min_le_right a.exponent _), ← add_mul, ← Nat.cast_add,
        ← Nat.shiftLeft_eq, ← Nat.shiftLeft_eq]
      exact nearest_normalize _ _

theorem mul (exact : Exact x p) (exact' : Exact y q) : Nearest (p * q) (x * y) := by
  obtain ⟨a, holds, rfl⟩ := exact
  obtain ⟨b, holds', rfl⟩ := exact'
  rw [mul_eq, holds.unpack_eq, holds'.unpack_eq]
  rcases Nat.eq_zero_or_pos a.mantissa with none | some
  · rw [Magnitude.value_zero none, zero_mul, unpacked_zero none]
    rcases Nat.eq_zero_or_pos b.mantissa with none' | some'
    · rw [unpacked_zero none']
      exact Exact.zero.nearest
    · rw [unpacked_pos some']
      exact Exact.zero.nearest
  · rcases Nat.eq_zero_or_pos b.mantissa with none' | some'
    · rw [Magnitude.value_zero none', mul_zero, unpacked_zero none', unpacked_pos some]
      exact Exact.zero.nearest
    · rw [unpacked_pos some, unpacked_pos some']
      have product : a.value * b.value =
          (a.mantissa * b.mantissa : Nat) * 2 ^ (a.exponent + b.exponent) := by
        rw [Magnitude.value, Magnitude.value, zpow_add₀ (by norm_num)]
        push_cast
        ring
      rw [product]
      refine nearest_product ?_
      rcases holds.fits.normal with least | full
      · rcases holds'.fits.normal with least' | full'
        · exact .inr (by omega)
        · exact .inl (le_trans full' (Nat.le_mul_of_pos_left _ some))
      · exact .inl (le_trans full (Nat.le_mul_of_pos_right _ some'))

theorem div (exact : Exact x p) (exact' : Exact y q) (nonzero : q ≠ 0) :
    Nearest (p / q) (x / y) := by
  obtain ⟨a, holds, rfl⟩ := exact
  obtain ⟨b, holds', rfl⟩ := exact'
  have some' : 0 < b.mantissa := Nat.pos_of_ne_zero fun none => nonzero (Magnitude.value_zero none)
  rw [div_eq, holds.unpack_eq, holds'.unpack_eq, unpacked_pos some']
  rcases Nat.eq_zero_or_pos a.mantissa with none | some
  · rw [Magnitude.value_zero none, zero_div, unpacked_zero none]
    exact Exact.zero.nearest
  · rw [unpacked_pos some]
    exact nearest_quotient some some' a.exponent b.exponent

/-- An infinite sum stays infinite. -/
theorem infinity_add (exact : Exact x q) : infinity + x = infinity := by
  obtain ⟨a, holds, -⟩ := exact
  have infinite : infinity.toModel.unpack = .infinity .positive := rfl
  rw [add_eq, holds.unpack_eq, infinite, unpacked]
  split <;> rfl

theorem infinity_mul (exact : Exact x q) (nonzero : q ≠ 0) : infinity * x = infinity := by
  obtain ⟨a, holds, rfl⟩ := exact
  have some : 0 < a.mantissa := Nat.pos_of_ne_zero fun none => nonzero (Magnitude.value_zero none)
  have infinite : infinity.toModel.unpack = .infinity .positive := rfl
  rw [mul_eq, holds.unpack_eq, infinite, unpacked_pos some]
  rfl

end Exact

/-! ### Decimal numbers -/

theorem two_zpow_le_ten {k : Int} (nonneg : 0 ≤ k) : (2 : ℚ) ^ (3 * k) ≤ 10 ^ k := by
  obtain ⟨k, rfl⟩ := Int.eq_ofNat_of_zero_le nonneg
  rw [zpow_mul, zpow_natCast, zpow_natCast]
  exact pow_le_pow_left₀ (by norm_num) (by norm_num) k

/-- Beyond all doubles, and that by far. -/
theorem Nearest.of_large (large : 10 ^ (400 : Int) ≤ q) : Nearest q Binary64.infinity := by
  refine .infinity (le_trans ?_ large)
  have bound : limit ≤ 2 ^ (3 * 342 : Int) := by
    have split : (2 : ℚ) ^ (3 * 342 : Int) = 2 ^ 55 * 2 ^ (971 : Int) := by
      rw [← zpow_natCast, ← zpow_add₀ (by norm_num)]
      rfl
    rw [split]
    exact mul_le_mul_of_nonneg_right (by norm_num) (two_zpow_pos _).le
  calc limit ≤ 2 ^ (3 * 342 : Int) := bound
    _ ≤ 10 ^ (342 : Int) := two_zpow_le_ten (by norm_num)
    _ ≤ 10 ^ (400 : Int) := zpow_le_zpow_right₀ (by norm_num) (by norm_num)

theorem Nearest.of_small (nonneg : 0 ≤ q) (small : q ≤ 10 ^ (-400 : Int)) : Nearest q 0.0 := by
  refine .zero nonneg (le_trans small ?_)
  have bound : (2 : ℚ) ^ (1075 : Int) ≤ 10 ^ (400 : Int) :=
    calc (2 : ℚ) ^ (1075 : Int) ≤ 2 ^ (3 * 400 : Int) :=
          zpow_le_zpow_right₀ (by norm_num) (by norm_num)
      _ ≤ 10 ^ (400 : Int) := two_zpow_le_ten (by norm_num)
  rw [zpow_neg, zpow_neg]
  exact inv_anti₀ (two_zpow_pos _) bound

/-- The table of the powers of ten that are doubles. -/
theorem exact_powerOfTen (e : Fin 23) :
    Exact (Float.exactlyRepresentablePowersOfTen[e]) (10 ^ e.val) := by
  have table : ∀ e : Fin 23, isNegative Float.exactlyRepresentablePowersOfTen[e] = false ∧
      (magnitude? Float.exactlyRepresentablePowersOfTen[e]).any (fun a => -52 ≤ a.exponent ∧
        a.mantissa * 2 ^ (a.exponent + 52).toNat = 10 ^ e.val * 2 ^ 52) = true := by
    decide
  obtain ⟨sign, found⟩ := table e
  cases magnitude : magnitude? Float.exactlyRepresentablePowersOfTen[e] with
  | none =>
    rw [magnitude] at found
    cases found
  | some a =>
    rw [magnitude, Option.any_some, decide_eq_true_eq] at found
    obtain ⟨low, value⟩ := found
    refine ⟨a, ⟨sign, magnitude⟩, ?_⟩
    have value : (a.mantissa : ℚ) * 2 ^ (a.exponent + 52).toNat = 10 ^ e.val * 2 ^ 52 := by
      exact_mod_cast value
    have power : (2 : ℚ) ^ (a.exponent + 52).toNat = 2 ^ a.exponent * 2 ^ 52 := by
      rw [← zpow_natCast, Int.toNat_of_nonneg (by omega), zpow_add₀ (by norm_num)]
      rfl
    rw [power, ← mul_assoc] at value
    exact mul_right_cancel₀ (by positivity) value

/-- Whole numbers of at most 53 bits are doubles, also with zeros behind them. -/
theorem exists_fits (small : m < 2 ^ 53) {k : Nat} (few : k ≤ 971) :
    ∃ a : Magnitude, a.Fits ∧ a.value = m * 2 ^ k := by
  rcases Nat.eq_zero_or_pos m with rfl | positive
  · refine ⟨⟨0, -1074⟩, ⟨⟨by norm_num, le_refl _, .inl rfl⟩, by norm_num⟩, ?_⟩
    rw [Magnitude.value_zero rfl, Nat.cast_zero, zero_mul]
  · have normal := normal_of_lt positive small
    have size : m.log2 < 53 := (Nat.log2_lt positive.ne').mpr small
    refine ⟨⟨m * 2 ^ (52 - m.log2), (m.log2 : Int) - 52 + k⟩,
      ⟨⟨normal.high, ?_, .inr normal.low⟩, ?_⟩, ?_⟩
    · dsimp only
      omega
    · dsimp only
      omega
    · have cancel : (2 : ℚ) ^ (52 - m.log2) * 2 ^ ((m.log2 : Int) - 52 + k) = 2 ^ k := by
        rw [← zpow_natCast, ← zpow_natCast, ← zpow_add₀ (by norm_num)]
        congr 1
        omega
      rw [Magnitude.value]
      push_cast
      rw [mul_assoc, cancel]

/-- A whole number of at most 53 bits that is rounded stays what it is. -/
theorem Nearest.exact_nat (small : m < 2 ^ 53) (nearest : Nearest m x) : Exact x m := by
  obtain ⟨a, fits, value⟩ := exists_fits small (Nat.zero_le 971)
  rw [pow_zero, mul_one] at value
  rw [← value] at nearest ⊢
  exact nearest.exact fits

theorem exact_word (small : m < 2 ^ 53) : Exact m.toUInt64.toFloat m := by
  have word : m.toUInt64.toNat = m := Nat.mod_eq_of_lt (Nat.lt_trans small (by decide))
  have converted : m.toUInt64.toFloat = packed (normalize Format.binary64 m 0 .positive) := by
    change packed (normalize Format.binary64 (m.toUInt64.toNat : Int) 0 .positive) = _
    rw [word]
  have nearest := nearest_normalize m 0
  rw [zpow_zero, mul_one, ← converted] at nearest
  exact nearest.exact_nat small

/-- The general way to a decimal number, which gives up early where powers of ten would be huge. -/
theorem nearest_scientific (m : Nat) (e : Int) :
    Nearest (m * 10 ^ e) (packed (ofScientific Format.binary64 m e)) := by
  unfold ofScientific
  split
  next none =>
    rw [none, Nat.cast_zero, zero_mul]
    exact Exact.zero.nearest
  next some =>
    have positive : 0 < m := Nat.pos_of_ne_zero some
    have one : (1 : ℚ) ≤ m := by exact_mod_cast positive
    split
    next large =>
      change (2048 : Int) < e at large
      apply Nearest.of_large
      calc (10 : ℚ) ^ (400 : Int) ≤ 10 ^ e := zpow_le_zpow_right₀ (by norm_num) (by omega)
        _ ≤ m * 10 ^ e := le_mul_of_one_le_left (by positivity) one
    split
    next small =>
      change e < -((2048 : Int) + m.log2) at small
      refine .of_small (by positivity) ?_
      have below : (m : ℚ) ≤ 10 ^ ((m.log2 + 1 : Nat) : Int) := by
        rw [zpow_natCast]
        have : m ≤ 10 ^ (m.log2 + 1) :=
          le_trans Nat.lt_log2_self.le (Nat.pow_le_pow_left (by decide) _)
        exact_mod_cast this
      calc (m : ℚ) * 10 ^ e ≤ 10 ^ ((m.log2 + 1 : Nat) : Int) * 10 ^ e :=
            mul_le_mul_of_nonneg_right below (by positivity)
        _ = 10 ^ (((m.log2 + 1 : Nat) : Int) + e) := (zpow_add₀ (by norm_num) _ _).symm
        _ ≤ 10 ^ (-400 : Int) := zpow_le_zpow_right₀ (by norm_num) (by push_cast; omega)
    split
    next nonneg =>
      obtain ⟨k, rfl⟩ := Int.eq_ofNat_of_zero_le nonneg
      have value : (m : ℚ) * 10 ^ (k : Int) = (m * 2 ^ 53 * 10 ^ k : Nat) * 2 ^ (-53 : Int) := by
        rw [zpow_natCast, zpow_neg]
        push_cast
        field_simp
      rw [value, ← Nat.shiftLeft_eq]
      apply nearest_product
      left
      calc 2 ^ 52 ≤ 1 * 2 ^ 53 * 1 := by norm_num
        _ ≤ (m <<< 53) * 10 ^ k := by
          rw [Nat.shiftLeft_eq]
          exact Nat.mul_le_mul (Nat.mul_le_mul_right _ positive) (Nat.pow_pos (by decide))
    next negative =>
      have value : (m : ℚ) * 10 ^ e =
          m * 2 ^ (0 : Int) / ((10 ^ (-e).toNat : Nat) * 2 ^ (0 : Int)) := by
        have power : (10 : ℚ) ^ (-e).toNat * 10 ^ e = 1 := by
          rw [← zpow_natCast, Int.toNat_of_nonneg (by omega), ← zpow_add₀ (by norm_num),
            neg_add_cancel, zpow_zero]
        rw [zpow_zero, mul_one, mul_one, eq_div_iff (by positivity)]
        push_cast
        rw [mul_assoc, mul_comm (10 ^ e), power, mul_one]
      rw [value]
      exact nearest_quotient positive (Nat.pow_pos (by decide)) 0 0

/-- A decimal number becomes its nearest double: by one operation on doubles if the digits and the
power of ten are doubles, and in the general way otherwise. -/
theorem nearest_ofScientific (m : Nat) (negative : Bool) (e : Nat) :
    Nearest (m * 10 ^ (if negative then -(e : Int) else e)) (Float.ofScientific m negative e) := by
  unfold Float.ofScientific
  by_cases fast : m < 2 ^ 53 ∧ e ≤ 22
  · rw [dif_pos fast]
    have digits := exact_word fast.1
    have power := exact_powerOfTen ⟨e, Nat.lt_succ_of_le fast.2⟩
    cases negative with
    | false =>
      rw [if_neg Bool.false_ne_true, zpow_natCast]
      exact digits.mul power
    | true =>
      rw [if_pos rfl, zpow_neg, zpow_natCast, ← div_eq_mul_inv]
      exact digits.div power (by positivity)
  · rw [dif_neg fast]
    have general := nearest_scientific m (if negative then -(e : Int) else e)
    cases negative with
    | false => exact general
    | true =>
      have same : Int.negOfNat e = -(e : Int) := Int.negOfNat_eq
      rw [if_pos rfl, ← same] at general ⊢
      exact general

theorem nearest_ofNat (n : Nat) : Nearest n (Float.ofNat n) := by
  have nearest := nearest_ofScientific n false 0
  rw [if_neg Bool.false_ne_true, Nat.cast_zero, zpow_zero, mul_one] at nearest
  exact nearest

theorem exact_ofNat (small : n < 2 ^ 53) : Exact (Float.ofNat n) n :=
  (nearest_ofNat n).exact_nat small

/-! ### Counts -/

/-- What stands for a number from `2 ^ 53` on is not below `2 ^ 53`, which is a double. -/
theorem Nearest.value_ge (nearest : Nearest q x) (magnitude : magnitude? x = some a)
    (large : 2 ^ 53 ≤ q) : 2 ^ 53 ≤ a.value := by
  obtain ⟨b, fits, value⟩ := exists_fits (m := 1) (by norm_num) (show 53 ≤ 971 by norm_num)
  rw [Nat.cast_one, one_mul] at value
  obtain ⟨c, holds, same⟩ := Exact.of_fits fits
  have nearer := ((nearest.finite a magnitude).2 _ c holds.magnitude).1
  rw [same, value, abs_of_nonneg (sub_nonneg.mpr large)] at nearer
  linarith [le_abs_self (q - a.value)]

/-- From `2 ^ 53` on all doubles are whole. -/
theorem Magnitude.Fits.whole (fits : a.Fits) (large : 2 ^ 53 ≤ a.value) :
    a.isIntegral = true ∧ (a.floor : ℚ) = a.value := by
  have exponent : 0 ≤ a.exponent := by
    by_contra below
    have less := fits.toCanonical.value_lt (t := 0) (not_le.mp below)
    rw [zpow_zero, mul_one] at less
    linarith
  refine ⟨by simp [isIntegral, exponent], ?_⟩
  rw [floor, if_pos exponent, a.value_eq exponent, zpow_zero, mul_one, sub_zero, Nat.pow_eq]

end Binary64

open Binary64 in
/-- Up to a bound in the range where integers are exact, the number of a count counts the same. -/
theorem Number.clampNat_ofNat {bound : Nat} (safe : bound ≤ maxSafe) (n : Nat) :
    (ofNat n).clampNat bound = min bound n := by
  change (if n ≤ maxSafe then integer n else ofFloat (Float.ofNat n)).clampNat bound = _
  split
  · rfl
  next large =>
    have large : 2 ^ 53 ≤ n := Nat.lt_of_not_le large
    have limit : maxSafe < 2 ^ 53 := by decide
    have nearest := nearest_ofNat n
    rw [Nat.min_eq_left (by omega)]
    cases magnitude : magnitude? (Float.ofNat n) with
    | none =>
      rw [eq_infinity nearest.sign nearest.number magnitude]
      rfl
    | some a =>
      obtain ⟨integral, floor⟩ := (fits_of_magnitude? magnitude).whole
        (nearest.value_ge magnitude (by exact_mod_cast large))
      have beyond : 2 ^ 53 ≤ a.floor := by
        have := nearest.value_ge magnitude (by exact_mod_cast large)
        rw [← floor] at this
        exact_mod_cast this
      -- It is neither an integer of the exact range nor infinite.
      have inexact : safeInteger? (Float.ofNat n) = none := by
        rw [safeInteger?, magnitude]
        simp [show ¬ a.floor ≤ maxSafe by omega]
      have double : ofFloat (Float.ofNat n) = .double (Float.ofNat n) := by
        simp only [ofFloat, inexact, nearest.number, (finite_of_magnitude? magnitude).2,
          Bool.false_eq_true, if_false]
      have truncated : (Number.double (Float.ofNat n)).truncate? = some (a.floor : Int) := by
        simp [truncate?, Binary64.truncate?, magnitude, nearest.sign]
      rw [double]
      change min bound ((Number.double (Float.ofNat n)).truncate?.getD 0).toNat = bound
      rw [truncated, Option.getD_some, Int.toNat_natCast, Nat.min_eq_left (by omega)]

end ScriptEngine
