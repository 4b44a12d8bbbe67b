import Mathlib
import ScriptEngine.Number.Text

/-!
# Whole numbers as doubles

Below `2 ^ 53` the conversion of a whole number to a double is exact: the number is shifted until it
has the 53 bits of a mantissa, and the rounding that follows drops nothing. Main results: the
magnitude of such a double (`magnitude?_ofNat`), and that it is read as the number that it was made
from (`safeInteger?_ofNat`).

The conversion multiplies by the double `1.0`, so that it rounds twice; both times a mantissa with
zeros behind its 53 bits loses those zeros (`roundWithAccuracy_zeros`).
-/
namespace ScriptEngine.Binary64

open Float.Model (Format UnpackedFloat totalExponent)
open Float.Model.UnpackedFloat

/-- A mantissa with its highest bit where that of a normal double is. -/
structure Normal (m : Nat) (e : Int) : Prop where
  low : 2 ^ 52 ≤ m
  high : m < 2 ^ 53
  least : -1074 ≤ e
  most : e ≤ 971

variable {m : Nat} {e : Int}

namespace Normal

theorem pos (normal : Normal m e) : 0 < m := Nat.lt_of_lt_of_le (Nat.two_pow_pos 52) normal.low

theorem log2 (normal : Normal m e) : m.log2 = 52 :=
  (Nat.log2_eq_iff (Nat.ne_of_gt normal.pos)).2 ⟨normal.low, normal.high⟩

/-- A normal double has the exponent that its size asks for. -/
theorem targetExponent (normal : Normal m e) :
    Format.binary64.targetExponent (totalExponent m e) = e := by
  have least := normal.least
  simp only [Format.targetExponent, totalExponent, normal.log2, Format.mantissaBits,
    Format.minExponent]
  omega

end Normal

/-! ### Rounding -/

theorem log2_mul_two_pow (positive : 0 < m) (places : Nat) :
    (m * 2 ^ places).log2 = m.log2 + places := by
  induction places with
  | zero => rw [Nat.pow_zero, Nat.mul_one, Nat.add_zero]
  | succ places ih =>
    have nonzero : m * 2 ^ places ≠ 0 := Nat.ne_of_gt (Nat.mul_pos positive (Nat.two_pow_pos _))
    rw [Nat.pow_succ, ← Nat.mul_assoc, Nat.mul_comm _ 2, Nat.log2_two_mul nonzero, ih, Nat.add_assoc]

/-- Shifting zeros out loses nothing. -/
theorem shiftRight_zeros (m places : Nat) :
    ExtendedMantissa.ofMantissaAndAccuracy (m * 2 ^ places) .exact >>> places =
      ExtendedMantissa.ofMantissaAndAccuracy m .exact := by
  induction places generalizing m with
  | zero =>
    rw [Nat.pow_zero, Nat.mul_one]
    rfl
  | succ places ih =>
    have once := ih (m * 2)
    rw [Nat.mul_assoc, Nat.mul_comm 2, ← Nat.pow_succ] at once
    change ((ExtendedMantissa.ofMantissaAndAccuracy (m * 2 ^ (places + 1)) .exact) >>>
      places).shiftRightOne = _
    rw [once]
    simp [ExtendedMantissa.shiftRightOne, ExtendedMantissa.ofMantissaAndAccuracy]

/-- The mantissa of a normal double comes out of rounding as it is, without the zeros behind it. -/
theorem roundWithAccuracy_zeros (normal : Normal m e) (places : Nat) :
    roundWithAccuracy Format.binary64 .positive (m * 2 ^ places) (e - places) .exact =
      .finite .positive m e normal.pos := by
  have size : totalExponent (m * 2 ^ places) (e - places) = totalExponent m e := by
    rw [totalExponent, totalExponent, log2_mul_two_pow normal.pos]
    omega
  have first : shiftToTargetExponent Format.binary64 (m * 2 ^ places) (e - places) .exact =
      (ExtendedMantissa.ofMantissaAndAccuracy m .exact, e) := by
    have distance : (e - (e - places)).toNat = places := by omega
    simp only [shiftToTargetExponent, size, normal.targetExponent, shiftToExponent, distance,
      shiftRight_zeros, Int.sub_add_cancel]
  -- The second shift has nothing left to do.
  have second : shiftToTargetExponent Format.binary64 m e .exact =
      (ExtendedMantissa.ofMantissaAndAccuracy m .exact, e) := by
    have stays : ExtendedMantissa.ofMantissaAndAccuracy m .exact >>> 0 =
        ExtendedMantissa.ofMantissaAndAccuracy m .exact := rfl
    simp only [shiftToTargetExponent, normal.targetExponent, shiftToExponent, Int.sub_self,
      Int.toNat_zero, stays, Int.natCast_zero, Int.add_zero]
  have rounded : (ExtendedMantissa.ofMantissaAndAccuracy m .exact).roundedMantissa = m := rfl
  rw [roundWithAccuracy, first]
  simp only [rounded, second]
  exact dif_neg (Nat.ne_of_gt normal.pos)

/-! ### Bits -/

theorem toNat_unpackExponent (word : UInt64) :
    (@unpackExponent Format.binary64 word.toBitVec).toNat = word.toNat / 2 ^ 52 % 2048 := by
  change (word.toNat >>> 52) % 2 ^ 11 = _
  rw [Nat.shiftRight_eq_div_pow]

/-- What has a magnitude is a number, and not an infinite one. -/
theorem finite_of_magnitude? {x : Float} {a : Magnitude} (finite : magnitude? x = some a) :
    x.isNaN = false ∧ x.isInf = false := by
  have below : x.toBits.toNat / 2 ^ 52 % 2048 ≠ 2047 := by
    intro top
    simp only [magnitude?, Nat.pow_eq, top, ↓reduceIte] at finite
    cases finite
  have exponent : @unpackExponent Format.binary64 x.toBits.toBitVec ≠ -1#11 := by
    intro top
    rw [← toNat_unpackExponent, top] at below
    exact below rfl
  have unpacked : x.toModel.unpack.isNaN = false ∧ x.toModel.unpack.isInf = false := by
    unfold Float.Model.unpack unpack
    change UnpackedFloat.isNaN (if @unpackExponent Format.binary64 x.toBits.toBitVec =
      -1#11 then _ else _) = false ∧ UnpackedFloat.isInf (if @unpackExponent Format.binary64
      x.toBits.toBitVec = -1#11 then _ else _) = false
    rw [if_neg exponent]
    split
    · split <;> exact ⟨rfl, rfl⟩
    · exact ⟨rfl, rfl⟩
  exact unpacked

section

variable (normal : Normal m e)

include normal

/-- The parts of the bits of a normal double. -/
theorem pack_normal :
    pack Format.binary64 (.finite .positive m e normal.pos) =
      packComponents Format.binary64 .positive (BitVec.ofNat 11 (e + 1075).toNat)
        (BitVec.ofNat 52 m) := by
  have least := normal.least
  have most := normal.most
  have finite : ¬ 2 ^ Format.binary64.exponentBits ≤ (e + Format.binary64.exponentBias +
      Format.binary64.mantissaBitsWithoutImplicit).toNat + 1 := by
    change ¬ 2048 ≤ (e + 1023 + 52).toNat + 1
    omega
  have full : m.log2 + 1 = Format.binary64.mantissaBits := by
    rw [normal.log2]
    rfl
  have biased : (e + 1023 + 52).toNat = (e + 1075).toNat := by omega
  simp only [pack, if_neg finite, if_pos full]
  change packComponents Format.binary64 .positive (BitVec.ofNat 11 (e + 1023 + 52).toNat) _ = _
  rw [biased]

/-- The bits as a word: the exponent before the mantissa, of which the highest bit is left out. -/
theorem toNat_pack_normal :
    (Float.Model.pack (.finite .positive m e normal.pos)).toBits.toNat =
      (e + 1075).toNat * 2 ^ 52 + (m - 2 ^ 52) := by
  have exponent : (e + 1075).toNat % 2 ^ 11 = (e + 1075).toNat := by
    have most := normal.most
    omega
  have mantissa : m % 2 ^ 52 = m - 2 ^ 52 := by
    have low := normal.low
    have high := normal.high
    omega
  have small : m - 2 ^ 52 < 2 ^ 52 := mantissa ▸ Nat.mod_lt m (Nat.two_pow_pos 52)
  change (pack Format.binary64 (.finite .positive m e normal.pos)).toNat = _
  rw [pack_normal normal]
  change (0#1 ++ BitVec.ofNat 11 (e + 1075).toNat ++ BitVec.ofNat 52 m).toNat = _
  simp only [BitVec.toNat_append, BitVec.toNat_ofNat, exponent, mantissa, Nat.zero_mod,
    Nat.zero_shiftLeft, Nat.zero_or]
  rw [Nat.shiftLeft_eq, Nat.mul_comm, ← Nat.two_pow_add_eq_or_of_lt small]

theorem magnitude?_pack_normal :
    magnitude? (.ofModel (.pack (.finite .positive m e normal.pos))) = some ⟨m, e⟩ := by
  have bits : (Float.toBits (.ofModel (.pack (.finite .positive m e normal.pos)))).toNat = _ :=
    toNat_pack_normal normal
  obtain ⟨low, high, least, most⟩ := normal
  have biased : ((e + 1075).toNat * 2 ^ 52 + (m - 2 ^ 52)) / 2 ^ 52 % 2048 = (e + 1075).toNat := by
    omega
  have fraction : ((e + 1075).toNat * 2 ^ 52 + (m - 2 ^ 52)) % 2 ^ 52 = m - 2 ^ 52 := by omega
  have mantissa : m - 2 ^ 52 + 2 ^ 52 = m := Nat.sub_add_cancel low
  have exponent : ((e + 1075).toNat : Int) - 1075 = e := by omega
  have finite : (e + 1075).toNat ≠ 2047 := by omega
  have large : (e + 1075).toNat ≠ 0 := by omega
  simp only [magnitude?, Nat.pow_eq, bits, biased, fraction, mantissa, exponent, finite, large,
    ↓reduceIte]

theorem isNegative_pack_normal :
    isNegative (.ofModel (.pack (.finite .positive m e normal.pos))) = false := by
  have bits : (Float.toBits (.ofModel (.pack (.finite .positive m e normal.pos)))).toNat = _ :=
    toNat_pack_normal normal
  obtain ⟨low, high, least, most⟩ := normal
  rw [isNegative, decide_eq_false_iff_not, ge_iff_le, UInt64.le_iff_toNat_le, bits]
  change ¬ 0x8000000000000000 ≤ _
  omega

/-- A normal double that is taken apart is what it was made of. -/
theorem unpack_pack_normal :
    (Float.Model.pack (.finite .positive m e normal.pos)).unpack =
      .finite .positive m e normal.pos := by
  change unpack Format.binary64 (pack Format.binary64 (.finite .positive m e normal.pos)) = _
  rw [pack_normal normal]
  obtain ⟨low, high, least, most⟩ := normal
  have exponent : (BitVec.ofNat 11 (e + 1075).toNat).toNat = (e + 1075).toNat := by
    rw [BitVec.toNat_ofNat]
    omega
  have finite : BitVec.ofNat 11 (e + 1075).toNat ≠ -1#11 := by
    intro top
    have top : (BitVec.ofNat 11 (e + 1075).toNat).toNat = 2047 := congrArg BitVec.toNat top
    omega
  have large : BitVec.ofNat 11 (e + 1075).toNat ≠ 0#11 := by
    intro least
    have least : (BitVec.ofNat 11 (e + 1075).toNat).toNat = 0 := congrArg BitVec.toNat least
    omega
  have sign : unpackSign (packComponents Format.binary64 .positive
      (BitVec.ofNat 11 (e + 1075).toNat) (BitVec.ofNat 52 m)) = 0#1 := by
    change (0#1 ++ BitVec.ofNat 11 (e + 1075).toNat ++ BitVec.ofNat 52 m).extractLsb' 63 1 = 0#1
    rw [BitVec.extractLsb'_append_eq_of_le (by decide), BitVec.extractLsb'_append_eq_of_le (by decide)]
    rfl
  have mantissa : (1#1 ++ BitVec.ofNat 52 m).toNat = m := by
    rw [BitVec.toNat_append, BitVec.toNat_ofNat, BitVec.toNat_ofNat, Nat.shiftLeft_eq, Nat.mul_comm,
      ← Nat.two_pow_add_eq_or_of_lt (Nat.mod_lt m (Nat.two_pow_pos 52))]
    omega
  have unbiased : ((e + 1075).toNat : Int) - ((1023 : Nat) + (52 : Nat)) = e := by omega
  unfold unpack
  simp only [unpackMantissa_packComponents, unpackExponent_packComponents, sign]
  rw [if_neg finite, if_neg large]
  change UnpackedFloat.finite .positive (1#1 ++ BitVec.ofNat 52 m).toNat
    ((BitVec.ofNat 11 (e + 1075).toNat).toNat - ((1023 : Nat) + (52 : Nat))) _ = _
  simp only [mantissa, exponent, unbiased]

end

/-! ### Whole numbers -/

section

variable {n : Nat}

/-- A whole number with zeros behind it, so that it fills a mantissa. -/
theorem normal_of_lt (positive : 0 < n) (small : n < 2 ^ 53) :
    Normal (n * 2 ^ (52 - n.log2)) ((n.log2 : Int) - 52) := by
  have size : n.log2 < 53 := (Nat.log2_lt (Nat.ne_of_gt positive)).2 small
  have nonzero : n * 2 ^ (52 - n.log2) ≠ 0 :=
    Nat.ne_of_gt (Nat.mul_pos positive (Nat.two_pow_pos _))
  have log : (n * 2 ^ (52 - n.log2)).log2 = 52 := by
    rw [log2_mul_two_pow positive]
    omega
  obtain ⟨low, high⟩ := (Nat.log2_eq_iff nonzero).1 log
  exact ⟨low, high, by omega, by omega⟩

theorem round_ofNat (positive : 0 < n) (small : n < 2 ^ 53) :
    round Format.binary64 .positive n 0 =
      .finite .positive (n * 2 ^ (52 - n.log2)) ((n.log2 : Int) - 52)
        (normal_of_lt positive small).pos := by
  have size : n.log2 < 53 := (Nat.log2_lt (Nat.ne_of_gt positive)).2 small
  have target : Format.binary64.targetExponent (totalExponent n 0) = (n.log2 : Int) - 52 := by
    simp only [Format.targetExponent, totalExponent, Format.mantissaBits, Format.minExponent]
    omega
  have filled : decreaseExponent n 0 ((n.log2 : Int) - 52) =
      (n * 2 ^ (52 - n.log2), (n.log2 : Int) - 52) := by
    have places : (0 - ((n.log2 : Int) - 52)).toNat = 52 - n.log2 := by omega
    simp only [decreaseExponent, places, Nat.shiftLeft_eq, Prod.mk.injEq, true_and]
    omega
  have rounded := roundWithAccuracy_zeros (normal_of_lt positive small) 0
  rw [Nat.pow_zero, Nat.mul_one, Int.natCast_zero, Int.sub_zero] at rounded
  rw [UnpackedFloat.round, target]
  simp only [filled, rounded]

/-- The conversion of a whole number. -/
theorem ofNat_eq (positive : 0 < n) (small : n < 2 ^ 53) :
    Float.ofNat n = .ofModel (.pack (.finite .positive (n * 2 ^ (52 - n.log2))
      ((n.log2 : Int) - 52) (normal_of_lt positive small).pos)) := by
  have normal := normal_of_lt positive small
  have word : (Nat.toUInt64 n).toNat = n := Nat.mod_eq_of_lt (Nat.lt_trans small (by decide))
  have converted : Float.Model.ofUInt64 n.toUInt64 = .pack (round Format.binary64 .positive n 0) := by
    have above : compare (n : Int) 0 = .gt := by
      rw [Std.compare_eq_gt]
      omega
    change Float.Model.pack (normalize Format.binary64 (n.toUInt64.toNat : Int) 0 .positive) = _
    rw [word, UnpackedFloat.normalize, above]
    rfl
  have one : (Float.Model.ofBits 0x3FF0000000000000).unpack =
      .finite .positive (2 ^ 52) (-52) (Nat.two_pow_pos 52) := rfl
  have fast : Float.ofNat n = .ofModel (.pack (mul Format.binary64
      (Float.Model.ofUInt64 n.toUInt64).unpack (Float.Model.ofBits 0x3FF0000000000000).unpack)) := by
    change Float.ofScientific n false 0 = _
    rw [Float.ofScientific, dif_pos ⟨small, Nat.zero_le _⟩]
    rfl
  have product := roundWithAccuracy_zeros normal 52
  rw [fast, converted, round_ofNat positive small, unpack_pack_normal normal, one]
  exact congrArg (fun value => Float.ofModel (.pack value)) product

theorem magnitude?_ofNat (positive : 0 < n) (small : n < 2 ^ 53) :
    magnitude? (Float.ofNat n) = some ⟨n * 2 ^ (52 - n.log2), (n.log2 : Int) - 52⟩ := by
  rw [ofNat_eq positive small]
  exact magnitude?_pack_normal (normal_of_lt positive small)

/-- A whole number that a double can tell from its neighbours is the integer that the double
equals. -/
theorem safeInteger?_ofNat (safe : n ≤ maxSafe) : safeInteger? (Float.ofNat n) = some n := by
  rcases Nat.eq_zero_or_pos n with rfl | positive
  · decide +kernel
  have small : n < 2 ^ 53 := Nat.lt_of_le_of_lt safe (by decide)
  have size : n.log2 < 53 := (Nat.log2_lt (Nat.ne_of_gt positive)).2 small
  have places : (-((n.log2 : Int) - 52)).toNat = 52 - n.log2 := by omega
  have negative : isNegative (Float.ofNat n) = false := by
    rw [ofNat_eq positive small]
    exact isNegative_pack_normal (normal_of_lt positive small)
  have integral : Magnitude.isIntegral ⟨n * 2 ^ (52 - n.log2), (n.log2 : Int) - 52⟩ = true := by
    simp only [Magnitude.isIntegral, places, Nat.pow_eq, Nat.mul_mod_left, decide_true, Bool.or_true]
  have floor : Magnitude.floor ⟨n * 2 ^ (52 - n.log2), (n.log2 : Int) - 52⟩ = n := by
    unfold Magnitude.floor
    split
    next whole =>
      have whole : (0 : Int) ≤ (n.log2 : Int) - 52 := whole
      have all : n.log2 = 52 := by omega
      simp [all]
    · simp only [places, Nat.pow_eq]
      exact Nat.mul_div_cancel n (Nat.two_pow_pos _)
  simp [safeInteger?, magnitude?_ofNat positive small, integral, floor, safe, negative]

end

end ScriptEngine.Binary64
