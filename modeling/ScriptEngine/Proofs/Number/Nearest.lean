import Mathlib
import ScriptEngine.Proofs.Number.Rounding

/-!
# The nearest double

Which double stands for a number that no double may be: the one at the smallest distance, of two
such the one with the even mantissa, and infinity for numbers that lie as far out as the middle
between the largest double and the power of two behind it (`Nearest`). Nothing is said of how it is
computed.

Main results: every number that is not negative has one nearest double (`exists_nearest`,
`Nearest.unique`), and that is what rounding on the grid of the doubles around it comes to
(`Rounds.nearest_iff`).
-/
namespace ScriptEngine.Binary64

open Float.Model (Format UnpackedFloat)
open Float.Model.UnpackedFloat

variable {q s : ℚ} {r : Nat} {t : Int} {x y : Float} {a b : Magnitude}

/-! ### Magnitudes and their values -/

namespace Magnitude

/-- The number that a magnitude stands for. -/
def value (a : Magnitude) : ℚ := a.mantissa * 2 ^ a.exponent

/-- The mantissa has 53 bits, or fewer if the exponent is the least one. -/
structure Canonical (a : Magnitude) : Prop where
  small : a.mantissa < 2 ^ 53
  least : -1074 ≤ a.exponent
  normal : a.exponent = -1074 ∨ 2 ^ 52 ≤ a.mantissa

/-- The magnitude is that of a double. -/
structure Fits (a : Magnitude) : Prop extends Canonical a where
  most : a.exponent ≤ 971

theorem value_nonneg (a : Magnitude) : 0 ≤ a.value :=
  mul_nonneg (Nat.cast_nonneg _) (two_zpow_pos _).le

/-- On a finer grid the mantissa has zeros behind it. -/
theorem value_eq (le : t ≤ a.exponent) :
    a.value = (a.mantissa * 2 ^ (a.exponent - t).toNat : Nat) * 2 ^ t := by
  have power : (2 : ℚ) ^ (a.exponent - t).toNat * 2 ^ t = 2 ^ a.exponent := by
    rw [← zpow_natCast, Int.toNat_of_nonneg (sub_nonneg.mpr le), ← zpow_add₀ (by norm_num),
      sub_add_cancel]
  rw [value, Nat.cast_mul, mul_assoc]
  push_cast
  rw [power]

/-- Below a grid there is nothing but what has fewer than 53 bits on it. -/
theorem Canonical.value_lt (canonical : b.Canonical) (less : b.exponent < t) :
    b.value < 2 ^ 52 * 2 ^ t := by
  have steps : (2 : ℚ) ^ b.exponent ≤ 2 ^ (t - 1) := zpow_le_zpow_right₀ (by norm_num) (by omega)
  have half : (2 : ℚ) ^ t = 2 ^ (t - 1) * 2 := by
    rw [← zpow_add_one₀ (by norm_num), sub_add_cancel]
  have small : (b.mantissa : ℚ) < 2 ^ 53 := by exact_mod_cast canonical.small
  calc b.value ≤ b.mantissa * 2 ^ (t - 1) := mul_le_mul_of_nonneg_left steps (Nat.cast_nonneg _)
    _ < 2 ^ 53 * 2 ^ (t - 1) := mul_lt_mul_of_pos_right small (two_zpow_pos _)
    _ = 2 ^ 52 * 2 ^ t := by rw [half]; ring

/-- Magnitudes of doubles with the same value are the same. -/
theorem Canonical.eq_of_value (canonical : a.Canonical) (canonical' : b.Canonical)
    (same : a.value = b.value) : a = b := by
  have not_lt {a b : Magnitude} (canonical : a.Canonical) (canonical' : b.Canonical)
      (same : a.value = b.value) : ¬ a.exponent < b.exponent := by
    intro less
    have least := canonical.least
    have bits := canonical'.normal.resolve_left (by omega)
    have above : (2 : ℚ) ^ 52 * 2 ^ b.exponent ≤ b.value := by
      have : ((2 ^ 52 : Nat) : ℚ) ≤ b.mantissa := by exact_mod_cast bits
      push_cast at this
      exact mul_le_mul_of_nonneg_right this (two_zpow_pos _).le
    have below := canonical.value_lt less
    linarith
  have exponent : a.exponent = b.exponent := by
    have := not_lt canonical canonical' same
    have := not_lt canonical' canonical same.symm
    omega
  have mantissa : (a.mantissa : ℚ) = b.mantissa := by
    rw [value, value, exponent] at same
    exact mul_right_cancel₀ (two_zpow_pos _).ne' same
  rcases a with ⟨m, e⟩
  rcases b with ⟨m', e'⟩
  obtain rfl : e = e' := exponent
  obtain rfl : m = m' := by exact_mod_cast mantissa
  rfl

end Magnitude

/-! ### Magnitudes of doubles -/

theorem fits_of_magnitude? (magnitude : magnitude? x = some a) : a.Fits := by
  simp only [magnitude?] at magnitude
  split at magnitude
  · cases magnitude
  next finite =>
    split at magnitude
    · cases magnitude
      have small : x.toBits.toNat % Nat.pow 2 52 < 2 ^ 52 := Nat.mod_lt _ (by decide)
      exact ⟨⟨by dsimp only; omega, le_refl _, .inl rfl⟩, by dsimp only; omega⟩
    next normal =>
      cases magnitude
      have small : x.toBits.toNat % Nat.pow 2 52 < 2 ^ 52 := Nat.mod_lt _ (by decide)
      have exponent : x.toBits.toNat / Nat.pow 2 52 % 2048 < 2048 := Nat.mod_lt _ (by decide)
      have implicit : Nat.pow 2 52 = 2 ^ 52 := rfl
      refine ⟨⟨?_, ?_, .inr ?_⟩, ?_⟩ <;> dsimp only at * <;> omega

/-- The double is not negative, and this is its magnitude. -/
structure Holds (x : Float) (a : Magnitude) : Prop where
  sign : isNegative x = false
  magnitude : magnitude? x = some a

/-- The double of a value of the model. -/
def packed (u : UnpackedFloat) : Float := .ofModel (.pack u)

def infinity : Float := packed (.infinity .positive)

theorem toBits_lt (sign : isNegative x = false) : x.toBits.toNat < 2 ^ 63 := by
  simp only [isNegative, ge_iff_le, decide_eq_false_iff_not, UInt64.le_iff_toNat_le] at sign
  change ¬ 0x8000000000000000 ≤ x.toBits.toNat at sign
  omega

theorem eq_of_toBits (same : x.toBits.toNat = y.toBits.toNat) : x = y := by
  rcases x with ⟨⟨bits, valid⟩⟩
  rcases y with ⟨⟨bits', valid'⟩⟩
  obtain rfl : bits = bits' := UInt64.toNat_inj.mp same
  rfl

namespace Holds

theorem fits (holds : Holds x a) : a.Fits := fits_of_magnitude? holds.magnitude

/-- The bits of a double are told by its magnitude. -/
theorem toBits_eq (holds : Holds x a) :
    x.toBits.toNat = if a.mantissa < 2 ^ 52 then a.mantissa
      else (a.exponent + 1075).toNat * 2 ^ 52 + (a.mantissa - 2 ^ 52) := by
  have bound := toBits_lt holds.sign
  have magnitude := holds.magnitude
  have implicit : Nat.pow 2 52 = 2 ^ 52 := rfl
  simp only [magnitude?, implicit] at magnitude
  split at magnitude
  · cases magnitude
  · split at magnitude
    · cases magnitude
      have small : x.toBits.toNat % 2 ^ 52 < 2 ^ 52 := Nat.mod_lt _ (by decide)
      rw [if_pos small]
      dsimp only
      omega
    · cases magnitude
      rw [if_neg (by dsimp only; omega)]
      dsimp only
      omega

theorem unique (holds : Holds x a) (holds' : Holds y a) : x = y :=
  eq_of_toBits (holds.toBits_eq.trans holds'.toBits_eq.symm)

end Holds

/-! ### Doubles of magnitudes -/

section

variable {m : Nat} (positive : 0 < m) (small : m < 2 ^ 52)

include small

/-- A double that is smaller than all normal ones has the exponent zero. -/
theorem pack_subnormal :
    pack Format.binary64 (.finite .positive m (-1074) positive) =
      packComponents Format.binary64 .positive 0#11 (BitVec.ofNat 52 m) := by
  have log : m.log2 + 1 ≠ Format.binary64.mantissaBits := by
    have : m.log2 < 52 := (Nat.log2_lt (Nat.ne_of_gt positive)).2 small
    change m.log2 + 1 ≠ 53
    omega
  simp only [pack]
  rw [if_neg (by decide), if_neg log]

theorem holds_subnormal :
    Holds (packed (.finite .positive m (-1074) positive)) ⟨m, -1074⟩ := by
  have bits : (packed (.finite .positive m (-1074) positive)).toBits.toNat = m := by
    change (pack Format.binary64 (.finite .positive m (-1074) positive)).toNat = m
    rw [pack_subnormal positive small]
    change (0#1 ++ 0#11 ++ BitVec.ofNat 52 m).toNat = m
    simp only [BitVec.toNat_append, BitVec.toNat_ofNat, Nat.mod_eq_of_lt small, Nat.zero_mod,
      Nat.zero_shiftLeft, Nat.zero_or]
  have implicit : Nat.pow 2 52 = 2 ^ 52 := rfl
  have top : m / 2 ^ 52 % 2048 = 0 := by omega
  constructor
  · simp only [isNegative, ge_iff_le, decide_eq_false_iff_not, UInt64.le_iff_toNat_le, bits]
    change ¬ 0x8000000000000000 ≤ m
    omega
  · simp only [magnitude?, bits, implicit, top, Nat.mod_eq_of_lt small]
    rfl

/-- A subnormal double that is taken apart is what it was made of. -/
theorem unpack_pack_subnormal :
    (Float.Model.pack (.finite .positive m (-1074) positive)).unpack =
      .finite .positive m (-1074) positive := by
  change unpack Format.binary64 (pack Format.binary64 (.finite .positive m (-1074) positive)) = _
  rw [pack_subnormal positive small]
  have sign : unpackSign (packComponents Format.binary64 .positive 0#11 (BitVec.ofNat 52 m)) =
      0#1 := by
    change (0#1 ++ 0#11 ++ BitVec.ofNat 52 m).extractLsb' 63 1 = 0#1
    rw [BitVec.extractLsb'_append_eq_of_le (by decide),
      BitVec.extractLsb'_append_eq_of_le (by decide)]
    rfl
  have mantissa : (BitVec.ofNat 52 m).toNat = m := by
    rw [BitVec.toNat_ofNat, Nat.mod_eq_of_lt small]
  have some : BitVec.ofNat 52 m ≠ 0#52 := by
    intro none
    rw [none] at mantissa
    exact positive.ne mantissa
  unfold unpack
  simp only [unpackMantissa_packComponents, unpackExponent_packComponents, sign]
  rw [if_neg (by decide), if_pos trivial, dif_neg some]
  change UnpackedFloat.finite .positive (BitVec.ofNat 52 m).toNat
    ((0#11).toNat - ((1023 : Nat) + (52 : Nat)) + 1) _ = _
  simp only [mantissa]
  rfl

end

/-- A magnitude is kept by the double that is made of it. -/
theorem packed_unpacked (fits : a.Fits) :
    Holds (packed (unpacked a)) a ∧ (packed (unpacked a)).toModel.unpack = unpacked a := by
  rcases a with ⟨m, e⟩
  have normal := fits.normal
  by_cases zero : m = 0
  · subst zero
    obtain rfl : e = -1074 := normal.resolve_right (by simp)
    exact ⟨⟨rfl, rfl⟩, rfl⟩
  · simp only [unpacked, dif_neg zero]
    by_cases small : m < 2 ^ 52
    · obtain rfl : e = -1074 := normal.resolve_right (by simpa using small)
      exact ⟨holds_subnormal (Nat.pos_of_ne_zero zero) small,
        unpack_pack_subnormal (Nat.pos_of_ne_zero zero) small⟩
    · have normal : Normal m e := ⟨not_lt.mp small, fits.small, fits.least, fits.most⟩
      exact ⟨⟨isNegative_pack_normal normal, magnitude?_pack_normal normal⟩,
        unpack_pack_normal normal⟩

/-- What operations see of a double. -/
theorem Holds.unpack_eq (holds : Holds x a) : x.toModel.unpack = unpacked a := by
  obtain ⟨same, unpack⟩ := packed_unpacked holds.fits
  rw [holds.unique same, unpack]

/-- Magnitudes beyond those of doubles become infinite. -/
theorem packed_eq_infinity (canonical : a.Canonical) (beyond : 971 < a.exponent) :
    packed (unpacked a) = infinity := by
  have some : a.mantissa ≠ 0 := by
    have := canonical.normal
    omega
  have top : 2 ^ Format.binary64.exponentBits ≤ (a.exponent + Format.binary64.exponentBias +
      Format.binary64.mantissaBitsWithoutImplicit).toNat + 1 := by
    change 2048 ≤ (a.exponent + 1023 + 52).toNat + 1
    omega
  have shape : pack Format.binary64 (unpacked a) = pack Format.binary64 (.infinity .positive) := by
    simp only [unpacked, dif_neg some, pack, if_pos top]
  apply eq_of_toBits
  exact congrArg BitVec.toNat shape

theorem magnitude?_infinity : magnitude? infinity = none := rfl

/-- What has no magnitude and is not negative is infinite or no number. -/
theorem eq_infinity (sign : isNegative x = false) (number : x.isNaN = false)
    (none : magnitude? x = none) : x = infinity := by
  have bound := toBits_lt sign
  have top : x.toBits.toNat / 2 ^ 52 % 2048 = 2047 := by
    simp only [magnitude?, Nat.pow_eq] at none
    split at none
    next top => exact top
    · split at none <;> cases none
  have exponent : @unpackExponent Format.binary64 x.toBits.toBitVec = -1#11 :=
    BitVec.eq_of_toNat_eq ((toNat_unpackExponent x.toBits).trans top)
  have mantissa : @unpackMantissa Format.binary64 x.toBits.toBitVec = 0#52 := by
    by_contra some
    have never : x.toModel.unpack = .notANumber := by
      unfold Float.Model.unpack unpack
      change (if @unpackExponent Format.binary64 x.toBits.toBitVec = -1#11 then _ else _) = _
      rw [if_pos exponent]
      change (if @unpackMantissa Format.binary64 x.toBits.toBitVec = 0#52 then _ else _) = _
      rw [if_neg some]
    change x.toModel.unpack.isNaN = false at number
    rw [never] at number
    cases number
  have rest : x.toBits.toNat % 2 ^ 52 = 0 := by
    have : (@unpackMantissa Format.binary64 x.toBits.toBitVec).toNat = 0 := by
      rw [mantissa]
      rfl
    change (x.toBits.toNat >>> 0) % 2 ^ 52 = 0 at this
    exact this
  apply eq_of_toBits
  have bits : infinity.toBits.toNat = 2047 * 2 ^ 52 := rfl
  omega

/-- Packing makes no NaN of what is none. -/
theorem isNaN_packed {u : UnpackedFloat} (number : u.isNaN = false) : (packed u).isNaN = false := by
  change UnpackedFloat.isNaN (unpack Format.binary64 (pack Format.binary64 u)) = false
  have unpacked {s : Sign} {exponent : BitVec 11} {mantissa : BitVec 52}
      (finite : exponent = -1#11 → mantissa = 0#52) :
      UnpackedFloat.isNaN (unpack Format.binary64
        (packComponents Format.binary64 s exponent mantissa)) = false := by
    simp only [unpack, unpackMantissa_packComponents, unpackExponent_packComponents]
    split
    next top => rw [if_pos (finite top)]; rfl
    · split
      · split <;> rfl
      · rfl
  cases u with
  | notANumber => cases number
  | infinity s => exact unpacked fun _ => rfl
  | zero s => exact unpacked fun never => absurd never (by decide)
  | finite s m e positive =>
    simp only [pack]
    split
    · exact unpacked fun _ => rfl
    next below =>
      split
      · refine unpacked fun top => absurd (congrArg BitVec.toNat top) ?_
        have top : (-1#11).toNat = 2047 := rfl
        rw [BitVec.toNat_ofNat, top]
        change ¬ 2048 ≤ (e + 1023 + 52).toNat + 1 at below
        change ¬ (e + 1023 + 52).toNat % 2048 = 2047
        omega
      · exact unpacked fun never => absurd never (by decide)

/-! ### The nearest double -/

/-- The middle between the largest double and the power of two behind it. -/
def limit : ℚ := (2 ^ 53 - 1 / 2) * 2 ^ (971 : Int)

/-- The double stands for the number, which is not negative: no double is nearer; if another one is
as near then this one has the even mantissa; and it is infinite exactly from the limit on. -/
structure Nearest (q : ℚ) (x : Float) : Prop where
  nonneg : 0 ≤ q
  sign : isNegative x = false
  number : x.isNaN = false
  finite : ∀ a, magnitude? x = some a → q < limit ∧ ∀ y b, magnitude? y = some b →
    |q - a.value| ≤ |q - b.value| ∧ (b ≠ a → |q - a.value| = |q - b.value| → a.mantissa % 2 = 0)
  infinite : magnitude? x = none → limit ≤ q

/-- Other whole numbers are farther away, or as far away and odd. -/
theorem NearestNat.compare (nearest : NearestNat s r) {k : Nat} (other : k ≠ r) :
    |s - r| < |s - k| ∨ |s - r| = |s - k| ∧ r % 2 = 0 ∧ k % 2 = 1 := by
  have close := abs_le.mp nearest.close
  have far : 1 / 2 ≤ |s - k| := by
    rcases lt_or_gt_of_ne other with below | above
    · have step : (k : ℚ) + 1 ≤ r := by exact_mod_cast below
      exact le_abs.mpr (.inl (by linarith))
    · have step : (r : ℚ) + 1 ≤ k := by exact_mod_cast above
      exact le_abs.mpr (.inr (by linarith))
  rcases lt_or_eq_of_le (le_trans nearest.close far) with nearer | tie
  · exact .inl nearer
  · have half : |s - r| = 1 / 2 := le_antisymm nearest.close (by rwa [tie])
    have even := nearest.even half
    refine .inr ⟨tie, even, ?_⟩
    by_contra both
    have nearest' : NearestNat s k := ⟨(tie.symm.trans half).le, fun _ => by omega⟩
    exact other (nearest'.unique nearest)

/-- Distances on a grid. -/
theorem distance_eq (q k : ℚ) (t : Int) : |q - k * 2 ^ t| = |q / 2 ^ t - k| * 2 ^ t := by
  have scaled : q - k * 2 ^ t = (q / 2 ^ t - k) * 2 ^ t := by
    rw [sub_mul, div_mul_cancel₀ _ (two_zpow_pos t).ne']
  rw [scaled, abs_mul, abs_of_pos (two_zpow_pos t)]

namespace Rounds

theorem value_carry (r : Nat) (t : Int) : (carry r t).value = r * 2 ^ t := by
  unfold carry Magnitude.value
  split
  next full =>
    rw [full, zpow_add_one₀ (by norm_num)]
    push_cast
    ring
  · rfl

theorem even_carry (even : r % 2 = 0) : (carry r t).mantissa % 2 = 0 := by
  unfold carry
  split
  · change 2 ^ 52 % 2 = 0
    decide
  · exact even

variable (rounds : Rounds q r t)

include rounds

theorem canonical_carry : (carry r t).Canonical := by
  have least := rounds.scale.least
  have normal := rounds.normal
  have le := rounds.le
  unfold carry
  split
  · exact ⟨by norm_num, by dsimp only; omega, .inr (le_refl _)⟩
  next full => exact ⟨by dsimp only; omega, least, normal⟩

theorem lt_limit_of_lt (below : t < 971) : q < limit := by
  have high := rounds.scale.high
  have le : (2 : ℚ) ^ (t + 1) ≤ 2 ^ (971 : Int) := zpow_le_zpow_right₀ (by norm_num) (by omega)
  rw [zpow_add_one₀ (by norm_num) t] at le
  have positive := two_zpow_pos t
  rw [div_lt_iff₀ positive] at high
  unfold limit
  generalize (2 : ℚ) ^ (971 : Int) = steps at le
  linarith

theorem limit_le_of_lt (above : 971 < t) : limit ≤ q := by
  have half : (2 : ℚ) ^ t = 2 ^ (t - 1) * 2 := by
    rw [← zpow_add_one₀ (by norm_num), sub_add_cancel]
  have le : (2 : ℚ) ^ (971 : Int) ≤ 2 ^ (t - 1) := zpow_le_zpow_right₀ (by norm_num) (by omega)
  have low := rounds.scale.low.resolve_left (by omega)
  rw [le_div_iff₀ (two_zpow_pos t)] at low
  unfold limit
  have := two_zpow_pos 971
  generalize (2 : ℚ) ^ (971 : Int) = steps at *
  linarith

/-- On the last grid, only what is rounded up to a mantissa of 54 bits lies beyond the limit. -/
theorem lt_limit_iff_of_eq (last : t = 971) : q < limit ↔ r < 2 ^ 53 := by
  have close := abs_le.mp rounds.nearest.close
  have le := rounds.le
  rw [limit, ← last, ← div_lt_iff₀ (two_zpow_pos t)]
  constructor
  · intro less
    by_contra full
    obtain rfl : r = 2 ^ 53 := by omega
    push_cast at close
    linarith
  · intro small
    by_cases most : r = 2 ^ 53 - 1
    · -- The largest mantissa is odd, so the middle above it is not rounded to it.
      have value : (r : ℚ) = 2 ^ 53 - 1 := by rw [most]; norm_num
      rw [value] at close
      refine lt_of_le_of_ne (by linarith) fun tie => ?_
      have even := rounds.nearest.even (by rw [tie, value]; norm_num)
      omega
    · have less : r + 2 ≤ 2 ^ 53 := by omega
      have less : ((r + 2 : Nat) : ℚ) ≤ ((2 ^ 53 : Nat) : ℚ) := by exact_mod_cast less
      push_cast at less
      linarith

/-- The limit lies where a mantissa of 53 ones is rounded up. -/
theorem lt_limit_iff : q < limit ↔ (carry r t).exponent ≤ 971 := by
  have le := rounds.le
  have exponent : (carry r t).exponent = if r = 2 ^ 53 then t + 1 else t := by
    unfold carry
    split <;> rfl
  rw [exponent]
  rcases lt_trichotomy t 971 with below | last | above
  · refine iff_of_true (rounds.lt_limit_of_lt below) ?_
    split <;> omega
  · rw [rounds.lt_limit_iff_of_eq last]
    split <;> omega
  · refine iff_of_false (not_lt.mpr (rounds.limit_le_of_lt above)) ?_
    split <;> omega

/-- Other doubles are farther away than the point of the grid, or as far away and have odd
mantissas. -/
theorem compare (canonical : b.Canonical) (other : b ≠ carry r t) :
    |q - (carry r t).value| < |q - b.value| ∨
      |q - (carry r t).value| = |q - b.value| ∧
        (carry r t).mantissa % 2 = 0 ∧ b.mantissa % 2 = 1 := by
  have positive := two_zpow_pos t
  rw [value_carry, distance_eq q r t]
  rcases le_or_gt t b.exponent with coarse | fine
  · -- The other double is a point of the grid, too.
    have apart : b.mantissa * 2 ^ (b.exponent - t).toNat ≠ r := by
      intro same
      apply other
      apply canonical.eq_of_value rounds.canonical_carry
      rw [value_carry, Magnitude.value_eq coarse, same]
    rw [Magnitude.value_eq coarse, distance_eq]
    rcases rounds.nearest.compare apart with nearer | ⟨tie, even, odd⟩
    · exact .inl (mul_lt_mul_of_pos_right nearer positive)
    · refine .inr ⟨by rw [tie], even_carry even, ?_⟩
      exact Nat.odd_iff.mp (Nat.odd_mul.mp (Nat.odd_iff.mpr odd)).1
  · -- The other double lies below all points with as many bits as the number.
    left
    have least := canonical.least
    have low := rounds.scale.low.resolve_left (by omega)
    have less : b.value < 2 ^ 52 * 2 ^ t := canonical.value_lt fine
    have near : |q / 2 ^ t - r| ≤ q / 2 ^ t - 2 ^ 52 := by
      by_cases same : r = 2 ^ 52
      · rw [same, Nat.cast_pow, Nat.cast_ofNat, abs_of_nonneg (sub_nonneg.mpr low)]
      · have := rounds.nearest.compare (k := 2 ^ 52) (Ne.symm same)
        rw [Nat.cast_pow, Nat.cast_ofNat, abs_of_nonneg (sub_nonneg.mpr low)] at this
        rcases this with nearer | ⟨tie, _⟩
        · exact nearer.le
        · exact tie.le
    have scaled : q = q / 2 ^ t * 2 ^ t := (div_mul_cancel₀ _ positive.ne').symm
    calc |q / 2 ^ t - r| * 2 ^ t ≤ (q / 2 ^ t - 2 ^ 52) * 2 ^ t :=
          mul_le_mul_of_nonneg_right near positive.le
      _ = q - 2 ^ 52 * 2 ^ t := by rw [sub_mul, ← scaled]
      _ < q - b.value := by linarith
      _ ≤ |q - b.value| := le_abs_self _

/-- A number becomes its nearest double. -/
theorem nearest_packed : Nearest q (packed (unpacked (carry r t))) := by
  have canonical := rounds.canonical_carry
  have number : (packed (unpacked (carry r t))).isNaN = false := by
    apply isNaN_packed
    unfold unpacked
    split <;> rfl
  rcases le_or_gt (carry r t).exponent 971 with finite | beyond
  · have holds := (packed_unpacked (a := carry r t) ⟨canonical, finite⟩).1
    refine ⟨rounds.scale.nonneg, holds.sign, number, fun a magnitude => ?_, fun none => ?_⟩
    · obtain rfl : carry r t = a := Option.some.inj (holds.magnitude.symm.trans magnitude)
      refine ⟨rounds.lt_limit_iff.mpr finite, fun y b magnitude' => ?_⟩
      by_cases same : b = carry r t
      · subst same
        exact ⟨le_refl _, fun other => absurd rfl other⟩
      · rcases rounds.compare (fits_of_magnitude? magnitude').toCanonical same with nearer | tie
        · exact ⟨nearer.le, fun _ tie => absurd tie nearer.ne⟩
        · exact ⟨tie.1.le, fun _ _ => tie.2.1⟩
    · rw [holds.magnitude] at none
      cases none
  · have large : limit ≤ q := not_lt.mp fun less =>
      absurd (rounds.lt_limit_iff.mp less) (not_le.mpr beyond)
    rw [packed_eq_infinity canonical beyond] at number ⊢
    refine ⟨rounds.scale.nonneg, rfl, number, fun a magnitude => ?_, fun _ => large⟩
    rw [magnitude?_infinity] at magnitude
    cases magnitude

theorem nearest_iff : Nearest q x ↔ x = packed (unpacked (carry r t)) := by
  refine ⟨fun nearest => ?_, fun same => same ▸ rounds.nearest_packed⟩
  have canonical := rounds.canonical_carry
  cases magnitude : magnitude? x with
  | none =>
    have large := not_lt.mpr (nearest.infinite magnitude)
    rw [rounds.lt_limit_iff, not_le] at large
    rw [packed_eq_infinity canonical large]
    exact eq_infinity nearest.sign nearest.number magnitude
  | some a =>
    obtain ⟨less, least⟩ := nearest.finite a magnitude
    have holds := (packed_unpacked (a := carry r t) ⟨canonical, rounds.lt_limit_iff.mp less⟩).1
    obtain ⟨le, even⟩ := least _ _ holds.magnitude
    by_cases same : a = carry r t
    · exact Holds.unique ⟨nearest.sign, same ▸ magnitude⟩ holds
    · -- Two neighbours at the same distance do not both have even mantissas.
      rcases rounds.compare (fits_of_magnitude? magnitude).toCanonical same with nearer | tie
      · exact absurd le (not_le.mpr nearer)
      · have := even (Ne.symm same) tie.1.symm
        have := tie.2.2
        omega

end Rounds

/-- A number has one nearest double. -/
theorem Nearest.unique (nearest : Nearest q x) (nearest' : Nearest q y) : x = y := by
  obtain ⟨r, t, rounds⟩ := exists_rounds nearest.nonneg
  rw [rounds.nearest_iff.mp nearest, rounds.nearest_iff.mp nearest']

theorem exists_nearest (nonneg : 0 ≤ q) : ∃ x, Nearest q x := by
  obtain ⟨r, t, rounds⟩ := exists_rounds nonneg
  exact ⟨_, rounds.nearest_packed⟩

end ScriptEngine.Binary64
