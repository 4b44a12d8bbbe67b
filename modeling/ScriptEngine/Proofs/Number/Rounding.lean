import Mathlib
import ScriptEngine.Proofs.Number.Doubles

/-!
# Rounding to the nearest double

`Rounds q r t` says that `r * 2 ^ t` is the number next to `q` on the grid that the doubles around
`q` form, and the even one if two are equally near. Every number that is not negative rounds in
exactly one way (`exists_rounds`, `Rounds.unique`).

Main result: the algorithm that ends every operation on doubles, which shifts a mantissa with a
round bit and a sticky bit behind it, comes out at that number, if it is given enough bits
(`roundWithAccuracy_eq`).
-/
namespace ScriptEngine.Binary64

open Float.Model (Format UnpackedFloat totalExponent)
open Float.Model.UnpackedFloat

variable {q s : ℚ} {r r' m : Nat} {t t' e : Int}

/-! ### The grid around a number -/

/-- The grid of the doubles around a number has the steps `2 ^ t`: there are 53 bits in front of the
point, or fewer if the steps are the smallest that doubles can have. -/
structure Scale (q : ℚ) (t : Int) : Prop where
  nonneg : 0 ≤ q
  least : -1074 ≤ t
  low : t = -1074 ∨ 2 ^ 52 ≤ q / 2 ^ t
  high : q / 2 ^ t < 2 ^ 53

/-- The natural number is nearest to the given one; of two such it is the even one. -/
structure NearestNat (s : ℚ) (r : Nat) : Prop where
  close : |s - r| ≤ 1 / 2
  even : |s - r| = 1 / 2 → r % 2 = 0

/-- On the grid around `q`, its nearest point is the one with the number `r`. -/
structure Rounds (q : ℚ) (r : Nat) (t : Int) : Prop where
  scale : Scale q t
  nearest : NearestNat (q / 2 ^ t) r

theorem two_zpow_pos (t : Int) : (0 : ℚ) < 2 ^ t := by positivity

/-- A grid with larger steps puts a number closer to the origin. -/
theorem div_zpow_succ (q : ℚ) (t : Int) : q / 2 ^ t = 2 * (q / 2 ^ (t + 1)) := by
  rw [zpow_add_one₀ (by norm_num)]
  field_simp

theorem div_zpow_le (nonneg : 0 ≤ q) (le : t ≤ t') : q / 2 ^ t' ≤ q / 2 ^ t := by
  have steps : (2 : ℚ) ^ t ≤ 2 ^ t' := zpow_le_zpow_right₀ (by norm_num) le
  exact div_le_div_of_nonneg_left nonneg (two_zpow_pos t) steps

namespace Scale

/-- Larger steps than the smallest ones are only used where smaller ones would need more bits. -/
theorem not_lt (scale : Scale q t) (scale' : Scale q t') : ¬ t < t' := by
  intro less
  have least := scale.least
  have bits := scale'.low.resolve_left (by omega)
  have finer : q / 2 ^ (t' - 1) ≤ q / 2 ^ t := div_zpow_le scale.nonneg (by omega)
  have twice := div_zpow_succ q (t' - 1)
  rw [Int.sub_add_cancel] at twice
  have high := scale.high
  linarith

theorem unique (scale : Scale q t) (scale' : Scale q t') : t = t' := by
  have := scale.not_lt scale'
  have := scale'.not_lt scale
  omega

end Scale

theorem exists_scale (nonneg : 0 ≤ q) : ∃ t, Scale q t := by
  have smallest {q : ℚ} (nonneg : 0 ≤ q) (small : q < 2 ^ (-1021 : Int)) : Scale q (-1074) := by
    refine ⟨nonneg, le_refl _, .inl rfl, ?_⟩
    have room : (2 : ℚ) ^ (53 : Int) * 2 ^ (-1074 : Int) = 2 ^ (-1021 : Int) := by
      rw [← zpow_add₀ (by norm_num)]
      rfl
    rw [div_lt_iff₀ (two_zpow_pos _)]
    exact lt_of_lt_of_eq small (by exact_mod_cast room.symm)
  by_cases small : q < 2 ^ (-1021 : Int)
  · exact ⟨-1074, smallest nonneg small⟩
  · -- The highest bit of the number decides.
    have positive : 0 < q := lt_of_lt_of_le (two_zpow_pos _) (not_lt.mp small)
    obtain ⟨n, low, high⟩ := exists_mem_Ico_zpow positive (y := 2) (by norm_num)
    have large : -1021 ≤ n := by
      by_contra less
      have : (2 : ℚ) ^ (n + 1) ≤ 2 ^ (-1021 : Int) :=
        zpow_le_zpow_right₀ (by norm_num) (by omega)
      exact small (lt_of_lt_of_le high this)
    have split (k : Int) : (2 : ℚ) ^ k * 2 ^ (n - 52) = 2 ^ (n - 52 + k) := by
      rw [← zpow_add₀ (by norm_num), add_comm]
    refine ⟨n - 52, nonneg, by omega, .inr ?_, ?_⟩
    · rw [le_div_iff₀ (two_zpow_pos _)]
      have := split 52
      rw [Int.sub_add_cancel] at this
      exact le_of_eq_of_le (by exact_mod_cast this) low
    · rw [div_lt_iff₀ (two_zpow_pos _)]
      have := split 53
      rw [show n - 52 + 53 = n + 1 by ring] at this
      exact lt_of_lt_of_eq high (by exact_mod_cast this.symm)

namespace NearestNat

theorem unique (nearest : NearestNat s r) (nearest' : NearestNat s r') : r = r' := by
  have close := abs_le.mp nearest.close
  have close' := abs_le.mp nearest'.close
  -- Two nearest numbers would be neighbours, both half a step away and both even.
  have apart : ¬ r < r' ∧ ¬ r' < r := by
    constructor
    · intro less
      have step : (r : ℚ) + 1 ≤ r' := by exact_mod_cast less
      have even := nearest.even (by rw [abs_of_nonneg (by linarith)]; linarith)
      have even' := nearest'.even (by rw [abs_of_nonpos (by linarith)]; linarith)
      have next : (r' : ℚ) ≤ r + 1 := by linarith
      have next : r' ≤ r + 1 := by exact_mod_cast next
      omega
    · intro less
      have step : (r' : ℚ) + 1 ≤ r := by exact_mod_cast less
      have even := nearest.even (by rw [abs_of_nonpos (by linarith)]; linarith)
      have even' := nearest'.even (by rw [abs_of_nonneg (by linarith)]; linarith)
      have next : (r : ℚ) ≤ r' + 1 := by linarith
      have next : r ≤ r' + 1 := by exact_mod_cast next
      omega
  omega

/-- A whole number is its own nearest number. -/
theorem whole (r : Nat) : NearestNat (r : ℚ) r := by
  constructor
  · simp
  · intro half
    norm_num at half

end NearestNat

theorem exists_nearestNat (nonneg : 0 ≤ s) : ∃ r, NearestNat s r := by
  have low := Nat.floor_le nonneg
  have high := Nat.lt_floor_add_one s
  rcases lt_trichotomy (s - ⌊s⌋₊) (1 / 2) with below | half | above
  · refine ⟨⌊s⌋₊, ?_, fun tie => ?_⟩
    · rw [abs_of_nonneg (by linarith)]
      linarith
    · rw [abs_of_nonneg (by linarith)] at tie
      linarith
  · by_cases even : ⌊s⌋₊ % 2 = 0
    · refine ⟨⌊s⌋₊, ?_, fun _ => even⟩
      rw [half]
      norm_num
    · refine ⟨⌊s⌋₊ + 1, ?_, fun _ => by omega⟩
      rw [abs_of_nonpos] <;> push_cast <;> linarith
  · refine ⟨⌊s⌋₊ + 1, ?_, fun tie => ?_⟩
    · rw [abs_of_nonpos] <;> push_cast <;> linarith
    · rw [abs_of_nonpos] at tie <;> push_cast at tie ⊢ <;> linarith

theorem exists_rounds (nonneg : 0 ≤ q) : ∃ r t, Rounds q r t := by
  obtain ⟨t, scale⟩ := exists_scale nonneg
  obtain ⟨r, nearest⟩ := exists_nearestNat (div_nonneg nonneg (two_zpow_pos t).le)
  exact ⟨r, t, scale, nearest⟩

namespace Rounds

theorem unique (rounds : Rounds q r t) (rounds' : Rounds q r' t') : r = r' ∧ t = t' := by
  obtain rfl := rounds.scale.unique rounds'.scale
  exact ⟨rounds.nearest.unique rounds'.nearest, rfl⟩

/-- A number that is rounded up to more than 53 bits is rounded up to the next power of two. -/
theorem le (rounds : Rounds q r t) : r ≤ 2 ^ 53 := by
  have close := abs_le.mp rounds.nearest.close
  have high := rounds.scale.high
  have bound : (r : ℚ) < ((2 ^ 53 + 1 : Nat) : ℚ) := by
    push_cast
    linarith
  have bound : r < 2 ^ 53 + 1 := by exact_mod_cast bound
  omega

/-- The mantissa keeps its highest bit, unless the steps are the smallest ones. -/
theorem normal (rounds : Rounds q r t) : t = -1074 ∨ 2 ^ 52 ≤ r := by
  rcases rounds.scale.low with least | low
  · exact .inl least
  · right
    have close := abs_le.mp rounds.nearest.close
    have bound : ((2 ^ 52 : Nat) : ℚ) < ((r + 1 : Nat) : ℚ) := by
      push_cast
      linarith
    have bound : 2 ^ 52 < r + 1 := by exact_mod_cast bound
    omega

end Rounds

/-! ### Bits behind a mantissa -/

/-- What a mantissa says of a number, together with the bit behind it and whether there is anything
behind that bit. -/
def Represents (em : ExtendedMantissa) (s : ℚ) : Prop :=
  match em.roundBit, em.stickyBit with
  | false, false => s = em.mantissa
  | false, true => em.mantissa < s ∧ s < em.mantissa + 1 / 2
  | true, false => s = em.mantissa + 1 / 2
  | true, true => em.mantissa + 1 / 2 < s ∧ s < em.mantissa + 1

namespace Represents

variable {em : ExtendedMantissa}

theorem exact (m : Nat) :
    Represents (ExtendedMantissa.ofMantissaAndAccuracy m .exact) (m : ℚ) := rfl

theorem low (represents : Represents em s) : (em.mantissa : ℚ) ≤ s := by
  rcases em with ⟨m, _ | _, _ | _⟩ <;> simp only [Represents] at represents ⊢ <;> linarith

theorem high (represents : Represents em s) : s < em.mantissa + 1 := by
  rcases em with ⟨m, _ | _, _ | _⟩ <;> simp only [Represents] at represents ⊢ <;> linarith

/-- What is shifted out of the mantissa is remembered. -/
theorem shiftRightOne (represents : Represents em s) : Represents em.shiftRightOne (s / 2) := by
  rcases em with ⟨m, first, later⟩
  have halves : (m : ℚ) = 2 * (m / 2 : Nat) + (m % 2 : Nat) := by
    exact_mod_cast (Nat.div_add_mod m 2).symm
  rcases Nat.mod_two_eq_zero_or_one m with bit | bit <;> rw [bit] at halves <;>
    cases first <;> cases later <;>
      simp [Represents, ExtendedMantissa.shiftRightOne, bit] at represents halves ⊢ <;>
      first
        | linarith
        | constructor <;> linarith

theorem shiftRight (represents : Represents em s) (places : Nat) :
    Represents (em >>> places) (s / 2 ^ places) := by
  induction places with
  | zero =>
    rw [pow_zero, div_one]
    exact represents
  | succ places ih =>
    rw [pow_succ, ← div_div]
    exact shiftRightOne ih

/-- The rounded mantissa is the nearest whole number. -/
theorem rounded (represents : Represents em s) : NearestNat s em.roundedMantissa := by
  rcases em with ⟨m, _ | _, _ | _⟩ <;> simp only [Represents] at represents
  · subst represents
    exact .whole m
  · constructor
    · change |s - (m : ℚ)| ≤ 1 / 2
      rw [abs_of_nonneg] <;> linarith
    · intro tie
      change |s - (m : ℚ)| = 1 / 2 at tie
      rw [abs_of_nonneg] at tie <;> linarith
  · -- Half way, the last bit of the mantissa is added.
    have parity : ((m + m % 2 : Nat) : ℚ) = m + (m % 2 : Nat) := by push_cast; rfl
    refine ⟨?_, fun _ => show (m + m % 2) % 2 = 0 by omega⟩
    change |s - ((m + m % 2 : Nat) : ℚ)| ≤ 1 / 2
    rw [parity, represents]
    rcases Nat.mod_two_eq_zero_or_one m with bit | bit <;> rw [bit] <;> norm_num
  · have next : ((m + 1 : Nat) : ℚ) = m + 1 := by push_cast; rfl
    constructor
    · change |s - ((m + 1 : Nat) : ℚ)| ≤ 1 / 2
      rw [next, abs_of_nonpos] <;> linarith
    · intro tie
      change |s - ((m + 1 : Nat) : ℚ)| = 1 / 2 at tie
      rw [next, abs_of_nonpos] at tie <;> linarith

end Represents

/-! ### The algorithm -/

/-- A magnitude as a value of the model of doubles. -/
def unpacked (a : Magnitude) : UnpackedFloat :=
  if nonzero : a.mantissa = 0 then .zero .positive
  else .finite .positive a.mantissa a.exponent (Nat.pos_of_ne_zero nonzero)

/-- A mantissa that has grown by a bit loses its last one, which is a zero. -/
def carry (r : Nat) (t : Int) : Magnitude := if r = 2 ^ 53 then ⟨2 ^ 52, t + 1⟩ else ⟨r, t⟩

/-- What the first shift leaves is on the grid around the number. -/
theorem scale_of_represents {em : ExtendedMantissa} (mantissa : em.mantissa = m)
    (represents : Represents em (q / 2 ^ e))
    (enough : e ≤ Format.binary64.targetExponent (totalExponent m e)) :
    Scale q (Format.binary64.targetExponent (totalExponent m e)) := by
  have target : Format.binary64.targetExponent (totalExponent m e) =
      max ((m.log2 : Int) + e - 52) (-1074) := by
    simp only [Format.targetExponent, totalExponent, Format.mantissaBits, Format.minExponent]
    omega
  rw [target] at enough ⊢
  have low := represents.low
  have high := represents.high
  rw [mantissa] at low high
  have nonneg : 0 ≤ q := by
    have : (0 : ℚ) ≤ q / 2 ^ e := le_trans (Nat.cast_nonneg m) low
    rwa [le_div_iff₀ (two_zpow_pos e), zero_mul] at this
  -- The highest bit of the number is that of the mantissa.
  have below : q / 2 ^ e < 2 ^ (m.log2 + 1) := by
    have : m + 1 ≤ 2 ^ (m.log2 + 1) := Nat.lt_log2_self
    have : ((m + 1 : Nat) : ℚ) ≤ ((2 ^ (m.log2 + 1) : Nat) : ℚ) := by exact_mod_cast this
    push_cast at this
    linarith
  have shifted (k : Int) : q / 2 ^ (e + k) = q / 2 ^ e / 2 ^ k := by
    rw [zpow_add₀ (by norm_num), div_div]
  refine ⟨nonneg, le_max_right _ _, ?_, ?_⟩
  · by_cases least : (m.log2 : Int) + e - 52 ≤ -1074
    · exact .inl (max_eq_right least)
    · right
      rw [max_eq_left (by omega)] at enough ⊢
      have some : m ≠ 0 := by
        rintro rfl
        simp at enough
      have above : ((2 ^ m.log2 : Nat) : ℚ) ≤ m := by exact_mod_cast Nat.log2_self_le some
      have power : (2 : ℚ) ^ 52 * 2 ^ ((m.log2 : Int) - 52) = 2 ^ m.log2 := by
        have : (2 : ℚ) ^ (52 : Int) * 2 ^ ((m.log2 : Int) - 52) = 2 ^ (m.log2 : Int) := by
          rw [← zpow_add₀ (by norm_num)]
          congr 1
          omega
        exact_mod_cast this
      rw [show (m.log2 : Int) + e - 52 = e + ((m.log2 : Int) - 52) by ring, shifted,
        le_div_iff₀ (two_zpow_pos _), power]
      push_cast at above
      linarith
  · have room : q / 2 ^ (e + ((m.log2 : Int) - 52)) < 2 ^ 53 := by
      rw [shifted, div_lt_iff₀ (two_zpow_pos _)]
      have : (2 : ℚ) ^ (53 : Int) * 2 ^ ((m.log2 : Int) - 52) = 2 ^ ((m.log2 + 1 : Nat) : Int) := by
        rw [← zpow_add₀ (by norm_num)]
        congr 1
        push_cast
        ring
      exact lt_of_lt_of_eq below (by exact_mod_cast this.symm)
    exact lt_of_le_of_lt (div_zpow_le nonneg (by omega)) room

/-- The second shift takes the bit away that rounding up may have added, and nothing else. -/
theorem secondShift (le : r ≤ 2 ^ 53) (least : -1074 ≤ t) :
    let shifted := shiftToTargetExponent Format.binary64 r t .exact
    (if nonzero : shifted.1.mantissa = 0 then UnpackedFloat.zero .positive
      else .finite .positive shifted.1.mantissa shifted.2 (Nat.pos_of_ne_zero nonzero)) =
      unpacked (carry r t) := by
  have target : Format.binary64.targetExponent (totalExponent r t) =
      max ((r.log2 : Int) + t - 52) (-1074) := by
    simp only [Format.targetExponent, totalExponent, Format.mantissaBits, Format.minExponent]
    omega
  by_cases full : r = 2 ^ 53
  · subst full
    have places : ((max (((2 ^ 53 : Nat).log2 : Int) + t - 52) (-1074)) - t).toNat = 1 := by
      rw [Nat.log2_two_pow]
      omega
    simp only [shiftToTargetExponent, target, shiftToExponent, places]
    rfl
  · have small : r.log2 ≤ 52 := by
      rcases Nat.eq_zero_or_pos r with rfl | positive
      · simp
      · have : r.log2 < 53 := (Nat.log2_lt (Nat.ne_of_gt positive)).2 (by omega)
        omega
    have places : ((max ((r.log2 : Int) + t - 52) (-1074)) - t).toNat = 0 := by omega
    simp only [shiftToTargetExponent, target, shiftToExponent, places, carry, if_neg full, unpacked,
      Int.natCast_zero, Int.add_zero]
    rfl

/-- Rounding ends at the nearest point of the grid, if the mantissa has at least the bits of a
double. -/
theorem roundWithAccuracy_eq {accuracy : Accuracy} (rounds : Rounds q r t)
    (represents : Represents (.ofMantissaAndAccuracy m accuracy) (q / 2 ^ e))
    (enough : e ≤ Format.binary64.targetExponent (totalExponent m e)) :
    roundWithAccuracy Format.binary64 .positive m e accuracy = unpacked (carry r t) := by
  have mantissa : (ExtendedMantissa.ofMantissaAndAccuracy m accuracy).mantissa = m := by
    rcases accuracy with _ | _ | _ | _ <;> rfl
  have scale := scale_of_represents mantissa represents enough
  obtain rfl := rounds.scale.unique scale
  generalize eq : Format.binary64.targetExponent (totalExponent m e) = t at *
  have first : shiftToTargetExponent Format.binary64 m e accuracy =
      (ExtendedMantissa.ofMantissaAndAccuracy m accuracy >>> (t - e).toNat, t) := by
    simp only [shiftToTargetExponent, eq, shiftToExponent, Int.toNat_of_nonneg (sub_nonneg.mpr enough)]
    congr 1
    omega
  have shifted := represents.shiftRight (t - e).toNat
  have place : q / 2 ^ e / 2 ^ (t - e).toNat = q / 2 ^ t := by
    rw [← zpow_natCast, Int.toNat_of_nonneg (sub_nonneg.mpr enough), div_div,
      ← zpow_add₀ (by norm_num), add_sub_cancel]
  rw [place] at shifted
  have rounded := shifted.rounded.unique rounds.nearest
  rw [roundWithAccuracy, first]
  simp only [rounded]
  exact secondShift rounds.le rounds.scale.least

end ScriptEngine.Binary64
