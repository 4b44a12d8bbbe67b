import Mathlib
import ScriptEngine.Number.Text
import ScriptEngine.Proofs.Number.Arithmetic

/-!
# Hexadecimal digits read one by one

A number of hexadecimal digits can be computed in doubles, digit by digit: what has been read is
multiplied by sixteen and the next digit is added. As long as the number has at most 53 bits that is
exact. The digit with which it first has more is rounded away, and all later digits are too small to
change anything but the exponent (`Reads.next`). So the result is not always the nearest double: if
the digits up to that place lie in the middle between two doubles, the later ones should decide and
do not.

Main result: the digits give the nearest double of their number unless it is `DecidedLate`
(`nearest_hexFloat_iff`).
-/
namespace ScriptEngine.Binary64

open Number (hexFloat)

variable {q : ℚ} {x : Float} {a : Magnitude} {n r : Nat} {t : Int}

/-- The number lies in the middle between two neighbouring doubles, and the lower one is even. -/
def Halfway (n : Nat) : Prop :=
  ∃ m k, 2 ^ 52 ≤ m ∧ m < 2 ^ 53 ∧ m % 2 = 0 ∧ n = (2 * m + 1) * 2 ^ k

/-- Up to some hexadecimal digit the number lies in the middle between two doubles, and a later
digit puts it above the middle. Beyond the largest double that makes no difference. -/
def DecidedLate (n : Nat) : Prop :=
  n < 2 ^ 1024 ∧ ∃ places, Halfway (n / 16 ^ places) ∧ n % 16 ^ places ≠ 0

/-! ### One more digit -/

/-- A little more than a double is rounded down to it. -/
theorem Magnitude.Canonical.rounds (canonical : a.Canonical) {more : ℚ} (nonneg : 0 ≤ more)
    (little : more * 2 < 2 ^ a.exponent) : Rounds (a.value + more) a.mantissa a.exponent := by
  have positive := two_zpow_pos a.exponent
  have place : (a.value + more) / 2 ^ a.exponent = a.mantissa + more / 2 ^ a.exponent := by
    rw [Magnitude.value, add_div, mul_div_cancel_right₀ _ positive.ne']
  have above : 0 ≤ more / 2 ^ a.exponent := div_nonneg nonneg positive.le
  have below : more / 2 ^ a.exponent < 1 / 2 := by
    rw [div_lt_iff₀ positive]
    linarith
  have small : ((a.mantissa + 1 : Nat) : ℚ) ≤ ((2 ^ 53 : Nat) : ℚ) := by
    exact_mod_cast canonical.small
  push_cast at small
  have distance : |a.mantissa + more / 2 ^ a.exponent - a.mantissa| = more / 2 ^ a.exponent := by
    rw [add_sub_cancel_left, abs_of_nonneg above]
  constructor
  · refine ⟨add_nonneg a.value_nonneg nonneg, canonical.least, ?_, ?_⟩
    · rw [place]
      refine canonical.normal.imp_right fun full => ?_
      have full : ((2 ^ 52 : Nat) : ℚ) ≤ a.mantissa := by exact_mod_cast full
      push_cast at full
      linarith
    · rw [place]
      linarith
  · rw [place]
    constructor
    · rw [distance]
      exact below.le
    · intro tie
      rw [distance] at tie
      exact absurd tie below.ne

theorem Magnitude.Canonical.carry_eq (canonical : a.Canonical) :
    carry a.mantissa a.exponent = a := if_neg canonical.small.ne

/-- A little more than a double is that double. -/
theorem Magnitude.Canonical.nearest_iff (canonical : a.Canonical) {more : ℚ} (nonneg : 0 ≤ more)
    (little : more * 2 < 2 ^ a.exponent) :
    Nearest (a.value + more) x ↔ x = packed (unpacked a) := by
  rw [(canonical.rounds nonneg little).nearest_iff, canonical.carry_eq]

theorem Magnitude.Canonical.shift (canonical : a.Canonical) (large : 0 < a.exponent) {k : Int}
    (nonneg : 0 ≤ k) : Magnitude.Canonical ⟨a.mantissa, a.exponent + k⟩ :=
  ⟨canonical.small, by dsimp only; omega, .inr (canonical.normal.resolve_left (by omega))⟩

theorem carry_add (r : Nat) (t k : Int) :
    carry r (t + k) = ⟨(carry r t).mantissa, (carry r t).exponent + k⟩ := by
  unfold carry
  split
  · congr 1
    ring
  · rfl

theorem le_carry (r : Nat) (t : Int) : t ≤ (carry r t).exponent := by
  unfold carry
  split
  · exact (Int.lt_succ t).le
  · exact le_refl t

/-- One round of the reader, where the double has so large an exponent that digits do not count. -/
theorem next_large {digit : Nat} (canonical : a.Canonical) (large : 0 < a.exponent)
    (hex : digit < 16) :
    packed (unpacked a) * 16.0 + Float.ofNat digit =
      packed (unpacked ⟨a.mantissa, a.exponent + 4⟩) := by
  have added : Exact (Float.ofNat digit) digit := exact_ofNat (by omega)
  have canonical' := canonical.shift large (k := 4) (by norm_num)
  have times : Magnitude.value ⟨a.mantissa, a.exponent + 4⟩ = a.value * 16 := by
    rw [Magnitude.value, Magnitude.value, zpow_add₀ (by norm_num), mul_assoc]
    norm_num
  have infinite : infinity * 16.0 = infinity := Exact.sixteen.infinity_mul (by norm_num)
  rcases le_or_gt a.exponent 971 with finite | beyond
  · have product := (Exact.of_fits ⟨canonical, finite⟩).mul Exact.sixteen
    rw [← times, ← add_zero (Magnitude.value _),
      canonical'.nearest_iff le_rfl (by rw [zero_mul]; exact two_zpow_pos _)] at product
    rw [product]
    rcases le_or_gt (a.exponent + 4) 971 with finite' | beyond'
    · -- A digit is less than half a step of the grid.
      have sum := (Exact.of_fits (a := ⟨a.mantissa, a.exponent + 4⟩) ⟨canonical', finite'⟩).add added
      rwa [canonical'.nearest_iff (Nat.cast_nonneg digit)] at sum
      have step : (2 : ℚ) ^ (5 : Int) ≤ 2 ^ (a.exponent + 4) :=
        zpow_le_zpow_right₀ (by norm_num) (by omega)
      have most : ((digit + 1 : Nat) : ℚ) ≤ ((16 : Nat) : ℚ) := by exact_mod_cast hex
      push_cast at most
      calc (digit : ℚ) * 2 < 2 ^ (5 : Int) := by norm_num; linarith
        _ ≤ 2 ^ (a.exponent + 4) := step
    · rw [packed_eq_infinity canonical' beyond', added.infinity_add]
  · rw [packed_eq_infinity canonical beyond, infinite, added.infinity_add]
    exact (packed_eq_infinity canonical' (by dsimp only; omega)).symm

/-- What the reader has when the digits read so far make up `n`: the number itself, as long as it
has few bits; afterwards the rounded digits up to the first place at which it had too many. -/
inductive Reads (n : Nat) (x : Float) : Prop where
  | exactly (small : n < 2 ^ 53) (exact : Exact x n)
  | rounded {r places : Nat} {t : Int} (low : 2 ^ 53 ≤ n / 16 ^ places)
    (high : n / 16 ^ places < 2 ^ 57) (rounds : Rounds (n / 16 ^ places : Nat) r t)
    (same : x = packed (unpacked (carry r (t + 4 * places))))

/-- Numbers of more than 53 bits are rounded. -/
theorem Rounds.scale_pos (rounds : Rounds n r t) (low : 2 ^ 53 ≤ n) : 0 < t := by
  by_contra small
  have high := rounds.scale.high
  have above : (n : ℚ) / 2 ^ (0 : Int) ≤ n / 2 ^ t := div_zpow_le (Nat.cast_nonneg n) (by omega)
  have low : ((2 ^ 53 : Nat) : ℚ) ≤ n := by exact_mod_cast low
  push_cast at low
  rw [zpow_zero, div_one] at above
  linarith

/-- The rounded digits with more digits behind them. -/
theorem Rounds.canonical_shift (rounds : Rounds n r t) (low : 2 ^ 53 ≤ n) {k : Int}
    (nonneg : 0 ≤ k) : (carry r (t + k)).Canonical := by
  have positive := rounds.scale_pos low
  rw [carry_add]
  exact rounds.canonical_carry.shift (lt_of_lt_of_le positive (le_carry r t)) nonneg

/-- What the reader has is kept by one more digit. -/
theorem Reads.next {digit : Nat} (reads : Reads n x) (hex : digit < 16) :
    Reads (n * 16 + digit) (x * 16.0 + Float.ofNat digit) := by
  cases reads with
  -- Sixteen times a number of few bits is a double, so only the sum can be rounded.
  | exactly small exact =>
    have product := exact.mul Exact.sixteen
    have added : Exact (Float.ofNat digit) digit := exact_ofNat (by omega)
    obtain ⟨a, fits, value⟩ := exists_fits small (k := 4) (by norm_num)
    have times : (n : ℚ) * 16 = a.value := by
      rw [value]
      norm_num
    rw [times] at product
    have sum := (product.exact fits).add added
    rw [← times] at sum
    have whole : (n : ℚ) * 16 + digit = ((n * 16 + digit : Nat) : ℚ) := by push_cast; rfl
    rw [whole] at sum
    by_cases small' : n * 16 + digit < 2 ^ 53
    · exact .exactly small' (sum.exact_nat small')
    · obtain ⟨r, t, rounds⟩ := exists_rounds sum.nonneg
      have first : (n * 16 + digit) / 16 ^ 0 = n * 16 + digit := by rw [pow_zero, Nat.div_one]
      refine @Reads.rounded _ _ r 0 t ?_ ?_ ?_ ?_
      · omega
      · omega
      · rwa [first]
      · rw [rounds.nearest_iff] at sum
        simpa using sum
  -- Once something was rounded away, a digit is less than half of a step and goes unnoticed.
  | @rounded r places t low high rounds same =>
    have later : (n * 16 + digit) / 16 ^ (places + 1) = n / 16 ^ places := by
      rw [pow_succ', ← Nat.div_div_eq_div_mul]
      congr 1
      omega
    have positive := rounds.scale_pos low
    have canonical := rounds.canonical_shift low (k := 4 * places) (by omega)
    have large : 0 < (carry r (t + 4 * places)).exponent :=
      lt_of_lt_of_le (by omega) (le_carry r (t + 4 * places))
    have shifted : t + 4 * ((places + 1 : Nat) : Int) = t + 4 * places + 4 := by push_cast; ring
    refine .rounded (r := r) (t := t) (by rwa [later]) (by rwa [later]) (by rwa [later]) ?_
    rw [same, next_large canonical large hex, shifted, carry_add r (t + 4 * places) 4]

theorem hexDigit?_bounds {c : Char} {digit : Nat} (hex : Text.hexDigit? c = some digit) :
    digit < 16 ∧ 48 ≤ c.toNat ∧ c.toNat ≤ 102 := by
  have bounds {first last : Char} (range : first ≤ c ∧ c ≤ last) :
      first.toNat ≤ c.toNat ∧ c.toNat ≤ last.toNat := range
  unfold Text.hexDigit? at hex
  split at hex
  next range =>
    obtain ⟨least, most⟩ : 48 ≤ c.toNat ∧ c.toNat ≤ 57 := bounds range
    obtain rfl : c.toNat - 48 = digit := Option.some.inj hex
    omega
  · split at hex
    next range =>
      obtain ⟨least, most⟩ : 97 ≤ c.toNat ∧ c.toNat ≤ 102 := bounds range
      obtain rfl : c.toNat - 97 + 10 = digit := Option.some.inj hex
      omega
    · split at hex
      next range =>
        obtain ⟨least, most⟩ : 65 ≤ c.toNat ∧ c.toNat ≤ 70 := bounds range
        obtain rfl : c.toNat - 65 + 10 = digit := Option.some.inj hex
        omega
      · cases hex

theorem hexDigit_lt (c : Char) : (Text.hexDigit? c).getD 0 < 16 := by
  cases hex : Text.hexDigit? c with
  | none => decide
  | some digit => exact (hexDigit?_bounds hex).1

theorem reads_hexFloat (digits : List Char) :
    Reads (Text.ofHexDigits digits) (hexFloat digits) := by
  induction digits using List.reverseRecOn with
  | nil =>
    have zero : Exact 0.0 ((0 : Nat) : ℚ) := by
      rw [Nat.cast_zero]
      exact Exact.zero
    exact .exactly (by decide) zero
  | append_singleton digits c ih =>
    have next := ih.next (hexDigit_lt c)
    rw [Text.ofHexDigits, hexFloat, List.foldl_concat, List.foldl_concat]
    exact next

/-- The result is the nearest double of some number, if not always of the right one. -/
theorem exists_nearest_hexFloat (digits : List Char) : ∃ p, Nearest p (hexFloat digits) := by
  cases reads_hexFloat digits with
  | exactly small exact => exact ⟨_, exact.nearest⟩
  | @rounded r places t low high rounds same =>
    have canonical := rounds.canonical_shift low (k := 4 * places) (by omega)
    refine ⟨_, (canonical.nearest_iff le_rfl ?_).mpr same⟩
    rw [zero_mul]
    exact two_zpow_pos _

/-! ### Digits that come too late -/

namespace NearestNat

variable {k : Nat} {part : ℚ}

theorem down (nonneg : 0 ≤ part) (low : part < 1 / 2) : NearestNat (k + part) k := by
  have distance : |(k + part : ℚ) - k| = part := by
    rw [add_sub_cancel_left, abs_of_nonneg nonneg]
  constructor
  · rw [distance]
    exact low.le
  · intro tie
    rw [distance] at tie
    exact absurd tie low.ne

theorem up (high : 1 / 2 < part) (next : part < 1) : NearestNat (k + part) (k + 1) := by
  have distance : |(k + part : ℚ) - (k + 1 : Nat)| = 1 - part := by
    push_cast
    rw [abs_of_nonpos (by linarith)]
    ring
  constructor
  · rw [distance]
    linarith
  · intro tie
    rw [distance] at tie
    linarith

theorem middle : NearestNat (k + 1 / 2) (k + k % 2) := by
  have represents : Represents ⟨k, true, false⟩ ((k : ℚ) + 1 / 2) := rfl
  exact represents.rounded

section

variable {f unit : Nat} {δ : ℚ} (nonneg : 0 ≤ δ) (below : δ < 1)

include below

/-- Whatever is behind the middle makes it round up. -/
theorem late (half : 2 * f = unit) (some : 0 < δ) (few : 1 < unit) :
    NearestNat (k + (f + δ) / unit) (k + 1) := by
  have half : 2 * (f : ℚ) = unit := by exact_mod_cast half
  have few : ((2 : Nat) : ℚ) ≤ unit := by exact_mod_cast few
  push_cast at few
  apply up
  · rw [lt_div_iff₀ (by linarith)]
    linarith
  · rw [div_lt_one (by linarith)]
    linarith

include nonneg

/-- Away from the middle, and in the middle behind an odd number, less than one more of the units
that are rounded away changes nothing. -/
theorem more (even : unit % 2 = 0) (less : f < unit) (nearest : NearestNat (k + f / unit) r)
    (other : ¬ (2 * f = unit ∧ k % 2 = 0 ∧ δ ≠ 0)) : NearestNat (k + (f + δ) / unit) r := by
  have positive : 0 < unit := by omega
  have positive : (0 : ℚ) < unit := by exact_mod_cast positive
  have part : (0 : ℚ) ≤ f / unit := by positivity
  have part' : 0 ≤ (f + δ) / unit := by positivity
  have next : ((f + 1 : Nat) : ℚ) ≤ unit := by exact_mod_cast less
  push_cast at next
  rcases lt_trichotomy (2 * f) unit with low | half | high
  · -- The units are as many as a power of two, so there is room for one of them.
    have room : 2 * (f + 1) ≤ unit := by omega
    have room : ((2 * (f + 1) : Nat) : ℚ) ≤ unit := by exact_mod_cast room
    push_cast at room
    have down' : NearestNat (k + f / unit) k := down part (by rw [div_lt_iff₀ positive]; linarith)
    rw [nearest.unique down']
    exact down part' (by rw [div_lt_iff₀ positive]; linarith)
  · by_cases none : δ = 0
    · rwa [none, add_zero]
    · have odd : k % 2 = 1 := by
        by_contra even
        exact other ⟨half, by omega, none⟩
      have tie : (f : ℚ) / unit = 1 / 2 := by
        rw [← half]
        push_cast
        have : (f : ℚ) ≠ 0 := by
          intro zero
          have : f = 0 := by exact_mod_cast zero
          omega
        field_simp
      have up' : NearestNat (k + f / unit) (k + 1) := by
        rw [tie, ← odd]
        exact middle
      rw [nearest.unique up']
      exact late below half (lt_of_le_of_ne nonneg (Ne.symm none)) (by omega)
  · have high : (unit : ℚ) < ((2 * f : Nat) : ℚ) := by exact_mod_cast high
    push_cast at high
    have up' : NearestNat (k + f / unit) (k + 1) := by
      apply up
      · rw [lt_div_iff₀ positive]
        linarith
      · rw [div_lt_one positive]
        linarith
    rw [nearest.unique up']
    apply up
    · rw [lt_div_iff₀ positive]
      linarith
    · rw [div_lt_one positive]
      linarith

end

end NearestNat

theorem Halfway.lt (halfway : Halfway n) : 2 ^ 53 < n := by
  obtain ⟨m, k, low, -, -, rfl⟩ := halfway
  calc 2 ^ 53 < (2 * m + 1) * 1 := by omega
    _ ≤ (2 * m + 1) * 2 ^ k := Nat.mul_le_mul_left _ (Nat.two_pow_pos k)

/-- Where digits make up a halfway number, so do the first of them that have enough bits. -/
theorem Halfway.div {places : Nat} (halfway : Halfway n) (low : 2 ^ 53 ≤ n / 16 ^ places) :
    Halfway (n / 16 ^ places) := by
  obtain ⟨m, k, least, most, even, rfl⟩ := halfway
  have power : 16 ^ places = 2 ^ (4 * places) := by
    rw [pow_mul]
    norm_num
  have enough : 4 * places ≤ k := by
    by_contra few
    have most' : (2 * m + 1) * 2 ^ k < 2 ^ 54 * 2 ^ k :=
      Nat.mul_lt_mul_of_pos_right (by omega) (Nat.two_pow_pos k)
    have : 2 ^ 53 * 2 ^ (4 * places) ≤ (2 * m + 1) * 2 ^ k := by
      rw [power, Nat.le_div_iff_mul_le (Nat.two_pow_pos _)] at low
      exact low
    have more : 2 ^ 54 * 2 ^ k ≤ 2 ^ 53 * 2 ^ (4 * places) := by
      rw [← pow_add, ← pow_add]
      exact Nat.pow_le_pow_right (by decide) (by omega)
    omega
  refine ⟨m, k - 4 * places, least, most, even, ?_⟩
  have split : 2 ^ k = 2 ^ (k - 4 * places) * 2 ^ (4 * places) := by
    rw [← pow_add, Nat.sub_add_cancel enough]
  rw [power, split, ← mul_assoc, Nat.mul_div_cancel _ (Nat.two_pow_pos _)]

/-- It is the first place with enough bits that counts. -/
theorem decidedLate_iff {places : Nat} (low : 2 ^ 53 ≤ n / 16 ^ places)
    (high : n / 16 ^ places < 2 ^ 57) :
    DecidedLate n ↔ n < 2 ^ 1024 ∧ Halfway (n / 16 ^ places) ∧ n % 16 ^ places ≠ 0 := by
  constructor
  · rintro ⟨finite, later, halfway, rest⟩
    have least := halfway.lt
    have order : later ≤ places := by
      by_contra more
      have split : 16 ^ later = 16 ^ places * 16 * 16 ^ (later - places - 1) := by
        rw [← pow_succ, ← pow_add]
        congr 1
        omega
      rw [split, ← Nat.div_div_eq_div_mul, ← Nat.div_div_eq_div_mul] at least
      have := Nat.div_le_self (n / 16 ^ places / 16) (16 ^ (later - places - 1))
      omega
    have split : 16 ^ places = 16 ^ later * 16 ^ (places - later) := by
      rw [← pow_add]
      congr 1
      omega
    refine ⟨finite, ?_, fun none => rest ?_⟩
    · rw [split, ← Nat.div_div_eq_div_mul] at low ⊢
      exact halfway.div low
    · exact Nat.mod_eq_zero_of_dvd
        (dvd_trans (Dvd.intro _ split.symm) (Nat.dvd_of_mod_eq_zero none))
  · rintro ⟨finite, halfway, rest⟩
    exact ⟨finite, places, halfway, rest⟩

/-- Of a whole number that is rounded, 53 bits are left. -/
theorem Rounds.whole_bounds {bits : Nat} (rounds : Rounds n r bits) :
    2 ^ 52 ≤ n / 2 ^ bits ∧ n / 2 ^ bits < 2 ^ 53 := by
  have high := rounds.scale.high
  have low := rounds.scale.low.resolve_left (by omega)
  have positive := Nat.two_pow_pos bits
  rw [zpow_natCast] at high low
  constructor
  · rw [Nat.le_div_iff_mul_le positive]
    rw [le_div_iff₀ (by positivity)] at low
    exact_mod_cast low
  · rw [Nat.div_lt_iff_lt_mul positive]
    rw [div_lt_iff₀ (by positivity)] at high
    exact_mod_cast high

/-- A halfway number has a one behind the bits of a double, and then nothing but zeros. -/
theorem halfway_iff {bits : Nat} (rounds : Rounds n r bits) (positive : 0 < bits) :
    Halfway n ↔ 2 * (n % 2 ^ bits) = 2 ^ bits ∧ n / 2 ^ bits % 2 = 0 := by
  obtain ⟨k, rfl⟩ : ∃ k, bits = k + 1 := ⟨bits - 1, by omega⟩
  have positive := Nat.two_pow_pos k
  have twice : 2 ^ (k + 1) = 2 * 2 ^ k := pow_succ' 2 k
  constructor
  · rintro ⟨m, k', least, most, even, rfl⟩
    have scale : Scale (((2 * m + 1) * 2 ^ k' : Nat) : ℚ) ((k' + 1 : Nat) : Int) := by
      have place : (((2 * m + 1) * 2 ^ k' : Nat) : ℚ) / 2 ^ ((k' + 1 : Nat) : Int) = m + 1 / 2 := by
        rw [zpow_natCast, pow_succ]
        push_cast
        field_simp
      have least : ((2 ^ 52 : Nat) : ℚ) ≤ m := by exact_mod_cast least
      have most : ((m + 1 : Nat) : ℚ) ≤ ((2 ^ 53 : Nat) : ℚ) := by exact_mod_cast most
      push_cast at least most
      refine ⟨Nat.cast_nonneg _, by omega, .inr ?_, ?_⟩ <;> rw [place] <;> linarith
    have same := scale.unique rounds.scale
    obtain rfl : k' = k := by omega
    have split : (2 * m + 1) * 2 ^ k' = 2 ^ k' + 2 ^ (k' + 1) * m := by rw [twice]; ring
    have less : 2 ^ k' < 2 ^ (k' + 1) := by omega
    rw [split, Nat.add_mul_mod_self_left, Nat.add_mul_div_left _ _ (by omega),
      Nat.mod_eq_of_lt less, Nat.div_eq_of_lt less, Nat.zero_add]
    exact ⟨twice.symm, even⟩
  · rintro ⟨half, even⟩
    obtain ⟨low, high⟩ := rounds.whole_bounds
    refine ⟨n / 2 ^ (k + 1), k, low, high, even, ?_⟩
    have whole := Nat.div_add_mod n (2 ^ (k + 1))
    have rest : n % 2 ^ (k + 1) = 2 ^ k := by omega
    rw [rest] at whole
    calc n = 2 ^ (k + 1) * (n / 2 ^ (k + 1)) + 2 ^ k := whole.symm
      _ = (2 * (n / 2 ^ (k + 1)) + 1) * 2 ^ k := by rw [twice]; ring

/-- What is behind a place, as a part of the unit of that place. -/
def behind (n places : Nat) : ℚ := ((n % 16 ^ places : Nat) : ℚ) / 16 ^ places

theorem behind_nonneg (n places : Nat) : 0 ≤ behind n places := by
  unfold behind
  positivity

theorem behind_lt_one (n places : Nat) : behind n places < 1 := by
  have positive : 0 < 16 ^ places := Nat.pow_pos (by decide)
  have less : ((n % 16 ^ places : Nat) : ℚ) < ((16 ^ places : Nat) : ℚ) := by
    exact_mod_cast Nat.mod_lt n positive
  rw [Nat.cast_pow] at less
  exact (div_lt_one (by positivity)).mpr less

theorem behind_eq_zero_iff (n places : Nat) : behind n places = 0 ↔ n % 16 ^ places = 0 := by
  unfold behind
  rw [div_eq_zero_iff, Nat.cast_eq_zero]
  exact or_iff_left (by positivity)

section

variable {places bits : Nat}

/-- A number that digits make up: the bits of a double, the bits that are rounded away at a place,
and what is behind that place. -/
theorem div_digits (n places bits : Nat) :
    (n : ℚ) / 2 ^ ((bits : Int) + 4 * places) = (n / 16 ^ places / 2 ^ bits : Nat) +
      ((n / 16 ^ places % 2 ^ bits : Nat) + behind n places) / (2 ^ bits : Nat) := by
  have power : (2 : ℚ) ^ ((bits : Int) + 4 * places) = 2 ^ bits * 16 ^ places := by
    rw [zpow_add₀ (by norm_num), zpow_natCast, zpow_mul, zpow_natCast]
    norm_num
  have later : (n : ℚ) = 16 ^ places * (n / 16 ^ places : Nat) + (n % 16 ^ places : Nat) := by
    exact_mod_cast (Nat.div_add_mod n (16 ^ places)).symm
  have front : ((n / 16 ^ places : Nat) : ℚ) = 2 ^ bits * (n / 16 ^ places / 2 ^ bits : Nat) +
      (n / 16 ^ places % 2 ^ bits : Nat) := by
    exact_mod_cast (Nat.div_add_mod (n / 16 ^ places) (2 ^ bits)).symm
  rw [power, behind]
  generalize ((n % 16 ^ places : Nat) : ℚ) = rest at *
  generalize ((n / 16 ^ places % 2 ^ bits : Nat) : ℚ) = away at *
  rw [later, front, Nat.cast_pow, Nat.cast_ofNat]
  field_simp
  ring

theorem front_digits (n bits : Nat) :
    (n : ℚ) / 2 ^ (bits : Int) = (n / 2 ^ bits : Nat) + (n % 2 ^ bits : Nat) / (2 ^ bits : Nat) := by
  have parts := div_digits n 0 bits
  have none : behind n 0 = 0 := (behind_eq_zero_iff n 0).mpr (by rw [pow_zero, Nat.mod_one])
  rw [none, pow_zero, Nat.div_one, Nat.cast_zero, mul_zero, add_zero, add_zero] at parts
  rw [parts, Nat.cast_pow, Nat.cast_ofNat]

variable (low : 2 ^ 53 ≤ n / 16 ^ places) (rounds : Rounds (n / 16 ^ places : Nat) r bits)

include rounds

/-- With more digits the grid is the same, only moved. -/
theorem scale_digits : Scale n ((bits : Int) + 4 * places) := by
  obtain ⟨least, most⟩ := rounds.whole_bounds
  have least : ((2 ^ 52 : Nat) : ℚ) ≤ (n / 16 ^ places / 2 ^ bits : Nat) := by exact_mod_cast least
  have most : ((n / 16 ^ places / 2 ^ bits + 1 : Nat) : ℚ) ≤ ((2 ^ 53 : Nat) : ℚ) := by
    exact_mod_cast most
  have away : ((n / 16 ^ places % 2 ^ bits + 1 : Nat) : ℚ) ≤ ((2 ^ bits : Nat) : ℚ) := by
    exact_mod_cast Nat.mod_lt (n / 16 ^ places) (Nat.two_pow_pos bits)
  have nonneg := behind_nonneg n places
  have positive : (0 : ℚ) < (2 ^ bits : Nat) := by exact_mod_cast Nat.two_pow_pos bits
  have part : ((n / 16 ^ places % 2 ^ bits : Nat) + behind n places) / (2 ^ bits : Nat) < 1 := by
    have less := behind_lt_one n places
    rw [Nat.cast_succ] at away
    exact (div_lt_one positive).mpr (by linarith)
  have part' : 0 ≤ ((n / 16 ^ places % 2 ^ bits : Nat) + behind n places) / (2 ^ bits : Nat) :=
    div_nonneg (add_nonneg (Nat.cast_nonneg _) nonneg) positive.le
  rw [Nat.cast_pow, Nat.cast_ofNat] at least most
  rw [Nat.cast_succ] at most
  refine ⟨Nat.cast_nonneg n, by omega, .inr ?_, ?_⟩ <;> rw [div_digits] <;> linarith

include low

/-- The digits behind a place decide on nothing, unless the number is halfway at that place. -/
theorem nearest_digits (other : ¬ (Halfway (n / 16 ^ places) ∧ n % 16 ^ places ≠ 0)) :
    NearestNat (n / 2 ^ ((bits : Int) + 4 * places)) r := by
  have positive := rounds.scale_pos low
  have even : 2 ^ bits % 2 = 0 := Nat.mod_eq_zero_of_dvd (dvd_pow_self 2 (by omega))
  rw [halfway_iff rounds (by omega), Ne.eq_def, ← behind_eq_zero_iff] at other
  have nearest := rounds.nearest
  rw [front_digits] at nearest
  rw [div_digits]
  refine nearest.more (behind_nonneg n places) (behind_lt_one n places) even
    (Nat.mod_lt _ (Nat.two_pow_pos bits)) fun late => other ⟨⟨late.1, late.2.1⟩, late.2.2⟩

end

/-- Where the largest double ends the exponents of the grid end, too. -/
theorem Scale.lt_iff (scale : Scale n t) (positive : 0 < t) : n < 2 ^ 1024 ↔ t ≤ 971 := by
  have steps (k : Int) : (2 : ℚ) ^ (52 : Int) * 2 ^ k = 2 ^ (52 + k) :=
    (zpow_add₀ (by norm_num) _ _).symm
  have whole : n < 2 ^ 1024 ↔ (n : ℚ) < 2 ^ (1024 : Int) := by
    rw [← Nat.cast_lt (α := ℚ), Nat.cast_pow, ← zpow_natCast]
    rfl
  rw [whole]
  constructor
  · intro finite
    by_contra beyond
    have large := scale.low.resolve_left (by omega)
    rw [le_div_iff₀ (two_zpow_pos t), ← zpow_natCast, Nat.cast_ofNat, steps] at large
    have least : (2 : ℚ) ^ (1024 : Int) ≤ 2 ^ (52 + t) :=
      zpow_le_zpow_right₀ (by norm_num) (by omega)
    exact absurd (le_trans least large) (not_le.mpr finite)
  · intro few
    have small := scale.high
    rw [div_lt_iff₀ (two_zpow_pos t)] at small
    have twice : (2 : ℚ) ^ 53 * 2 ^ t = 2 ^ (52 + (t + 1)) := by
      rw [← zpow_natCast, ← zpow_add₀ (by norm_num)]
      congr 1
      push_cast
      ring
    rw [twice] at small
    exact lt_of_lt_of_le small (zpow_le_zpow_right₀ (by norm_num) (by omega))

/-- The result of the reader is one step too small if the digits that it rounds away are in the
middle and the later ones are not all zeros. -/
theorem not_nearest_of_late {places bits : Nat} (low : 2 ^ 53 ≤ n / 16 ^ places)
    (rounds : Rounds (n / 16 ^ places : Nat) r bits) (finite : n < 2 ^ 1024)
    (halfway : Halfway (n / 16 ^ places)) (rest : n % 16 ^ places ≠ 0) :
    ¬ Nearest n (packed (unpacked (carry r ((bits : Int) + 4 * places)))) := by
  have positive := rounds.scale_pos low
  obtain ⟨least, most⟩ := rounds.whole_bounds
  have scale := scale_digits rounds
  obtain ⟨half, even⟩ := (halfway_iff rounds (by omega)).mp halfway
  generalize lower : n / 16 ^ places / 2 ^ bits = k at *
  -- The reader rounds down to the even neighbour.
  have down : r = k := by
    have nearest := rounds.nearest
    have tie : ((n / 16 ^ places % 2 ^ bits : Nat) : ℚ) / (2 ^ bits : Nat) = 1 / 2 := by
      have half' : 2 * ((n / 16 ^ places % 2 ^ bits : Nat) : ℚ) = (2 ^ bits : Nat) := by
        exact_mod_cast half
      have some : (0 : ℚ) < (2 ^ bits : Nat) := by exact_mod_cast Nat.two_pow_pos bits
      rw [div_eq_iff some.ne']
      linarith
    rw [front_digits, tie, lower] at nearest
    have middle := nearest.unique NearestNat.middle
    omega
  -- The number itself is rounded up.
  have up : NearestNat (n / 2 ^ ((bits : Int) + 4 * places)) (k + 1) := by
    rw [div_digits, lower]
    have some : 0 < behind n places :=
      lt_of_le_of_ne (behind_nonneg n places) fun none =>
        rest ((behind_eq_zero_iff n places).mp none.symm)
    refine NearestNat.late (behind_lt_one n places) half some ?_
    exact Nat.one_lt_two_pow (by omega)
  have exponent : (bits : Int) + 4 * places ≤ 971 := (scale.lt_iff (by omega)).mp finite
  have neighbour : Rounds n (k + 1) ((bits : Int) + 4 * places) := ⟨scale, up⟩
  rw [neighbour.nearest_iff, down, carry, carry, if_neg (by omega), if_neg (by omega)]
  intro same
  have first := (packed_unpacked (a := ⟨k, (bits : Int) + 4 * places⟩)
    ⟨⟨most, by dsimp only; omega, .inr least⟩, exponent⟩).1
  have second := (packed_unpacked (a := ⟨k + 1, (bits : Int) + 4 * places⟩)
    ⟨⟨by dsimp only; omega, by dsimp only; omega, .inr (by dsimp only; omega)⟩, exponent⟩).1
  rw [same] at first
  have equal := Option.some.inj (first.magnitude.symm.trans second.magnitude)
  have mantissas := congrArg Magnitude.mantissa equal
  dsimp only at mantissas
  omega

/-- Digits that are read one by one give the nearest double of their number, unless they are decided
late. -/
theorem nearest_hexFloat_iff (digits : List Char) :
    Nearest (Text.ofHexDigits digits) (hexFloat digits) ↔
      ¬ DecidedLate (Text.ofHexDigits digits) := by
  generalize reads : Text.ofHexDigits digits = n
  have reads := reads ▸ reads_hexFloat digits
  cases reads with
  | exactly small exact =>
    refine iff_of_true exact.nearest ?_
    rintro ⟨-, places, halfway, -⟩
    have := halfway.lt
    have := Nat.div_le_self n (16 ^ places)
    omega
  | @rounded r places t low high rounds same =>
    have positive := rounds.scale_pos low
    obtain ⟨bits, rfl⟩ := Int.eq_ofNat_of_zero_le positive.le
    rw [same, decidedLate_iff low high]
    by_cases late : Halfway (n / 16 ^ places) ∧ n % 16 ^ places ≠ 0
    · by_cases finite : n < 2 ^ 1024
      · exact iff_of_false (not_nearest_of_late low rounds finite late.1 late.2)
          fun never => never ⟨finite, late.1, late.2⟩
      · -- From here on everything is infinite.
        have scale := scale_digits rounds
        have beyond : 971 < (bits : Int) + 4 * places := by
          rw [← not_le, ← scale.lt_iff (by omega)]
          exact finite
        rw [packed_eq_infinity (rounds.canonical_shift low (by omega))
          (lt_of_lt_of_le beyond (le_carry r _))]
        refine iff_of_true (.infinity (not_lt.mp fun less => ?_)) fun decided => finite decided.1
        obtain ⟨r', nearest⟩ := exists_nearestNat (div_nonneg (Nat.cast_nonneg n) (two_zpow_pos _).le)
        have whole : Rounds n r' ((bits : Int) + 4 * places) := ⟨scale, nearest⟩
        have := whole.lt_limit_iff.mp less
        have := le_carry r' ((bits : Int) + 4 * places)
        omega
    · have whole : Rounds n r ((bits : Int) + 4 * places) :=
        ⟨scale_digits rounds, nearest_digits low rounds late⟩
      exact iff_of_true whole.nearest_packed fun decided => late decided.2

end ScriptEngine.Binary64
