import Mathlib
import ScriptEngine.Proofs.Number.HexDigits

/-!
# Texts that are numbers

Which texts denote a number, and which number. `Literal.Spells` is the grammar of decimal literals:
digits with an optional point and at least one digit on some side of it, and an optional exponent;
`IsNumeral` adds signs, infinities and hexadecimal digits.

Main results: the reader takes the texts of the grammar and no others
(`readLiteral?_eq_some_iff`, `ofText_isNaN_eq_false_iff`), and a decimal literal becomes the nearest
double of its value (`nearest_toFloat`).
-/
namespace ScriptEngine.Number

open Binary64 (Exact Nearest packed)

variable {chars digits whole fraction rest sign : List Char} {e : Int} {l : Literal} {x : Float}

/-! ### The grammar -/

def AllDigits (chars : List Char) : Prop := ∀ c ∈ chars, c.isDigit = true

def signs : List (List Char) := [[], ['+'], ['-']]

/-- The text is that of an integer with an optional sign and at least one digit. -/
inductive SpellsInteger : (chars : List Char) → (e : Int) → Prop where
  | positive {sign digits : List Char} (signed : sign = [] ∨ sign = ['+']) (some : digits ≠ [])
    (all : AllDigits digits) : SpellsInteger (sign ++ digits) (Text.ofDigits digits)
  | negative {digits : List Char} (some : digits ≠ []) (all : AllDigits digits) :
    SpellsInteger ('-' :: digits) (-Text.ofDigits digits)

/-- What stands behind the digits of a number: nothing, or an exponent. -/
inductive SpellsExponent : (chars : List Char) → (e : Int) → Prop where
  | none : SpellsExponent [] 0
  | letter {mark : Char} {chars : List Char} {e : Int} (either : mark = 'e' ∨ mark = 'E')
    (spells : SpellsInteger chars e) : SpellsExponent (mark :: chars) e

/-- The text is that of a decimal literal with these parts. -/
inductive Literal.Spells : (chars : List Char) → (l : Literal) → Prop where
  | whole {digits rest : List Char} {e : Int} (some : digits ≠ []) (all : AllDigits digits)
    (exponent : SpellsExponent rest e) : Literal.Spells (digits ++ rest) ⟨digits, [], e⟩
  | point {whole fraction rest : List Char} {e : Int} (some : whole ≠ [] ∨ fraction ≠ [])
    (all : AllDigits whole) (all' : AllDigits fraction) (exponent : SpellsExponent rest e) :
    Literal.Spells (whole ++ '.' :: (fraction ++ rest)) ⟨whole, fraction, e⟩

/-- The texts that denote numbers, apart from the white space around them. -/
inductive IsNumeral : (chars : List Char) → Prop where
  | empty : IsNumeral []
  | infinity {sign : List Char} (signed : sign ∈ signs) : IsNumeral (sign ++ "Infinity".toList)
  | hexadecimal {mark : Char} {digits : List Char} (either : mark = 'x' ∨ mark = 'X')
    (some : digits ≠ []) (all : ∀ c ∈ digits, Text.isHexDigit c = true) :
    IsNumeral ('0' :: mark :: digits)
  | decimal {sign chars : List Char} {l : Literal} (signed : sign ∈ signs)
    (spells : Literal.Spells chars l) : IsNumeral (sign ++ chars)

/-! ### Reading decimal literals -/

/-- Digits that make up an exponent. -/
theorem not_refused_iff :
    (digits.isEmpty || !digits.all Char.isDigit) = false ↔ digits ≠ [] ∧ AllDigits digits := by
  simp [AllDigits]

/-- A digit is not taken for a sign. -/
theorem readExponent?_digits (all : AllDigits digits) :
    readExponent? digits =
      if digits.isEmpty || !digits.all Char.isDigit then none
      else some (Text.ofDigits digits : Int) := by
  unfold readExponent?
  split
  next same =>
    split at same
    next rest => exact absurd (all '-' List.mem_cons_self) (by decide)
    next rest => exact absurd (all '+' List.mem_cons_self) (by decide)
    · cases same
      rfl

theorem readExponent?_eq_some_iff : readExponent? chars = some e ↔ SpellsInteger chars e := by
  constructor
  · intro read
    unfold readExponent? at read
    split at read
    next negative digits same =>
      split at read
      · cases read
      next ok =>
        obtain ⟨some, all⟩ := not_refused_iff.mp (Bool.eq_false_of_not_eq_true ok)
        split at same <;> cases same <;> cases read
        · exact .negative some all
        · exact .positive (.inr rfl) some all
        · exact .positive (.inl rfl) some all
  · intro spells
    cases spells with
    | @positive sign digits signed some all =>
      have ok := not_refused_iff.mpr ⟨some, all⟩
      rcases signed with rfl | rfl
      · rw [List.nil_append, readExponent?_digits all, ok]
        rfl
      · simp [readExponent?, ok]
    | negative some all =>
      have ok := not_refused_iff.mpr ⟨some, all⟩
      simp [readExponent?, ok]

/-- Behind digits no more digits are read. -/
theorem SpellsExponent.stops (exponent : SpellsExponent rest e) (all : AllDigits whole) :
    (whole ++ rest).takeWhile Char.isDigit = whole ∧
      (whole ++ rest).dropWhile Char.isDigit = rest := by
  rw [List.takeWhile_append_of_pos all, List.dropWhile_append_of_pos all]
  cases exponent with
  | none => simp
  | letter either spells => rcases either with rfl | rfl <;> simp [Char.isDigit]

theorem allDigits_takeWhile (chars : List Char) : AllDigits (chars.takeWhile Char.isDigit) :=
  fun _ mem => List.mem_takeWhile_imp mem

/-- What the reader does behind the digits. -/
theorem read_behind (read : (match rest with
      | [] => some (Literal.mk whole fraction 0)
      | 'e' :: rest | 'E' :: rest => (readExponent? rest).map fun e => ⟨whole, fraction, e⟩
      | _ => none) = some l) :
    ∃ e, SpellsExponent rest e ∧ l = ⟨whole, fraction, e⟩ := by
  split at read
  · cases read
    exact ⟨0, .none, rfl⟩
  next rest =>
    obtain ⟨e, found, rfl⟩ := Option.map_eq_some_iff.mp read
    exact ⟨e, .letter (.inl rfl) (readExponent?_eq_some_iff.mp found), rfl⟩
  next rest =>
    obtain ⟨e, found, rfl⟩ := Option.map_eq_some_iff.mp read
    exact ⟨e, .letter (.inr rfl) (readExponent?_eq_some_iff.mp found), rfl⟩
  · cases read

theorem behind_read (exponent : SpellsExponent rest e) : (match rest with
      | [] => some (Literal.mk whole fraction 0)
      | 'e' :: rest | 'E' :: rest => (readExponent? rest).map fun e => ⟨whole, fraction, e⟩
      | _ => none) = some ⟨whole, fraction, e⟩ := by
  cases exponent with
  | none => rfl
  | letter either spells =>
    have read := readExponent?_eq_some_iff.mpr spells
    rcases either with rfl | rfl <;> simp [read]

theorem spells_of_readLiteral? (read : readLiteral? chars = some l) : Literal.Spells chars l := by
  have parts := List.takeWhile_append_dropWhile (p := Char.isDigit) (l := chars)
  have all := allDigits_takeWhile chars
  unfold readLiteral? at read
  generalize chars.takeWhile Char.isDigit = whole at *
  generalize chars.dropWhile Char.isDigit = rest at *
  subst parts
  split at read
  next fraction behind same =>
    dsimp only at read
    split at read
    · cases read
    next some =>
      obtain ⟨e, exponent, rfl⟩ := read_behind read
      split at same
      next rest =>
        have parts' := List.takeWhile_append_dropWhile (p := Char.isDigit) (l := rest)
        have all' := allDigits_takeWhile rest
        cases same
        have nonempty : whole ≠ [] ∨ rest.takeWhile Char.isDigit ≠ [] := by
          simpa [or_iff_not_imp_left] using some
        have spells := Literal.Spells.point nonempty all all' exponent
        rwa [parts'] at spells
      next other =>
        cases same
        exact .whole (by simpa using some) all exponent

theorem readLiteral?_of_spells (spells : Literal.Spells chars l) : readLiteral? chars = some l := by
  cases spells with
  | @whole digits rest e some all exponent =>
    obtain ⟨front, back⟩ := exponent.stops all
    have behind : _ = Option.some (Literal.mk digits [] e) := behind_read exponent
    have nonempty : (digits.isEmpty && true) = false := by simpa using some
    unfold readLiteral?
    rw [front, back]
    split
    next same =>
      split at same
      -- What stands behind the digits begins with no point.
      next point =>
        cases exponent with
        | letter either spells => rcases either with h | h <;> cases h
      · cases same
        rw [List.isEmpty_nil]
        dsimp only
        rw [nonempty]
        exact behind
  | @point whole fraction rest e some all all' exponent =>
    obtain ⟨front, back⟩ := exponent.stops all'
    have behind : _ = Option.some (Literal.mk whole fraction e) := behind_read exponent
    have nonempty : (whole.isEmpty && fraction.isEmpty) = false := by
      simpa [or_iff_not_imp_left] using some
    unfold readLiteral?
    rw [List.takeWhile_append_of_pos all, List.dropWhile_append_of_pos all,
      List.takeWhile_cons_of_neg (by decide), List.dropWhile_cons_of_neg (by decide),
      List.append_nil]
    simp only [front, back, nonempty, Bool.false_eq_true, ↓reduceIte]
    exact behind

/-- The reader takes decimal literals apart, and takes nothing else. -/
theorem readLiteral?_eq_some_iff : readLiteral? chars = some l ↔ Literal.Spells chars l :=
  ⟨spells_of_readLiteral?, readLiteral?_of_spells⟩

/-! ### The value of a decimal literal -/

/-- The exact number that a decimal literal stands for. -/
def Literal.value (l : Literal) : ℚ :=
  Text.ofDigits (l.whole ++ l.fraction) * 10 ^ (l.exponent - l.fraction.length)

theorem infinity_eq : (1.0 / 0.0 : Float) = Binary64.infinity :=
  Binary64.eq_of_toBits rfl

/-- The exponents that are decided without computing a power are far outside of the range of
doubles, so a literal always becomes the nearest double. -/
theorem nearest_toFloat (l : Literal) : Nearest l.value l.toFloat := by
  unfold Literal.toFloat Literal.value
  dsimp only
  generalize l.exponent - l.fraction.length = e
  generalize Text.ofDigits (l.whole ++ l.fraction) = n
  have some : 0 < (Nat.toDigits 10 n).length := Nat.length_toDigits_pos
  split
  next zero =>
    rw [zero, Nat.cast_zero, zero_mul]
    exact Exact.zero.nearest
  next nonzero =>
    split
    next large =>
      rw [infinity_eq]
      apply Nearest.of_large
      have digits : 10 ^ ((Nat.toDigits 10 n).length - 1) ≤ n := by
        by_contra fewer
        by_cases one : (Nat.toDigits 10 n).length = 1
        · rw [one] at fewer
          omega
        · have := (Nat.length_toDigits_le_iff (by decide) (by omega)).mpr (not_le.mp fewer)
          omega
      have digits : (10 : ℚ) ^ ((Nat.toDigits 10 n).length - 1) ≤ n := by exact_mod_cast digits
      calc (10 : ℚ) ^ (400 : Int) ≤ 10 ^ ((((Nat.toDigits 10 n).length - 1 : Nat) : Int) + e) :=
            zpow_le_zpow_right₀ (by norm_num) (by omega)
        _ = 10 ^ ((Nat.toDigits 10 n).length - 1) * 10 ^ e := by
          rw [zpow_add₀ (by norm_num), zpow_natCast]
        _ ≤ n * 10 ^ e := mul_le_mul_of_nonneg_right digits (by positivity)
    · split
      next small =>
        apply Nearest.of_small (by positivity)
        have digits : n < 10 ^ (Nat.toDigits 10 n).length :=
          (Nat.length_toDigits_le_iff (by decide) some).mp le_rfl
        have digits : (n : ℚ) ≤ 10 ^ (Nat.toDigits 10 n).length := by exact_mod_cast digits.le
        calc (n : ℚ) * 10 ^ e ≤ 10 ^ (Nat.toDigits 10 n).length * 10 ^ e :=
              mul_le_mul_of_nonneg_right digits (by positivity)
          _ = 10 ^ (((Nat.toDigits 10 n).length : Int) + e) := by
            rw [zpow_add₀ (by norm_num), zpow_natCast]
          _ ≤ 10 ^ (-400 : Int) := zpow_le_zpow_right₀ (by norm_num) (by omega)
      · have nearest := Binary64.nearest_ofScientific n (decide (e < 0)) e.natAbs
        have exponent : (if decide (e < 0) = true then -(e.natAbs : Int) else e.natAbs) = e := by
          split
          next negative =>
            have := of_decide_eq_true negative
            omega
          next nonneg =>
            have := of_decide_eq_false (Bool.eq_false_of_not_eq_true nonneg)
            omega
        rwa [exponent] at nearest

/-! ### What is no number -/

theorem isNaN_ofFloat (x : Float) : (ofFloat x).isNaN = x.isNaN := by
  unfold ofFloat
  cases safe : Binary64.safeInteger? x with
  | some n =>
    cases magnitude : Binary64.magnitude? x with
    | none =>
      rw [Binary64.safeInteger?, magnitude] at safe
      cases safe
    | some a => exact (Binary64.finite_of_magnitude? magnitude).1.symm
  | none =>
    dsimp only
    cases x.isNaN with
    | true => rfl
    | false =>
      rw [if_neg Bool.false_ne_true]
      split
      · split <;> rfl
      · rfl

theorem isNaN_neg (number : x.isNaN = false) : (-x).isNaN = false := by
  have same : -x = packed x.toModel.unpack.neg := rfl
  rw [same]
  apply Binary64.isNaN_packed
  change x.toModel.unpack.isNaN = false at number
  cases unpacked : x.toModel.unpack with
  | notANumber =>
    rw [unpacked] at number
    cases number
  | _ => rfl

/-! ### Characters -/

theorem isLiteralChar_of_isDigit {c : Char} (digit : c.isDigit = true) :
    isLiteralChar c = true := by
  simp [isLiteralChar, digit]

namespace SpellsInteger

theorem literalChars (spells : SpellsInteger chars e) : ∀ c ∈ chars, isLiteralChar c = true := by
  intro c mem
  cases spells with
  | @positive sign digits signed some all =>
    rcases List.mem_append.mp mem with mem | mem
    · rcases signed with rfl | rfl
      · cases mem
      · rw [List.mem_singleton.mp mem]
        rfl
    · exact isLiteralChar_of_isDigit (all c mem)
  | negative some all =>
    rcases List.mem_cons.mp mem with rfl | mem
    · rfl
    · exact isLiteralChar_of_isDigit (all c mem)

end SpellsInteger

theorem SpellsExponent.literalChars (exponent : SpellsExponent chars e) :
    ∀ c ∈ chars, isLiteralChar c = true := by
  intro c mem
  cases exponent with
  | none => cases mem
  | letter either spells =>
    rcases List.mem_cons.mp mem with rfl | mem
    · rcases either with rfl | rfl <;> rfl
    · exact spells.literalChars c mem

theorem Literal.Spells.literalChars (spells : Literal.Spells chars l) :
    ∀ c ∈ chars, isLiteralChar c = true := by
  intro c mem
  cases spells with
  | whole some all exponent =>
    rcases List.mem_append.mp mem with mem | mem
    · exact isLiteralChar_of_isDigit (all c mem)
    · exact exponent.literalChars c mem
  | point some all all' exponent =>
    simp only [List.mem_append, List.mem_cons] at mem
    rcases mem with mem | rfl | mem | mem
    · exact isLiteralChar_of_isDigit (all c mem)
    · rfl
    · exact isLiteralChar_of_isDigit (all' c mem)
    · exact exponent.literalChars c mem

/-- A decimal literal begins with a digit or a point. -/
theorem Literal.Spells.head (spells : Literal.Spells chars l) :
    ∃ c rest, chars = c :: rest ∧ (c.isDigit = true ∨ c = '.') := by
  cases spells with
  | @whole digits rest e some all exponent =>
    obtain ⟨c, more, rfl⟩ := List.exists_cons_of_ne_nil some
    exact ⟨c, more ++ rest, rfl, .inl (all c List.mem_cons_self)⟩
  | @point whole fraction rest e some all all' exponent =>
    cases whole with
    | nil => exact ⟨'.', fraction ++ rest, rfl, .inr rfl⟩
    | cons c more => exact ⟨c, _, rfl, .inl (all c List.mem_cons_self)⟩

theorem isDigit_range {c : Char} (digit : c.isDigit = true) : 48 ≤ c.toNat ∧ c.toNat ≤ 57 := by
  simpa [Char.isDigit, UInt32.le_iff_toNat_le] using digit

theorem toLower_ne {c : Char} (literal : isLiteralChar c = true) : c.toLower ≠ 'n' := by
  simp only [isLiteralChar, Bool.or_eq_true, beq_iff_eq] at literal
  rcases literal with ((((digit | rfl) | rfl) | rfl) | rfl) | rfl
  · have same : c.toLower = c := by
      unfold Char.toLower
      refine dif_neg fun upper => ?_
      have large : 65 ≤ c.toNat := upper.1
      have most := (isDigit_range digit).2
      omega
    rw [same]
    rintro rfl
    cases digit
  all_goals decide

/-- The words of the reader are not made of the characters of literals. -/
theorem readWord?_eq_none (all : ∀ c ∈ chars, isLiteralChar c = true) : readWord? chars = none := by
  have other {word : List Char} (letter : 'n' ∈ word) : chars.map Char.toLower ≠ word := by
    rintro rfl
    obtain ⟨c, mem, lower⟩ := List.mem_map.mp letter
    exact toLower_ne (all c mem) lower
  unfold readWord?
  have first : chars.map Char.toLower ≠ "inf".toList := other (by decide)
  have second : chars.map Char.toLower ≠ "infinity".toList := other (by decide)
  have third : chars.map Char.toLower ≠ "nan".toList := other (by decide)
  simp only [first, second, third, or_self, ↓reduceIte]

theorem readUnsigned?_eq (all : ∀ c ∈ chars, isLiteralChar c = true) :
    readUnsigned? chars = (readLiteral? chars).map Literal.toFloat := by
  rw [readUnsigned?, readWord?_eq_none all, Option.none_or]

/-! ### Reading a text -/

/-- What is read between a sign and the end, made of the characters of literals, is a decimal
literal. -/
theorem decimal_of_readSigned? (all : ∀ c ∈ chars, isLiteralChar c = true)
    (read : readSigned? chars = some x) : IsNumeral chars := by
  unfold readSigned? at read
  split at read
  next rest =>
    rw [readUnsigned?_eq fun c mem => all c (List.mem_cons_of_mem _ mem)] at read
    simp only [Option.map_eq_some_iff] at read
    obtain ⟨_, ⟨l, read, -⟩, -⟩ := read
    exact @IsNumeral.decimal ['-'] _ _ (by decide) (readLiteral?_eq_some_iff.mp read)
  next rest =>
    rw [readUnsigned?_eq fun c mem => all c (List.mem_cons_of_mem _ mem)] at read
    obtain ⟨l, read, -⟩ := Option.map_eq_some_iff.mp read
    exact @IsNumeral.decimal ['+'] _ _ (by decide) (readLiteral?_eq_some_iff.mp read)
  next other =>
    rw [readUnsigned?_eq all] at read
    obtain ⟨l, read, -⟩ := Option.map_eq_some_iff.mp read
    exact @IsNumeral.decimal [] _ _ (by decide) (readLiteral?_eq_some_iff.mp read)

theorem readUnsigned?_decimal (spells : Literal.Spells chars l) :
    readUnsigned? chars = some l.toFloat := by
  rw [readUnsigned?_eq spells.literalChars, readLiteral?_eq_some_iff.mpr spells]
  rfl

/-- Its first character is not taken for a sign. -/
theorem readSigned?_unsigned (spells : Literal.Spells chars l) :
    readSigned? chars = some l.toFloat := by
  have read := readUnsigned?_decimal spells
  obtain ⟨c, rest, rfl, first⟩ := spells.head
  unfold readSigned?
  split
  next same =>
    cases same
    rcases first with digit | point
    · cases digit
    · cases point
  next same =>
    cases same
    rcases first with digit | point
    · cases digit
    · cases point
  · exact read

/-- A signed decimal literal is read, and as a number. -/
theorem readSigned?_decimal (signed : sign ∈ signs) (spells : Literal.Spells chars l) :
    ∃ x, readSigned? (sign ++ chars) = some x ∧ x.isNaN = false := by
  have read := readUnsigned?_decimal spells
  have number := (nearest_toFloat l).number
  simp only [signs, List.mem_cons, List.not_mem_nil, or_false] at signed
  rcases signed with rfl | rfl | rfl
  · exact ⟨l.toFloat, readSigned?_unsigned spells, number⟩
  · exact ⟨l.toFloat, read, number⟩
  · refine ⟨-l.toFloat, ?_, isNaN_neg number⟩
    change (readUnsigned? chars).map _ = _
    rw [read]
    rfl

/-- The stages of the reader before the last one let the characters of literals pass. -/
theorem readTrimmed_of_literalChars (some : chars ≠ [])
    (all : ∀ c ∈ chars, isLiteralChar c = true) :
    readTrimmed chars = ((readSigned? chars).map ofFloat).getD nan := by
  unfold readTrimmed
  split
  · exact absurd rfl some
  next digits => exact absurd (all 'x' (by simp)) (by decide)
  next digits => exact absurd (all 'X' (by simp)) (by decide)
  · have other {word : List Char} (letter : 'I' ∈ word) : chars ≠ word := by
      rintro rfl
      exact absurd (all 'I' letter) (by decide)
    have plain : chars ≠ "Infinity".toList := other (by decide)
    have plus : chars ≠ "+Infinity".toList := other (by decide)
    have minus : chars ≠ "-Infinity".toList := other (by decide)
    simp only [plain, plus, minus, or_self, ↓reduceIte, List.all_eq_true.mpr all]

theorem readTrimmed_hexadecimal {mark : Char} (either : mark = 'x' ∨ mark = 'X') (some : digits ≠ [])
    (all : ∀ c ∈ digits, Text.isHexDigit c = true) :
    readTrimmed ('0' :: mark :: digits) = ofFloat (hexFloat digits) := by
  have ok : (!digits.isEmpty && digits.all Text.isHexDigit) = true := by
    simpa [some] using all
  rcases either with rfl | rfl <;> exact if_pos ok

/-- What passes the stages of the reader is a number. -/
theorem isNumeral_of_readTrimmed (number : (readTrimmed chars).isNaN = false) : IsNumeral chars := by
  unfold readTrimmed at number
  have hexadecimal {mark : Char} {digits : List Char} (either : mark = 'x' ∨ mark = 'X')
      (number : isNaN (if !digits.isEmpty && digits.all Text.isHexDigit then
        ofFloat (hexFloat digits) else nan) = false) : IsNumeral ('0' :: mark :: digits) := by
    split at number
    next ok =>
      simp only [Bool.and_eq_true, Bool.not_eq_true', List.isEmpty_eq_false_iff] at ok
      exact .hexadecimal either ok.1 (List.all_eq_true.mp ok.2)
    · cases number
  split at number
  · exact .empty
  next digits => exact hexadecimal (.inl rfl) number
  next digits => exact hexadecimal (.inr rfl) number
  next other =>
    split at number
    next word =>
      rcases word with rfl | rfl
      · exact @IsNumeral.infinity [] (by decide)
      · exact @IsNumeral.infinity ['+'] (by decide)
    · split at number
      next word =>
        rw [word]
        exact @IsNumeral.infinity ['-'] (by decide)
      · split at number
        next all =>
          cases read : readSigned? chars with
          | none =>
            rw [read] at number
            cases number
          | some x => exact decimal_of_readSigned? (List.all_eq_true.mp all) read
        · cases number

theorem isLiteralChar_of_mem_signs {c : Char} (signed : sign ∈ signs) (mem : c ∈ sign) :
    isLiteralChar c = true := by
  simp only [signs, List.mem_cons, List.not_mem_nil, or_false] at signed
  rcases signed with rfl | rfl | rfl
  · cases mem
  all_goals
    rw [List.mem_singleton.mp mem]
    rfl

theorem readTrimmed_of_isNumeral (numeral : IsNumeral chars) : (readTrimmed chars).isNaN = false := by
  cases numeral with
  | empty => rfl
  | infinity signed =>
    simp only [signs, List.mem_cons, List.not_mem_nil, or_false] at signed
    rcases signed with rfl | rfl | rfl <;> decide
  | @hexadecimal mark digits either some all =>
    have read := readTrimmed_hexadecimal either some all
    obtain ⟨p, nearest⟩ := Binary64.exists_nearest_hexFloat digits
    rw [read, isNaN_ofFloat]
    exact nearest.number
  | @decimal sign chars l signed spells =>
    have all : ∀ c ∈ sign ++ chars, isLiteralChar c = true := by
      intro c mem
      rcases List.mem_append.mp mem with mem | mem
      · exact isLiteralChar_of_mem_signs signed mem
      · exact spells.literalChars c mem
    obtain ⟨c, rest, rfl, -⟩ := spells.head
    obtain ⟨x, read, number⟩ := readSigned?_decimal signed spells
    rw [readTrimmed_of_literalChars (by simp) all, read]
    change (ofFloat x).isNaN = false
    rw [isNaN_ofFloat]
    exact number

/-! ### White space around a text -/

theorem not_blank_of_isLiteralChar {c : Char} (literal : isLiteralChar c = true) :
    Text.isBlank c = false := by
  simp only [isLiteralChar, Bool.or_eq_true, beq_iff_eq] at literal
  rcases literal with ((((digit | rfl) | rfl) | rfl) | rfl) | rfl
  · obtain ⟨least, most⟩ := isDigit_range digit
    simp only [Text.isBlank, Bool.or_eq_false_iff, Bool.and_eq_false_iff, decide_eq_false_iff_not,
      beq_eq_false_iff_ne]
    omega
  all_goals decide

theorem not_blank_of_isHexDigit {c : Char} (hex : Text.isHexDigit c = true) :
    Text.isBlank c = false := by
  obtain ⟨digit, found⟩ := Option.isSome_iff_exists.mp hex
  obtain ⟨-, least, most⟩ := Binary64.hexDigit?_bounds found
  simp only [Text.isBlank, Bool.or_eq_false_iff, Bool.and_eq_false_iff, decide_eq_false_iff_not,
    beq_eq_false_iff_ne]
  omega

theorem IsNumeral.not_blank (numeral : IsNumeral chars) : ∀ c ∈ chars, Text.isBlank c = false := by
  intro c mem
  cases numeral with
  | empty => cases mem
  | infinity signed =>
    rcases List.mem_append.mp mem with mem | mem
    · exact not_blank_of_isLiteralChar (isLiteralChar_of_mem_signs signed mem)
    · have plain : "Infinity".toList.all (fun c => !Text.isBlank c) = true := by decide
      simpa using List.all_eq_true.mp plain c mem
  | hexadecimal either some all =>
    rcases List.mem_cons.mp mem with rfl | mem
    · rfl
    · rcases List.mem_cons.mp mem with rfl | mem
      · rcases either with rfl | rfl <;> rfl
      · exact not_blank_of_isHexDigit (all c mem)
  | decimal signed spells =>
    rcases List.mem_append.mp mem with mem | mem
    · exact not_blank_of_isLiteralChar (isLiteralChar_of_mem_signs signed mem)
    · exact not_blank_of_isLiteralChar (spells.literalChars c mem)

/-- A text denotes a number if and only if the grammar has what remains of it without the white
space around it. -/
theorem ofText_isNaN_eq_false_iff (source : String) :
    (ofText source).isNaN = false ↔ ∃ front inner tail, source.toList = front ++ inner ++ tail ∧
      (∀ c ∈ front, Text.isBlank c = true) ∧ (∀ c ∈ tail, Text.isBlank c = true) ∧
      IsNumeral inner := by
  rw [ofText]
  constructor
  · intro number
    obtain ⟨front, tail, same, blank, blank'⟩ := Text.exists_trim source.toList
    exact ⟨front, _, tail, same, blank, blank', isNumeral_of_readTrimmed number⟩
  · rintro ⟨front, inner, tail, same, blank, blank', numeral⟩
    rw [same, Text.trim_eq blank blank' numeral.not_blank]
    exact readTrimmed_of_isNumeral numeral

end ScriptEngine.Number
