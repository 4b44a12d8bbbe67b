import Mathlib
import ScriptEngine.Proofs.Text.Units
import ScriptEngine.Tree.Literal

/-!
# Escapes

A character between the quotes of a string can be written in several ways: as itself, by the
hexadecimal code of its units, by the code of a byte, or by a letter that names it. `Spells` lists
these ways, and `Writes` puts the spellings of several characters one behind the other, with line
continuations wherever the writer likes.

Main result: reading such a text gives the characters back, whichever spelling each of them has
(`unescape_of_writes`). The reader looks ahead at three places, and at none of them does it take
anything of the next spelling: behind a unit that is the first half of a pair
(`joinUnit_of_basic`, `joinUnit_of_pair`), behind a zero, and behind a carriage return.
-/
namespace ScriptEngine.Literal

open Text (charUnits charUnits_single charUnits_pair)

/-- The number is written by exactly `count` hexadecimal digits, in either letter case. -/
structure InHex (count code : Nat) (digits : List Char) : Prop where
  length : digits.length = count
  all : ∀ d ∈ digits, Text.isHexDigit d = true
  value : Text.ofHexDigits digits = code

/-- The letters that name a character, with the character. -/
def letters : List (Char × Char) :=
  [('n', '\n'), ('t', '\t'), ('r', '\r'), ('b', '\x08'), ('f', '\x0c'), ('v', '\x0b')]

/-- The ways to write a character between the quotes of a string. -/
inductive Spells (c : Char) : List Char → Prop where
  | itself (plain : c ≠ '\\') : Spells c [c]
  | unit {code : Nat} {digits : List Char} (units : charUnits c = [code])
    (hex : InHex 4 code digits) : Spells c ('\\' :: 'u' :: digits)
  /-- A character outside the basic plane takes two escapes, one for each of its surrogates. -/
  | pair {high low : Nat} {first second : List Char} (units : charUnits c = [high, low])
    (hex : InHex 4 high first) (hex' : InHex 4 low second) :
    Spells c ('\\' :: 'u' :: (first ++ '\\' :: 'u' :: second))
  | byte {digits : List Char} (hex : InHex 2 c.toNat digits) : Spells c ('\\' :: 'x' :: digits)
  | letter {l : Char} (named : (l, c) ∈ letters) : Spells c ['\\', l]
  | zero (null : c = '\x00') : Spells c ['\\', '0']

/-- A backslash in front of a line break: the string goes on in the next line. A carriage return
counts only together with the line feed behind it. -/
def continuations : List (List Char) :=
  [['\\', '\n'], ['\\', '\r', '\n'], ['\\', '\u2028'], ['\\', '\u2029']]

/-- No digit stands at the beginning of the text. -/
def NoDigit (raw : List Char) : Prop := ∀ d ∈ raw.head?, d.isDigit = false

/-- The text writes the characters: a spelling for each of them, and line continuations before,
between and behind the spellings. A zero escape needs something else than a digit behind it. -/
inductive Writes : (chars raw : List Char) → Prop where
  | nil : Writes [] []
  | char {c : Char} {chars spelling raw : List Char} (spells : Spells c spelling)
    (apart : spelling = ['\\', '0'] → NoDigit raw) (later : Writes chars raw) :
    Writes (c :: chars) (spelling ++ raw)
  | continued {line chars raw : List Char} (mem : line ∈ continuations)
    (later : Writes chars raw) : Writes chars (line ++ raw)

variable {c : Char} {chars digits raw : List Char} {code count high low rounds : Nat}

/-! ## Codes -/

theorem hexDigits?_of_inHex (hex : InHex count code digits) (raw : List Char) :
    hexDigits? (digits ++ raw) count = some (code, raw) := by
  obtain ⟨rfl, all, rfl⟩ := hex
  simp [hexDigits?, List.all_eq_true.mpr all]

theorem codePoint_toNat (c : Char) : codePoint c.toNat = c := by
  have valid : Nat.isValidChar c.toNat := c.valid
  simp only [codePoint, dif_pos valid]
  rfl

/-! ## Looking ahead -/

/-- A unit that is a character by itself is not joined with what follows. -/
theorem joinUnit_of_basic (units : charUnits c = [code]) (raw : List Char) :
    joinUnit code raw = (c, raw) := by
  obtain ⟨rfl, other⟩ := charUnits_single units
  simp [joinUnit, other, codePoint_toNat]

theorem joinUnit_of_pair (units : charUnits c = [high, low]) (hex : InHex 4 low digits)
    (raw : List Char) : joinUnit high ('\\' :: 'u' :: (digits ++ raw)) = (c, raw) := by
  obtain ⟨first, second, joined⟩ := charUnits_pair units
  have found : lowSurrogate? ('\\' :: 'u' :: (digits ++ raw)) = some (low, raw) := by
    simp [lowSurrogate?, hexDigits?_of_inHex hex, second]
  simp [joinUnit, first, found, joined, codePoint_toNat]

/-! ## Escapes -/

/-- A spelling that is an escape is read as its character, up to its end. -/
theorem escape_of_spells {body : List Char} (spells : Spells c ('\\' :: body))
    (apart : '\\' :: body = ['\\', '0'] → NoDigit raw) :
    escape (body ++ raw) = .ok (some c, raw) := by
  cases spells with
  | itself plain => exact absurd rfl plain
  | unit units hex =>
    simp [escape, hexDigits?_of_inHex hex, joinUnit_of_basic units]
  | @pair high low first second units hex hex' =>
    -- The second escape is what the lookahead behind the first one finds.
    have split : first ++ '\\' :: 'u' :: second ++ raw =
        first ++ '\\' :: 'u' :: (second ++ raw) := by simp
    simp [escape, split, hexDigits?_of_inHex hex, joinUnit_of_pair units hex']
  | byte hex => simp [escape, hexDigits?_of_inHex hex, codePoint_toNat]
  | letter named =>
    simp only [letters, List.mem_cons, Prod.mk.injEq, List.not_mem_nil, or_false] at named
    rcases named with ⟨rfl, rfl⟩ | ⟨rfl, rfl⟩ | ⟨rfl, rfl⟩ | ⟨rfl, rfl⟩ | ⟨rfl, rfl⟩ | ⟨rfl, rfl⟩ <;>
      rfl
  | zero null =>
    subst null
    have apart := apart rfl
    cases raw with
    | nil => rfl
    | cons d raw =>
      have other : d.isDigit = false := apart d rfl
      simp [escape, other]

/-- A line continuation is read to its end and stands for nothing. -/
theorem escape_of_continuation {line : List Char} (mem : '\\' :: line ∈ continuations) :
    escape (line ++ raw) = .ok (none, raw) := by
  simp only [continuations, List.mem_cons, List.cons.injEq, true_and, List.not_mem_nil,
    or_false] at mem
  rcases mem with rfl | rfl | rfl | rfl <;> rfl

/-! ## Texts -/

/-- Whatever is written is read back, in as many rounds as the text has characters. -/
theorem unescapeWithin_of_writes (writes : Writes chars raw) (enough : raw.length ≤ rounds) :
    unescapeWithin rounds raw = .ok chars := by
  induction writes generalizing rounds with
  | nil => cases rounds <;> rfl
  | @char c chars spelling raw spells apart later ih =>
    by_cases escaped : ∃ body, spelling = '\\' :: body
    · obtain ⟨body, rfl⟩ := escaped
      obtain ⟨rounds, rfl⟩ : ∃ n, rounds = n + 1 := ⟨rounds - 1, by simp at enough; omega⟩
      have first := escape_of_spells spells apart
      have rest := @ih rounds (by simp at enough; omega)
      simp [unescapeWithin, first, rest, bind, Except.bind, pure, Except.pure]
    · -- What is no escape is the character itself.
      cases spells with
      | itself plain =>
        obtain ⟨rounds, rfl⟩ : ∃ n, rounds = n + 1 := ⟨rounds - 1, by simp at enough; omega⟩
        have rest := @ih rounds (by simp at enough; omega)
        simp [unescapeWithin, rest, bind, Except.bind, pure, Except.pure]
      | _ => exact absurd ⟨_, rfl⟩ escaped
  | @continued line chars raw mem later ih =>
    obtain ⟨body, rfl⟩ : ∃ body, line = '\\' :: body := by
      simp only [continuations, List.mem_cons, List.not_mem_nil, or_false] at mem
      rcases mem with rfl | rfl | rfl | rfl <;> exact ⟨_, rfl⟩
    obtain ⟨rounds, rfl⟩ : ∃ n, rounds = n + 1 := ⟨rounds - 1, by simp at enough; omega⟩
    have first : escape (body ++ raw) = .ok (none, raw) := escape_of_continuation mem
    have rest := @ih rounds (by simp at enough; omega)
    simp [unescapeWithin, first, rest, bind, Except.bind, pure, Except.pure]

/-- Unescaping undoes escaping, for every choice of a spelling for each character and wherever lines
are continued. -/
theorem unescape_of_writes (writes : Writes chars raw) : unescape raw = .ok chars :=
  unescapeWithin_of_writes writes (Nat.le_refl _)

/-- A pair of surrogates in digits of both cases, a null behind it that is kept apart from the digit
of the next line, and a byte. -/
theorem unescape_of_writes_mixed :
    Writes ['😀', '\x00', '1', 'A'] ("\\ud83D\\uDe00" ++ "\\0" ++ "\\\n" ++ "1" ++ "\\x41").toList ∧
      unescape ("\\ud83D\\uDe00" ++ "\\0" ++ "\\\n" ++ "1" ++ "\\x41").toList =
        .ok ['😀', '\x00', '1', 'A'] := by
  have high : InHex 4 0xD83D "d83D".toList := ⟨rfl, List.all_eq_true.mp (by decide), rfl⟩
  have low : InHex 4 0xDE00 "De00".toList := ⟨rfl, List.all_eq_true.mp (by decide), rfl⟩
  have pair : Spells '😀' "\\ud83D\\uDe00".toList := .pair rfl high low
  have code : InHex 2 'A'.toNat "41".toList := ⟨rfl, List.all_eq_true.mp (by decide), rfl⟩
  have byte : Spells 'A' "\\x41".toList := .byte code
  have line : ['\\', '\n'] ∈ continuations := by decide
  have writes : Writes ['😀', '\x00', '1', 'A']
      ("\\ud83D\\uDe00" ++ "\\0" ++ "\\\n" ++ "1" ++ "\\x41").toList :=
    .char pair nofun
      (.char (.zero rfl) (fun _ => by simp [NoDigit]; decide)
        (.continued line (.char (.itself (by decide)) nofun (.char byte nofun .nil))))
  exact ⟨writes, unescape_of_writes writes⟩

end ScriptEngine.Literal
