/-!
# Digits

Decimal and hexadecimal digits of the ASCII alphabet, and the natural number that a run of
decimal digits denotes. Digits of other alphabets are not digits here: scripts and property
keys are read with the ASCII ones only.
-/
namespace ScriptEngine.Text

/-- The value of a hexadecimal digit, in either letter case. -/
def hexDigit? (c : Char) : Option Nat :=
  if '0' ≤ c ∧ c ≤ '9' then some (c.toNat - '0'.toNat)
  else if 'a' ≤ c ∧ c ≤ 'f' then some (c.toNat - 'a'.toNat + 10)
  else if 'A' ≤ c ∧ c ≤ 'F' then some (c.toNat - 'A'.toNat + 10)
  else none

def isHexDigit (c : Char) : Bool := (hexDigit? c).isSome

/-- The value of a decimal digit; a character that is no digit counts as zero. -/
def digitValue (c : Char) : Nat := if c.isDigit then c.toNat - '0'.toNat else 0

/-- The number written by decimal digits, the first one most significant. -/
def ofDigits (digits : List Char) : Nat :=
  digits.foldl (fun acc c => acc * 10 + digitValue c) 0

/-- The number written by hexadecimal digits. -/
def ofHexDigits (digits : List Char) : Nat :=
  digits.foldl (fun acc c => acc * 16 + (hexDigit? c).getD 0) 0

/-- The decimal digits of a natural number, without leading zeros. -/
def decimal (n : Nat) : String := String.ofList (Nat.toDigits 10 n)

theorem ofDigits_eq_ofDigitChars {digits : List Char} (h : ∀ c ∈ digits, c.isDigit = true) :
    ofDigits digits = Nat.ofDigitChars 10 digits 0 := by
  unfold ofDigits Nat.ofDigitChars
  generalize 0 = start
  induction digits generalizing start with
  | nil => rfl
  | cons c rest ih =>
    simp only [List.foldl_cons]
    rw [ih fun d hd => h d (List.mem_cons_of_mem c hd)]
    simp [digitValue, h c List.mem_cons_self, Nat.mul_comm]

/-- Reading what was printed gives the number back. -/
theorem ofDigits_toDigits (n : Nat) : ofDigits (Nat.toDigits 10 n) = n := by
  rw [ofDigits_eq_ofDigitChars fun c hc => Nat.isDigit_of_mem_toDigits (by decide) (by decide) hc]
  exact Nat.ofDigitChars_toDigits (by decide) (by decide)

theorem decimal_injective {m n : Nat} (h : decimal m = decimal n) : m = n := by
  rw [← ofDigits_toDigits m, ← ofDigits_toDigits n, String.ofList_injective h]

/-- The number whose decimal text this is. Only the canonical text counts, which is made of digits
and has no leading zero. -/
def readDecimal? (text : String) : Option Nat :=
  match text.toList with
  | [] => none
  | first :: rest =>
    if (first == '0' && !rest.isEmpty) || !(first :: rest).all Char.isDigit then none
    else some (ofDigits (first :: rest))

theorem eq_of_readDecimal?_decimal {m n : Nat} (h : readDecimal? (decimal m) = some n) :
    n = m := by
  unfold readDecimal? decimal at h
  rw [String.toList_ofList] at h
  split at h
  · cases h
  · next digits =>
    split at h
    · cases h
    · rw [← digits, ofDigits_toDigits, Option.some.injEq] at h
      exact h.symm

/-- Decimal digits of an integer, after a minus sign if it is negative. -/
def signedDecimal : Int → String
  | .ofNat n => decimal n
  | .negSucc n => "-" ++ decimal (n + 1)

end ScriptEngine.Text
