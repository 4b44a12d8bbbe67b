import ScriptEngine.Proofs.Tree.Levels
import ScriptEngine.Proofs.Tree.Rendering

/-!
# Reading literals back

The escapes of a string stand for its characters (`unescape_escaped`), and the digits of a number for
the number (`ofNumeric?_decimal`).
-/
namespace ScriptEngine.Script

section

variable {source rest more : List Char} {c : Char}

/-! ## Strings -/

/-- A round of a repetition that takes something and makes nothing. -/
theorem skips_round {item : Part} {text middle : List Char} (round : grammar.Skips item text middle)
    (shorter : middle.length < text.length) (later : grammar.Skips (.many item) middle rest) :
    grammar.Skips (.many item) text rest := by
  refine (round.many shorter later).mono ?_
  rintro _ ⟨_, _, rfl, rfl, rfl⟩
  rfl

/-- What the characters of a string in double quotes repeat. -/
def stringItem : Part :=
  sign "\\" ++ (sign "\r\n" ||| anyChar) |||
    .notAhead (one (· == '"') ||| sign "\\" ||| lineTerminator) ++ anyChar

/-- Whether a character stands for itself between double quotes. -/
def standsForItself (c : Char) : Bool := c != '"' && c != '\\' && !isLineBreak c

theorem skips_plain (plain : standsForItself c = true) (rest : List Char) :
    grammar.Skips stringItem (c :: rest) rest := by
  simp only [standsForItself, Bool.and_eq_true, bne_iff_ne, Bool.not_eq_true'] at plain
  obtain ⟨⟨quote, slash⟩, line⟩ := plain
  have noSlash : grammar.Refuses (sign "\\") (c :: rest) := fun here eq =>
    .text (by simp [eq, Ne.symm slash])
  have noQuote : grammar.Refuses (one (· == '"')) (c :: rest) :=
    Grammar.refuses_one (by simpa using quote)
  have noReturn : grammar.Refuses (sign "\r\n") (c :: rest) := fun here eq => .text (by
    rw [eq]
    rintro ⟨more, same⟩
    cases (List.cons.inj same).1
    cases line)
  have noBreak : grammar.Refuses (one isLineBreak) (c :: rest) :=
    Grammar.refuses_one (by simpa using line)
  have look := ((noQuote.alt noSlash).alt (noReturn.alt noBreak)).notAhead
  exact (look.seq (Grammar.skips_one rfl rest)).alt_right noSlash.seq

theorem skips_escape (c : Char) (rest : List Char) (simple : c ≠ '\r') :
    grammar.Skips stringItem ('\\' :: c :: rest) rest := by
  have noReturn : grammar.Refuses (sign "\r\n") (c :: rest) := fun here eq => .text (by
    rw [eq]
    rintro ⟨more, same⟩
    exact simple (List.cons.inj same).1.symm)
  have any : grammar.Skips (sign "\r\n" ||| anyChar) (c :: rest) rest :=
    Grammar.Yields.alt_right noReturn (Grammar.skips_one rfl rest)
  exact (Grammar.Skips.seq (Grammar.skips_text ['\\'] (c :: rest)) any).alt_left

/-- A character that was escaped where it had to be is one or more rounds. -/
theorem skips_escapeChar (c : Char) (later : grammar.Skips (.many stringItem) more rest) :
    grammar.Skips (.many stringItem) (escapeChar c ++ more) rest := by
  have code (d : Char) (plain : standsForItself d = true) :
      grammar.Skips (.many stringItem) ('\\' :: 'u' :: '2' :: '0' :: '2' :: d :: more) rest := by
    have plains {d : Char} {text : List Char} (plain : standsForItself d = true)
        (later : grammar.Skips (.many stringItem) text rest) :
        grammar.Skips (.many stringItem) (d :: text) rest :=
      skips_round (skips_plain plain text) (Nat.lt_succ_self _) later
    refine skips_round (skips_escape 'u' _ (by decide)) (Nat.lt_succ_of_lt (Nat.lt_succ_self _)) ?_
    exact plains (by decide) (plains (by decide) (plains (by decide) (plains plain later)))
  have short (d : Char) (simple : d ≠ '\r') :
      grammar.Skips (.many stringItem) ('\\' :: d :: more) rest :=
    skips_round (skips_escape d more simple) (Nat.lt_succ_of_lt (Nat.lt_succ_self _)) later
  unfold escapeChar
  split
  · exact short '"' (by decide)
  · exact short '\\' (by decide)
  · exact short 'n' (by decide)
  · exact short 'r' (by decide)
  · exact code '8' (by decide)
  · exact code '9' (by decide)
  next quote slash feed return' line paragraph =>
    refine skips_round (skips_plain ?_ _) (by simp) later
    simp only [standsForItself, isLineBreak, Bool.and_eq_true, Bool.not_eq_true', bne_iff_ne,
      Bool.or_eq_false_iff, beq_eq_false_iff_ne]
    exact ⟨⟨quote, slash⟩, ⟨⟨feed, return'⟩, line⟩, paragraph⟩

theorem skips_escaped (value : String) (more : List Char) :
    grammar.Skips (stringChars '"') (escaped value ++ '"' :: more) ('"' :: more) := by
  unfold escaped
  induction value.toList with
  | nil =>
    refine Grammar.Refuses.many (Grammar.refuses_of_foresee ['"'] ?_)
    decide
  | cons c chars ih =>
    rw [List.flatMap_cons, List.append_assoc]
    exact skips_escapeChar c ih

theorem yields_quoted (value : String) (more : List Char) :
    grammar.Yields (.rule .stringLiteral) (quoted value ++ more) more fun nodes =>
      ∃ span span', nodes =
        [.branch .stringLiteral span
          [.token .doubleStringChars span' (String.ofList (escaped value))]] := by
  have chars := Grammar.Yields.token .doubleStringChars (g := grammar) rfl
    (skips_escaped value more)
  have opened := Grammar.Skips.seq (Grammar.skips_text ['"'] _) chars
  have closed := opened.skip (Grammar.skips_text ['"'] more)
  rw [quoted, List.cons_append, List.append_assoc]
  refine (Grammar.Yields.branch .stringLiteral (g := grammar) rfl closed.alt_left).mono ?_
  rintro _ ⟨span, _, ⟨span', rfl⟩, rfl⟩
  exact ⟨span, span', rfl⟩

/-- An escape stands for the character, and what follows it is read on. -/
theorem unescapeWithin_escapeChar (c : Char) (rest : List Char) (rounds : Nat) :
    Literal.unescapeWithin (rounds + 1) (escapeChar c ++ rest) = (do
      let chars ← Literal.unescapeWithin rounds rest
      pure (c :: chars)) := by
  unfold escapeChar
  split
  · rfl
  · rfl
  · rfl
  · rfl
  · rfl
  · rfl
  next slash _ _ _ _ =>
    rw [List.singleton_append, Literal.unescapeWithin]
    exact slash

theorem unescapeWithin_flatMap (chars : List Char) {rounds : Nat} (enough : chars.length ≤ rounds) :
    Literal.unescapeWithin rounds (chars.flatMap escapeChar) = .ok chars := by
  induction chars generalizing rounds with
  | nil => cases rounds <;> rfl
  | cons c chars ih =>
    obtain ⟨rounds, rfl⟩ : ∃ n, rounds = n + 1 := ⟨rounds - 1, by simp at enough; omega⟩
    rw [List.flatMap_cons, unescapeWithin_escapeChar, ih (by simpa using enough)]
    rfl

theorem unescape_escaped (value : String) :
    Literal.unescape (escaped value) = .ok value.toList := by
  refine unescapeWithin_flatMap value.toList ?_
  have grows (chars : List Char) : chars.length ≤ (chars.flatMap escapeChar).length := by
    induction chars with
    | nil => exact Nat.le_refl _
    | cons c chars ih =>
      have some : 1 ≤ (escapeChar c).length := by
        unfold escapeChar
        split <;> exact Nat.succ_le_succ (Nat.zero_le _)
      rw [List.flatMap_cons, List.length_append, List.length_cons]
      omega
  exact grows _

theorem stringValue_escaped (span span' : Span) (value : String) :
    stringValue (.branch .stringLiteral span
      [.token .doubleStringChars span' (String.ofList (escaped value))]) = pure value := by
  simp [stringValue, Node.children, Node.text, unescape_escaped]

/-! ## Numbers -/

/-- The digits of a number are a single zero, or they begin with another digit. -/
theorem toDigits_cases (n : Nat) :
    Nat.toDigits 10 n = ['0'] ∨
      ∃ c rest, Nat.toDigits 10 n = c :: rest ∧ c ≠ '0' ∧ ∀ d ∈ c :: rest, d.isDigit = true := by
  have digits : ∀ d ∈ Nat.toDigits 10 n, d.isDigit = true := fun d mem =>
    Nat.isDigit_of_mem_toDigits (by decide) (by decide) mem
  suffices first : n ≠ 0 → ∃ c rest, Nat.toDigits 10 n = c :: rest ∧ c ≠ '0' by
    by_cases zero : n = 0
    · subst zero
      exact .inl rfl
    · obtain ⟨c, rest, eq, other⟩ := first zero
      exact .inr ⟨c, rest, eq, other, eq ▸ digits⟩
  clear digits
  induction n using Nat.strongRecOn with
  | ind n ih =>
    intro nonzero
    by_cases small : n < 10
    · rw [Nat.toDigits_of_lt_base small]
      refine ⟨_, [], rfl, ?_⟩
      have each : ∀ n < 10, n ≠ 0 → n.digitChar ≠ '0' := by decide
      exact each n small nonzero
    · obtain ⟨c, rest, eq, other⟩ := ih (n / 10) (by omega) (by omega)
      rw [Nat.toDigits_of_base_le (by decide) (by omega), eq]
      exact ⟨c, _, rfl, other⟩

def digitChars : List Char := ['0', '1', '2', '3', '4', '5', '6', '7', '8', '9']

theorem mem_digitChars {c : Char} (digit : c.isDigit = true) : c ∈ digitChars := by
  have each : ∀ n < 58, 48 ≤ n → Char.ofNat n ∈ digitChars := by decide
  simp only [Char.isDigit, Bool.and_eq_true, decide_eq_true_eq, ge_iff_le,
    UInt32.le_iff_toNat_le] at digit
  have mem := each c.toNat (Nat.lt_succ_of_le digit.2) digit.1
  rwa [Char.ofNat_toNat] at mem

theorem decimal_starts (n : Nat) :
    ∃ c rest, (Text.decimal n).toList = c :: rest ∧ c ∈ digitChars := by
  rw [Text.decimal, String.toList_ofList]
  rcases toDigits_cases n with eq | ⟨c, rest, eq, _, digits⟩
  · exact ⟨'0', [], eq, by decide⟩
  · exact ⟨c, rest, eq, mem_digitChars (digits c List.mem_cons_self)⟩

theorem yields_number (n : Nat) (more : List Char) :
    grammar.Yields (.rule .numericLiteral) ((Text.decimal n).toList ++ ')' :: more) (')' :: more)
      fun nodes => ∃ span, nodes = [.token .numericLiteral span (Text.decimal n)] := by
  have digits : grammar.Skips (pattern .numericLiteral) (Nat.toDigits 10 n ++ ')' :: more)
      (')' :: more) := by
    have ends : grammar.Skips (.notAhead (one isNameStart ||| digit)) (')' :: more) (')' :: more) :=
      Grammar.skips_of_foresee [')'] [')'] (by decide)
    rcases toDigits_cases n with zero | ⟨c, rest, eq, other, digits⟩
    · rw [zero]
      exact Grammar.skips_of_foresee ['0', ')'] [')'] (by decide)
    · rw [eq]
      obtain ⟨digit, digits⟩ := List.forall_mem_cons.1 digits
      have noZero (source : String) (zero : source.toList.head? = some '0') :
          grammar.Refuses (sign source) (c :: rest ++ ')' :: more) := fun here eq => .text (by
        rw [eq]
        rintro ⟨tail, same⟩
        rw [← List.head?_append_of_ne_nil _ (by rintro empty; simp [empty] at zero), same] at zero
        simp at zero
        exact other zero)
      have hex : grammar.Refuses hexDigits (c :: rest ++ ')' :: more) :=
        ((noZero "0x" rfl).alt (noZero "0X" rfl)).seq
      have whole : grammar.Skips (sign "0" ||| one (fun c => c.isDigit && c != '0') ++ .many Script.digit)
          (c :: rest ++ ')' :: more) (')' :: more) := by
        have first : grammar.Skips (one fun c => c.isDigit && c != '0') (c :: rest ++ ')' :: more)
            (rest ++ ')' :: more) := Grammar.skips_one (by simp [digit, other]) _
        have others : grammar.Skips (.many Script.digit) (rest ++ ')' :: more) (')' :: more) := by
          refine skips_many_one digits ?_
          rintro _ ⟨⟩
          rfl
        exact (Grammar.Skips.seq first others).alt_right (noZero "0" rfl)
      have fraction : grammar.Skips (.optional (sign "." ++ .many Script.digit)) (')' :: more) (')' :: more) :=
        Grammar.skips_of_foresee [')'] [')'] (by decide)
      have power : grammar.Skips (.optional exponent) (')' :: more) (')' :: more) :=
        Grammar.skips_of_foresee [')'] [')'] (by decide)
      have decimal : grammar.Skips decimalDigits (c :: rest ++ ')' :: more) (')' :: more) :=
        ((whole.skip fraction).alt_left).skip power
      exact (decimal.alt_right hex).skip ends
  have token := Grammar.Yields.token .numericLiteral (g := grammar) rfl digits
  rwa [Text.decimal, String.toList_ofList]

theorem ofNumeric?_decimal {n : Nat} (fits : n ≤ Literal.maxInteger) :
    Literal.ofNumeric? (Text.decimal n).toList = some (.integer n) := by
  have digits : ∀ d ∈ Nat.toDigits 10 n, d.isDigit = true := fun d mem =>
    Nat.isDigit_of_mem_toDigits (by decide) (by decide) mem
  have read : Number.readLiteral? (Nat.toDigits 10 n) = some ⟨Nat.toDigits 10 n, [], 0⟩ := by
    have all : (Nat.toDigits 10 n ++ []).takeWhile Char.isDigit = Nat.toDigits 10 n ++ [] :=
      List.takeWhile_append_of_pos digits
    have none : (Nat.toDigits 10 n ++ []).dropWhile Char.isDigit = [] :=
      List.dropWhile_append_of_pos digits
    rw [List.append_nil] at all none
    simp [Number.readLiteral?, all, none, Nat.toDigits_ne_nil]
  have value : ((Number.readLiteral? (Nat.toDigits 10 n)).map fun literal =>
      if (Nat.toDigits 10 n).all Char.isDigit && Text.ofDigits (Nat.toDigits 10 n) ≤ Literal.maxInteger then
        Literal.integer (Text.ofDigits (Nat.toDigits 10 n))
      else .double literal.toFloat) = some (.integer n) := by
    rw [read, Text.ofDigits_toDigits]
    simp [List.all_eq_true.2 digits, fits]
  rw [Text.decimal, String.toList_ofList]
  rcases toDigits_cases n with zero | ⟨c, rest, eq, other, _⟩
  · rw [zero] at value ⊢
    exact value
  · rw [eq] at value ⊢
    unfold Literal.ofNumeric?
    split
    next same => exact absurd (List.cons.inj same).1 other
    next same => exact absurd (List.cons.inj same).1 other
    · exact value

end

end ScriptEngine.Script
