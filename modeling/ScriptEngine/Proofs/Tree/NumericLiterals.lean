import Mathlib
import ScriptEngine.Evaluate.Expression
import ScriptEngine.Proofs.Evaluation.Run
import ScriptEngine.Proofs.Number.Digits
import ScriptEngine.Proofs.Tree.Building
import ScriptEngine.Proofs.Tree.Tokens

/-!
# Numbers in scripts and in strings

A number names a property in two ways. In an object literal the builder makes the key of its token,
in an index the evaluator makes it of the value that the token has been built as. It is the same key,
whatever number the grammar takes (`propertyKey_eq_index`).

The text of a number can stand in a script or in a string that is converted to a number. Two readers
take it apart: the builder reads hexadecimal digits exactly while they fit a word, the conversion
always adds them up in doubles. Main result: both give the nearest double of the number that is
written, and so the same one, unless it is hexadecimal and decided late (`numeric_token_readings`).
Such numbers exist: `0x1000000000000081` as a string is `256` less than as a literal
(`numeric_token_differs`).
-/
namespace ScriptEngine

/-! ## Numbers as keys -/

/-- The name that a token gives a property is the text of the number that it denotes. -/
theorem Literal.propertyName?_eq {token : List Char} {literal : Literal}
    (eq : ofNumeric? token = some literal) :
    ∃ n : Number, Evaluate.literalValue literal = .number n ∧ propertyName? token = some n.text := by
  unfold propertyName?
  rw [eq]
  rcases Script.ofNumeric?_kind eq with ⟨n, rfl⟩ | ⟨x, rfl⟩
  · exact ⟨.ofNat n, rfl, by rw [Number.text_ofNat]⟩
  · exact ⟨.ofFloat x, rfl, by rw [Number.text_ofFloat]⟩

namespace Evaluate

open Operation

variable (call : Caller) {m after : Machine} {base : Value}

/-- The place of an index that is a literal. -/
theorem run_reference_literal {object : Expression} {literal : Literal} {n : Number}
    (value : literalValue literal = .number n) (found : (evaluate call object).run m = (.value base, after))
    (present : base.isNullish = false) (span inner : Span) :
    (reference call (.index span object (.literal inner literal))).run m =
      (.value ⟨.property base, n.text, after.control.strict⟩, after) := by
  rw [reference, evaluate, indexReference, Evaluation.run_bind, found, Evaluation.andThen_value,
    value, pure_bind, present]
  rfl

end Evaluate

namespace Script

variable {source : List Char} {node value : Node Rule} {rest : List (Node Rule)} {t t' : Tracker}
  {key : String}

/-- A number of the grammar is built as a literal, and as a name of a property it is the text of
what the literal denotes. -/
theorem numeric_of_derived (derived : grammar.Derived source node)
    (numeric : node.rule = .numericLiteral) :
    ∃ (literal : Literal) (n : Number), Evaluate.literalValue literal = .number n ∧
      literalValue node = pure literal ∧
      ∀ span, propertyKey (.branch .propertyName span [node]) = pure n.text := by
  have converts := converts_of_derived derived
  rw [numeric] at converts
  have converted := (Bool.and_eq_true_iff.1 converts).1
  obtain ⟨literal, eq⟩ := Option.isSome_iff_exists.1 converted
  obtain ⟨n, denotes, name⟩ := Literal.propertyName?_eq eq
  refine ⟨literal, n, denotes, ?_, fun span => ?_⟩
  · simp only [literalValue, numeric, eq, require]
  · simp only [propertyKey, Node.children_branch, numeric, name, require]

/-- The key of a property with a value is the one that its name is built as. -/
theorem buildProperties_data {name : Node Rule} (named : propertyKey name = pure key) {span : Span}
    {properties : List PropertyNode}
    (built : (buildProperties source (.branch .dataProperty span [name, value] :: rest)).run t =
      (.ok properties, t')) :
    ∃ e more, properties = .data span key e :: more := by
  rw [buildProperties, named, pure_bind, Build.run_bind] at built
  split at built
  next e _ _ =>
    rw [Build.run_bind] at built
    split at built
    next more _ _ =>
      cases built
      exact ⟨e, more, rfl⟩
    · cases built
  · cases built

/-- A number that is written as the name of a property names the same property as an index. -/
theorem propertyKey_eq_index (derived : grammar.Derived source node)
    (numeric : node.rule = .numericLiteral) :
    ∃ (key : String) (literal : Literal),
      (∀ span inner, ∀ t t' value rest properties,
        (buildProperties source
          (.branch .dataProperty span [.branch .propertyName inner [node], value] :: rest)).run t =
            (.ok properties, t') →
          ∃ e more, properties = .data span key e :: more) ∧
      (∀ span, propertyKey (.branch .propertyName span [node]) = pure key) ∧
      (∀ span, buildExpression source (.branch .literal span [node]) =
        pure (.literal span literal)) ∧
      ∀ call object m base after, (Evaluate.evaluate call object).run m = (.value base, after) →
        base.isNullish = false → ∀ span inner,
          (Evaluate.reference call (.index span object (.literal inner literal))).run m =
            (.value ⟨.property base, key, after.control.strict⟩, after) := by
  obtain ⟨literal, n, denotes, built, name⟩ := numeric_of_derived derived numeric
  refine ⟨n.text, literal, fun _ inner _ _ _ _ _ => buildProperties_data (name inner), name,
    fun span => ?_, fun call _ _ _ _ found present span inner =>
      Evaluate.run_reference_literal call denotes found present span inner⟩
  rw [buildExpression, built, pure_bind]

/-- A number that no double is: both ways lead to the double next to it. -/
theorem propertyKey_eq_index_rounded :
    ∃ (node : Node Rule) (literal : Literal), node.text = "9007199254740993" ∧
      grammar.Derived "9007199254740993".toList node ∧
      propertyKey (.branch .propertyName node.span [node]) = pure "9007199254740992" ∧
      buildExpression "9007199254740993".toList (.branch .literal node.span [node]) =
        pure (.literal node.span literal) ∧
      ∀ call span inner m, (Evaluate.reference call
        (.index span (.literal inner (.string "o")) (.literal inner literal))).run m =
          (.value ⟨.property (.string "o"), "9007199254740992", m.control.strict⟩, m) := by
  have found : grammar.read 1 (grammar.pattern .numericLiteral) ⟨"9007199254740993".toList, 0⟩ =
      .matched ⟨[], 16⟩ [] := rfl
  have derived := Grammar.Derived.node (g := grammar) (Cursor.Within.start _) found
    (List.forall_mem_nil _)
  obtain ⟨key, literal, -, name, built, index⟩ := propertyKey_eq_index derived rfl
  have text : Literal.propertyName? "9007199254740993".toList =
      some "9007199254740992" := by decide +kernel
  have written : propertyKey (.branch .propertyName ⟨0, 16⟩ [.token .numericLiteral ⟨0, 16⟩
      "9007199254740993"]) = pure "9007199254740992" := by
    simp only [propertyKey, Node.children_branch, Node.rule, Node.text, text, require]
  obtain rfl : key = "9007199254740992" := by
    have same := congrArg (fun build => (build.run ⟨[]⟩).1) ((name ⟨0, 16⟩).symm.trans written)
    exact Except.ok.inj same
  exact ⟨_, literal, rfl, derived, written, built _, fun call span inner m =>
    index call (.literal inner (.string "o")) m (.string "o") m rfl rfl span inner⟩

end Script

/-! ## Two readers of a number -/

open Float.Model (UnpackedFloat)
open Float.Model.UnpackedFloat
open Binary64 (Exact Holds Magnitude Nearest)

/-! ### Doubles in canonical form -/

namespace Binary64

variable {p q : ℚ} {x y : Float} {a b : Magnitude}

theorem Magnitude.value_of_isIntegral (integral : a.isIntegral = true) : a.value = a.floor := by
  unfold Magnitude.floor Magnitude.value
  simp only [Nat.pow_eq]
  by_cases whole : 0 ≤ a.exponent
  · obtain ⟨k, same⟩ := Int.eq_ofNat_of_zero_le whole
    rw [if_pos whole, same, Int.toNat_natCast, zpow_natCast]
    push_cast
    rfl
  · obtain ⟨k, same⟩ := Int.eq_ofNat_of_zero_le (show 0 ≤ -a.exponent by omega)
    have divides : 2 ^ k ∣ a.mantissa := by
      simp only [Magnitude.isIntegral, same, Int.toNat_natCast, Bool.or_eq_true,
        decide_eq_true_eq] at integral
      exact Nat.dvd_of_mod_eq_zero (integral.resolve_left whole)
    have exponent : a.exponent = -(k : Int) := by omega
    have nonzero : ((2 ^ k : Nat) : ℚ) ≠ 0 := by positivity
    rw [if_neg whole, same, Int.toNat_natCast, exponent, zpow_neg, zpow_natCast, ← div_eq_mul_inv,
      Nat.cast_div divides nonzero]
    push_cast
    rfl

theorem beq_unpacked_iff (fits : a.Fits) (fits' : b.Fits) :
    UnpackedFloat.beq (unpacked a) (unpacked b) = true ↔ a = b := by
  rcases Nat.eq_zero_or_pos a.mantissa with none | some
  · rcases Nat.eq_zero_or_pos b.mantissa with none' | some'
    · -- There is one magnitude of zero.
      rw [unpacked_zero none, unpacked_zero none']
      have value : a.value = b.value := by
        rw [Magnitude.value_zero none, Magnitude.value_zero none']
      exact iff_of_true rfl (fits.toCanonical.eq_of_value fits'.toCanonical value)
    · rw [unpacked_zero none, unpacked_pos some']
      refine iff_of_false nofun ?_
      rintro rfl
      omega
  · rcases Nat.eq_zero_or_pos b.mantissa with none' | some'
    · rw [unpacked_pos some, unpacked_zero none']
      refine iff_of_false nofun ?_
      rintro rfl
      omega
    · rw [unpacked_pos some, unpacked_pos some']
      rcases a with ⟨m, e⟩
      rcases b with ⟨m', e'⟩
      change (Option.some ((compare e e').then (compare m m')) == Option.some Ordering.eq) = true ↔ _
      rw [beq_iff_eq, Option.some.injEq, Ordering.then_eq_eq, compare_eq_iff_eq, compare_eq_iff_eq,
        Magnitude.mk.injEq, and_comm]

/-- Doubles that are not negative are equal only if they are the same. -/
theorem beq_iff (nearest : Nearest p x) (nearest' : Nearest q y) : (x == y) = true ↔ x = y := by
  have infinite : infinity.toModel.unpack = .infinity .positive := rfl
  have compared : (x == y) = UnpackedFloat.beq x.toModel.unpack y.toModel.unpack := rfl
  have apart {x : Float} {a : Magnitude} (holds : Holds x a) : x ≠ infinity := by
    rintro rfl
    cases holds.magnitude.symm.trans magnitude?_infinity
  rw [compared]
  rcases nearest.exact_or_infinity with ⟨_, a, holds, -⟩ | rfl
  · rcases nearest'.exact_or_infinity with ⟨_, b, holds', -⟩ | rfl
    · rw [holds.unpack_eq, holds'.unpack_eq, beq_unpacked_iff holds.fits holds'.fits]
      constructor
      · rintro rfl
        exact holds.unique holds'
      · rintro rfl
        exact Option.some.inj (holds.magnitude.symm.trans holds'.magnitude)
    · rw [holds.unpack_eq, infinite]
      refine iff_of_false ?_ (apart holds)
      unfold unpacked
      split <;> exact nofun
  · rcases nearest'.exact_or_infinity with ⟨_, b, holds', -⟩ | rfl
    · rw [holds'.unpack_eq, infinite]
      refine iff_of_false ?_ (apart holds').symm
      unfold unpacked
      split <;> exact nofun
    · exact iff_of_true rfl rfl

end Binary64

namespace Number

variable {p q : ℚ} {x y : Float}

theorem ofNat_eq_ofFloat (n : Nat) : ofNat n = ofFloat (Float.ofNat n) := by
  change (if n ≤ Binary64.maxSafe then integer n else ofFloat (Float.ofNat n)) = _
  split
  next safe =>
    rw [ofFloat, Binary64.safeInteger?_ofNat safe]
    rfl
  · rfl

/-- The canonical form keeps the double. -/
theorem toFloat_ofFloat (nearest : Nearest q x) : (ofFloat x).toFloat = x := by
  unfold ofFloat
  cases safe : Binary64.safeInteger? x with
  | some n =>
    cases magnitude : Binary64.magnitude? x with
    | none =>
      rw [Binary64.safeInteger?, magnitude] at safe
      cases safe
    | some a =>
      simp only [Binary64.safeInteger?, magnitude, nearest.sign] at safe
      split at safe
      next conditions =>
        cases safe
        simp only [Bool.and_eq_true] at conditions
        have whole : Exact x a.floor :=
          ⟨a, ⟨nearest.sign, magnitude⟩, Binary64.Magnitude.value_of_isIntegral conditions.1.1⟩
        exact (Binary64.nearest_ofNat a.floor).unique whole.nearest
      · cases safe
  | none =>
    dsimp only
    rw [nearest.number, if_neg Bool.false_ne_true, nearest.sign, if_neg Bool.false_ne_true]
    split
    next infinite =>
      rcases nearest.exact_or_infinity with ⟨_, a, holds, -⟩ | rfl
      · rw [(Binary64.finite_of_magnitude? holds.magnitude).2] at infinite
        cases infinite
      · exact infinity_eq
    · rfl

/-- Numbers are equal as values if they are the same double. -/
theorem equal_ofFloat_iff (nearest : Nearest p x) (nearest' : Nearest q y) :
    (ofFloat x).equal (ofFloat y) = true ↔ x = y := by
  have kept := toFloat_ofFloat nearest
  have kept' := toFloat_ofFloat nearest'
  have number := (isNaN_ofFloat x).trans nearest.number
  constructor
  · intro equal
    -- Apart from NaN, canonical forms are compared as they are or as doubles.
    have same : ofFloat x = ofFloat y ∨ (x == y) = true := by
      generalize ofFloat x = a at *
      generalize ofFloat y = b at *
      subst kept kept'
      cases a <;> cases b <;> first
        | exact .inr equal
        | exact .inl rfl
        | cases equal
        | exact .inl (congrArg integer (eq_of_beq equal))
    rcases same with same | same
    · rw [← kept, same, kept']
    · exact (Binary64.beq_iff nearest nearest').mp same
  · rintro rfl
    have reflexive : (x == x) = true := (Binary64.beq_iff nearest nearest).mpr rfl
    rw [← kept] at reflexive
    generalize ofFloat x = a at *
    cases a with
    | integer n => exact beq_self_eq_true n
    | nan => cases number
    | double x => exact reflexive
    | _ => rfl

end Number

namespace Evaluate

open Operation

/-- A text that is converted to a number is compared with a number. -/
theorem run_plus_strictlyEqual (call : Caller) (m : Machine) {literal : Literal} {n : Number}
    (value : literalValue literal = .number n) (text : String) (outer inner first second : Span) :
    (evaluate call (.binary outer .strictlyEqual
      (.unary inner .plus (.literal first (.string text))) (.literal second literal))).run m =
      (.value (.boolean ((Number.ofText text).equal n)), m) := by
  have right : evaluate call (.literal second literal) = pure (.number n) := by
    rw [evaluate, value]
  rw [evaluate, right]
  rfl

end Evaluate

namespace Script

variable {token : List Char} {q : ℚ} {source : List Char} {node : Node Rule}

/-- The token is hexadecimal, and its digits are such that adding them up in doubles goes wrong. -/
def IsDecidedLate (token : List Char) : Prop :=
  ∃ mark digits, token = '0' :: mark :: digits ∧ (mark = 'x' ∨ mark = 'X') ∧
    Binary64.DecidedLate (Text.ofHexDigits digits)

theorem not_isDecidedLate {l : Number.Literal} (spells : Number.Literal.Spells token l) :
    ¬ IsDecidedLate token := by
  rintro ⟨mark, digits, rfl, either, -⟩
  have literal := spells.literalChars mark (by simp)
  rcases either with rfl | rfl <;> cases literal

theorem isDecidedLate_iff {mark : Char} {digits : List Char} (either : mark = 'x' ∨ mark = 'X') :
    IsDecidedLate ('0' :: mark :: digits) ↔ Binary64.DecidedLate (Text.ofHexDigits digits) := by
  constructor
  · rintro ⟨_, _, same, -, late⟩
    cases same
    exact late
  · exact fun late => ⟨mark, digits, rfl, either, late⟩

/-- A whole number without a point and an exponent is all digits. -/
theorem value_of_all_digits {l : Number.Literal} (spells : Number.Literal.Spells token l)
    (all : token.all Char.isDigit = true) : l.value = Text.ofDigits token := by
  have every := List.all_eq_true.mp all
  cases spells with
  | @whole digits rest e some all' exponent =>
    cases exponent with
    | none => simp [Number.Literal.value]
    | @letter mark chars e either spells =>
      have digit := every mark (by simp)
      rcases either with rfl | rfl <;> cases digit
  | point some all' all'' exponent => exact absurd (every '.' (by simp)) (by decide)

theorem isNumeral_of_denotes (denotes : Denotes token q) : Number.IsNumeral token := by
  cases denotes with
  | hexadecimal either some all => exact .hexadecimal either some all
  | decimal spells => exact @Number.IsNumeral.decimal [] _ _ (by decide) spells

/-- A number has no white space around it. -/
theorem ofText_of_denotes (denotes : Denotes token q) :
    Number.ofText (String.ofList token) = Number.readTrimmed token := by
  have none : ∀ c ∈ ([] : List Char), Text.isBlank c = true := List.forall_mem_nil _
  have trimmed := Text.trim_eq none none (isNumeral_of_denotes denotes).not_blank
  rw [List.nil_append, List.append_nil] at trimmed
  rw [Number.ofText, String.toList_ofList, trimmed]

/-- The two readings of the text of a number: the literal that it is built as in a script, with the
double that this evaluates to, and the double that it is converted to in a string. -/
structure Readings (token : List Char) (q : ℚ) (literal : Literal) (x y : Float) : Prop where
  converted : Literal.ofNumeric? token = some literal
  value : Evaluate.literalValue literal = .number (.ofFloat x)
  read : Number.readTrimmed token = .ofFloat y
  equal : Number.equal (.ofFloat y) (.ofFloat x) = true ↔ x = y
  nearest : (x = y ∧ Nearest q x) ↔ ¬ IsDecidedLate token

/-- Hexadecimal digits are built exactly while they fit a word, and converted one by one. -/
theorem exists_readings_hexadecimal {mark : Char} {digits : List Char}
    (either : mark = 'x' ∨ mark = 'X') (some : digits ≠ [])
    (all : ∀ c ∈ digits, Text.isHexDigit c = true) :
    ∃ literal x y, Readings ('0' :: mark :: digits) (Text.ofHexDigits digits) literal x y := by
  obtain ⟨p, nearest⟩ := Binary64.exists_nearest_hexFloat digits
  have decided := Binary64.nearest_hexFloat_iff digits
  have read := Number.readTrimmed_hexadecimal either some all
  have built : Literal.ofNumeric? ('0' :: mark :: digits) =
      Option.some (if Text.ofHexDigits digits ≤ Literal.maxInteger then
        .integer (Text.ofHexDigits digits) else .double (Number.hexFloat digits)) := by
    rcases either with rfl | rfl <;> rfl
  rw [← isDecidedLate_iff either] at decided
  by_cases fits : Text.ofHexDigits digits ≤ Literal.maxInteger
  · rw [if_pos fits] at built
    have exactly := Binary64.nearest_ofNat (Text.ofHexDigits digits)
    refine ⟨_, Float.ofNat (Text.ofHexDigits digits), _, built,
      congrArg Value.number (Number.ofNat_eq_ofFloat _), read,
      (Number.equal_ofFloat_iff nearest exactly).trans eq_comm, ?_⟩
    rw [← decided]
    constructor
    · rintro ⟨same, -⟩
      exact same ▸ exactly
    · intro nearest'
      exact ⟨exactly.unique nearest', exactly⟩
  -- Beyond the words the builder adds the digits up as the conversion does.
  · rw [if_neg fits] at built
    refine ⟨_, Number.hexFloat digits, _, built, rfl, read,
      Number.equal_ofFloat_iff nearest nearest, ?_⟩
    rw [← decided]
    exact and_iff_right rfl

/-- Decimal digits are built exactly while they fit a word, and otherwise read by one reader for
both. -/
theorem exists_readings_decimal {l : Number.Literal} (spells : Number.Literal.Spells token l) :
    ∃ literal x y, Readings token l.value literal x y := by
  have nearest := Number.nearest_toFloat l
  have literal := spells.literalChars
  obtain ⟨c, rest, same, -⟩ := spells.head
  have read : Number.readTrimmed token = .ofFloat l.toFloat := by
    rw [Number.readTrimmed_of_literalChars (by simp [same]) literal,
      Number.readSigned?_unsigned spells]
    rfl
  have built : Literal.ofNumeric? token =
      some (if token.all Char.isDigit && Text.ofDigits token ≤ Literal.maxInteger then
        .integer (Text.ofDigits token) else .double l.toFloat) := by
    unfold Literal.ofNumeric?
    split
    next digits => exact absurd (literal 'x' (by simp)) (by decide)
    next digits => exact absurd (literal 'X' (by simp)) (by decide)
    · rw [Number.readLiteral?_eq_some_iff.mpr spells]
      rfl
  have never := not_isDecidedLate spells
  by_cases whole : (token.all Char.isDigit && Text.ofDigits token ≤ Literal.maxInteger) = true
  · rw [if_pos whole] at built
    have all := (Bool.and_eq_true_iff.mp whole).1
    have exactly := Binary64.nearest_ofNat (Text.ofDigits token)
    rw [← value_of_all_digits spells all] at exactly
    exact ⟨_, Float.ofNat (Text.ofDigits token), _, built,
      congrArg Value.number (Number.ofNat_eq_ofFloat _), read,
      (Number.equal_ofFloat_iff nearest exactly).trans eq_comm,
      iff_of_true ⟨exactly.unique nearest, exactly⟩ never⟩
  · rw [if_neg whole] at built
    exact ⟨_, l.toFloat, _, built, rfl, read, Number.equal_ofFloat_iff nearest nearest,
      iff_of_true ⟨rfl, nearest⟩ never⟩

theorem exists_readings (denotes : Denotes token q) :
    ∃ literal x y, Readings token q literal x y := by
  cases denotes with
  | hexadecimal either some all => exact exists_readings_hexadecimal either some all
  | decimal spells => exact exists_readings_decimal spells

theorem buildExpression_literal {literal : Literal} (built : literalValue node = pure literal)
    (span : Span) :
    buildExpression source (.branch .literal span [node]) = pure (.literal span literal) := by
  rw [buildExpression, built, pure_bind]

/-- Every number that the grammar takes is built as a literal that evaluates to a double, and its
text is converted to a double. The two are the same, and the nearest one to the number that is
written, if and only if the number is not decided late; and it is whether they are the same that a
script sees. -/
theorem numeric_token_readings (derived : grammar.Derived source node)
    (numeric : node.rule = .numericLiteral) :
    ∃ (q : ℚ) (literal : Literal) (x y : Float), Denotes node.text.toList q ∧
      (∀ span, buildExpression source (.branch .literal span [node]) =
        pure (.literal span literal)) ∧
      Evaluate.literalValue literal = .number (.ofFloat x) ∧
      Number.ofText node.text = .ofFloat y ∧
      ((x = y ∧ Nearest q x) ↔ ¬ IsDecidedLate node.text.toList) ∧
      ∀ call m outer inner first second, ∃ same : Bool, (same = true ↔ x = y) ∧
        (Evaluate.evaluate call (.binary outer .strictlyEqual
          (.unary inner .plus (.literal first (.string node.text)))
          (.literal second literal))).run m = (.value (.boolean same), m) := by
  obtain ⟨token, q, text, denotes⟩ :
      ∃ token q, node.text = String.ofList token ∧ Denotes token q := by
    cases derived with
    | @node name _ here stop children _ found _ =>
      rw [Grammar.rule_node] at numeric
      subst numeric
      have token : grammar.isToken .numericLiteral = true := rfl
      obtain ⟨span, chars, writes, same⟩ := Grammar.writes_of_token token found
      obtain ⟨_, _, rfl, writes, rfl⟩ := writes
      obtain ⟨q, denotes⟩ := denotes_of_writes writes
      exact ⟨_, q, congrArg Node.text same, by rwa [List.append_nil]⟩
  obtain ⟨literal, x, y, readings⟩ := exists_readings denotes
  have read := readings.read
  rw [← ofText_of_denotes denotes, ← text] at read
  have characters : node.text.toList = token := by rw [text, String.toList_ofList]
  have built : literalValue node = pure literal := by
    simp only [literalValue, numeric, characters, readings.converted, require]
  rw [characters]
  refine ⟨q, literal, x, y, denotes, fun span => ?_, readings.value, read, readings.nearest,
    fun call m outer inner first second => ⟨_, readings.equal, ?_⟩⟩
  · exact buildExpression_literal built span
  · rw [Evaluate.run_plus_strictlyEqual call m readings.value, read]

/-- A hexadecimal number in the middle between two doubles, at its last digit. -/
theorem numeric_token_readings_tie :
    ∃ (node : Node Rule) (q : ℚ) (literal : Literal) (x : Float), node.text = "0x20000000000001" ∧
      grammar.Derived "0x20000000000001".toList node ∧ node.rule = .numericLiteral ∧
      Denotes node.text.toList q ∧
      buildExpression "0x20000000000001".toList (.branch .literal node.span [node]) =
        pure (.literal node.span literal) ∧
      Evaluate.literalValue literal = .number (.ofFloat x) ∧
      Number.ofText node.text = .ofFloat x ∧ Nearest q x := by
  have found : grammar.read 1 (grammar.pattern .numericLiteral) ⟨"0x20000000000001".toList, 0⟩ =
      .matched ⟨[], 16⟩ [] := rfl
  have derived := Grammar.Derived.node (g := grammar) (Cursor.Within.start _) found
    (List.forall_mem_nil _)
  obtain ⟨q, literal, x, y, denotes, built, value, read, nearest, -⟩ :=
    numeric_token_readings derived rfl
  have number : Text.ofHexDigits "20000000000001".toList = 2 ^ 53 + 1 := rfl
  have decided : ¬ IsDecidedLate ('0' :: 'x' :: "20000000000001".toList) := by
    have all := @Binary64.decidedLate_iff (2 ^ 53 + 1) 0 (by norm_num) (by norm_num)
    rw [isDecidedLate_iff (.inl rfl), number, all]
    exact fun late => late.2.2 (Nat.mod_one _)
  obtain ⟨rfl, near⟩ := nearest.mpr decided
  exact ⟨_, q, literal, x, rfl, derived, rfl, denotes, built _, value, read, near⟩

/-- A number that is decided late: its last digit makes it greater than the middle between two
doubles, which only the builder sees. -/
theorem numeric_token_differs :
    ∃ (node : Node Rule) (literal : Literal), node.text = "0x1000000000000081" ∧
      grammar.Derived "0x1000000000000081".toList node ∧ node.rule = .numericLiteral ∧
      buildExpression "0x1000000000000081".toList (.branch .literal node.span [node]) =
        pure (.literal node.span literal) ∧
      Evaluate.literalValue literal = .number (.ofFloat 1152921504606847232) ∧
      Number.ofText node.text = .ofFloat 1152921504606846976 ∧
      ∀ call m outer inner first second, (Evaluate.evaluate call (.binary outer .strictlyEqual
        (.unary inner .plus (.literal first (.string node.text))) (.literal second literal))).run m =
          (.value (.boolean false), m) := by
  have found : grammar.read 1 (grammar.pattern .numericLiteral) ⟨"0x1000000000000081".toList, 0⟩ =
      .matched ⟨[], 18⟩ [] := rfl
  have derived := Grammar.Derived.node (g := grammar) (Cursor.Within.start _) found
    (List.forall_mem_nil _)
  have number : Text.ofHexDigits "1000000000000081".toList = 1152921504606847105 := rfl
  have converted : Literal.ofNumeric? "0x1000000000000081".toList =
      some (.integer 1152921504606847105) := by
    have fits : 1152921504606847105 ≤ Literal.maxInteger := by decide
    have read : Literal.ofNumeric? ('0' :: 'x' :: "1000000000000081".toList) =
        some (if Text.ofHexDigits "1000000000000081".toList ≤ Literal.maxInteger then
          .integer (Text.ofHexDigits "1000000000000081".toList)
        else .double (Number.hexFloat "1000000000000081".toList)) := rfl
    rw [number, if_pos fits] at read
    exact read
  have value : Evaluate.literalValue (.integer 1152921504606847105) =
      .number (.ofFloat 1152921504606847232) := by
    have rounded : Float.ofNat 1152921504606847105 = 1152921504606847232 :=
      Binary64.eq_of_toBits rfl
    rw [← rounded, ← Number.ofNat_eq_ofFloat]
    rfl
  have read : Number.ofText "0x1000000000000081" = .ofFloat 1152921504606846976 := by
    have digits : ∀ c ∈ "1000000000000081".toList, Text.isHexDigit c = true :=
      List.all_eq_true.mp (by decide)
    have summed : Number.hexFloat "1000000000000081".toList = 1152921504606846976 :=
      Binary64.eq_of_toBits (by decide +kernel)
    have denotes : Denotes "0x1000000000000081".toList _ :=
      .hexadecimal (.inl rfl) (by decide) digits
    have text : "0x1000000000000081" = String.ofList "0x1000000000000081".toList :=
      String.ofList_toList.symm
    rw [text, ofText_of_denotes denotes, ← summed]
    exact Number.readTrimmed_hexadecimal (.inl rfl) (by decide) digits
  refine ⟨_, .integer 1152921504606847105, rfl, derived, rfl, ?_, value, read,
    fun call m outer inner first second => ?_⟩
  · have built : literalValue (.token .numericLiteral ⟨0, 18⟩ "0x1000000000000081") =
        pure (.integer 1152921504606847105) := by
      simp only [literalValue, Node.rule, Node.text, converted, require]
    exact buildExpression_literal built _
  · have differ : Number.equal (.ofFloat 1152921504606846976) (.ofFloat 1152921504606847232) =
        false := rfl
    have run := Evaluate.run_plus_strictlyEqual call m value "0x1000000000000081" outer inner first
      second
    rw [read, differ] at run
    exact run

end Script

end ScriptEngine
