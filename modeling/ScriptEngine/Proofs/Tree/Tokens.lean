import ScriptEngine.Proofs.Grammar.Spelling
import ScriptEngine.Proofs.Number.Literals
import ScriptEngine.Tree.Builder

/-!
# What tokens stand for

The builder looks up what an operator, a declaration word or a number stands for. The grammar and
these tables are written down independently; main result: no text that the grammar takes for such a
token is missing (`converts_of_derived`). In particular what it takes for a number denotes one
(`denotes_of_writes`).
-/
namespace ScriptEngine.Script

/-- Whether the builder knows what the text of a token stands for. -/
def converts (name : Rule) (text : String) : Bool :=
  match name with
  | .operator _ => (binaryOperator? text).isSome
  | .assignmentOperator => (assignmentOperator? text).isSome
  | .postfixOperator => (updateOperator? text).isSome
  | .prefixOperator => (updateOperator? text).isSome || (unaryOperator? text).isSome
  | .lexicalKind | .forKind => (declarationKind? text).isSome
  | .numericLiteral =>
    (Literal.ofNumeric? text.toList).isSome && (Literal.propertyName? text.toList).isSome
  | _ => true

/-! ## Numbers -/

section

variable {chars : List Char}

/-- The number that a numeric token stands for, exactly. -/
inductive Denotes : (token : List Char) → (q : ℚ) → Prop where
  | hexadecimal {mark : Char} {digits : List Char} (either : mark = 'x' ∨ mark = 'X')
    (some : digits ≠ []) (all : ∀ c ∈ digits, Text.isHexDigit c = true) :
    Denotes ('0' :: mark :: digits) (Text.ofHexDigits digits)
  | decimal {token : List Char} {l : Number.Literal} (spells : Number.Literal.Spells token l) :
    Denotes token l.value

theorem spellsExponent_of_writes (writes : (.optional exponent : Part).Writes chars) :
    ∃ e, Number.SpellsExponent chars e := by
  rcases writes with rfl | ⟨_, _, rfl, ⟨_, sign, rfl, letter, signed⟩, _, more, rfl, ⟨d, digit, rfl⟩,
    digits⟩
  · exact ⟨0, .none⟩
  · have all : Number.AllDigits ([d] ++ more) :=
      List.forall_mem_cons.2 ⟨digit, Pattern.forall_of_writes_many digits⟩
    have either {mark : Char} (letter : [mark] = ['e'] ∨ [mark] = ['E']) : mark = 'e' ∨ mark = 'E' :=
      letter.imp List.singleton_inj.mp List.singleton_inj.mp
    obtain ⟨e, spells⟩ : ∃ e, Number.SpellsInteger (sign ++ ([d] ++ more)) e := by
      rcases signed with rfl | rfl | rfl
      · exact ⟨_, .positive (.inl rfl) nofun all⟩
      · exact ⟨_, .positive (.inr rfl) nofun all⟩
      · exact ⟨_, .negative nofun all⟩
    refine ⟨e, ?_⟩
    rcases letter with rfl | rfl
    · rw [List.append_assoc]
      exact .letter (.inl rfl) spells
    · rw [List.append_assoc]
      exact .letter (.inr rfl) spells

/-- What the grammar takes for a number stands for one. -/
theorem denotes_of_writes (writes : (hexDigits ||| decimalDigits : Part).Writes chars) :
    ∃ q, Denotes chars q := by
  rcases writes with ⟨_, _, rfl, sign, _, more, rfl, ⟨c, first, rfl⟩, digits⟩ |
    ⟨_, _, rfl, mantissa, exponent⟩
  · have all : ∀ d ∈ [c] ++ more, Text.isHexDigit d = true :=
      List.forall_mem_cons.2 ⟨first, Pattern.forall_of_writes_many digits⟩
    rcases sign with rfl | rfl
    · exact ⟨_, .hexadecimal (.inl rfl) nofun all⟩
    · exact ⟨_, .hexadecimal (.inr rfl) nofun all⟩
  · obtain ⟨e, exponent⟩ := spellsExponent_of_writes exponent
    rcases mantissa with ⟨whole, _, rfl, digits, point⟩ | ⟨_, fraction, rfl, rfl, digits⟩
    · have all : whole ≠ [] ∧ Number.AllDigits whole := by
        rcases digits with rfl | ⟨_, _, rfl, ⟨c, first, rfl⟩, more⟩
        · exact ⟨List.cons_ne_nil _ _, List.forall_mem_singleton.2 rfl⟩
        · have first := (Bool.and_eq_true_iff.1 first).1
          exact ⟨nofun, List.forall_mem_cons.2 ⟨first, Pattern.forall_of_writes_many more⟩⟩
      rcases point with rfl | ⟨_, fraction, rfl, rfl, digits⟩
      · rw [List.append_nil]
        exact ⟨_, .decimal (.whole all.1 all.2 exponent)⟩
      · rw [List.append_assoc]
        exact ⟨_, .decimal (.point (.inl all.1) all.2 (Pattern.forall_of_writes_many digits) exponent)⟩
    · obtain ⟨_, more, rfl, ⟨c, first, rfl⟩, digits⟩ := digits
      have all : Number.AllDigits ([c] ++ more) :=
        List.forall_mem_cons.2 ⟨first, Pattern.forall_of_writes_many digits⟩
      have none : Number.AllDigits [] := List.forall_mem_nil _
      exact ⟨_, .decimal (.point (.inr (List.cons_ne_nil c more)) none all exponent)⟩

/-- The builder converts every number. -/
theorem ofNumeric?_isSome {q : ℚ} (denotes : Denotes chars q) :
    (Literal.ofNumeric? chars).isSome = true := by
  unfold Literal.ofNumeric?
  split
  · rfl
  · rfl
  next notHex notHex' =>
    cases denotes with
    | @hexadecimal mark digits either some all =>
      rcases either with rfl | rfl
      · exact absurd rfl (notHex digits)
      · exact absurd rfl (notHex' digits)
    | decimal spells =>
      rw [Option.isSome_map, Number.readLiteral?_eq_some_iff.mpr spells]
      rfl

theorem ofNumeric?_kind {literal : Literal} (eq : Literal.ofNumeric? chars = some literal) :
    (∃ n, literal = .integer n) ∨ ∃ x, literal = .double x := by
  have either (fits : Prop) [Decidable fits] (n : Nat) (x : Float) :
      (∃ m, (if fits then Literal.integer n else .double x) = .integer m) ∨
        ∃ y, (if fits then Literal.integer n else .double x) = .double y := by
    split
    · exact .inl ⟨n, rfl⟩
    · exact .inr ⟨x, rfl⟩
  unfold Literal.ofNumeric? at eq
  split at eq
  · cases eq
    exact either ..
  · cases eq
    exact either ..
  · obtain ⟨number, -, rfl⟩ := Option.map_eq_some_iff.1 eq
    exact either ..

/-- A number that is converted is also a name of a property. -/
theorem propertyName?_isSome (converted : (Literal.ofNumeric? chars).isSome = true) :
    (Literal.propertyName? chars).isSome = true := by
  obtain ⟨literal, eq⟩ := Option.isSome_iff_exists.1 converted
  unfold Literal.propertyName?
  rw [eq]
  rcases ofNumeric?_kind eq with ⟨_, rfl⟩ | ⟨_, rfl⟩ <;> rfl

end

/-! ## Tokens -/

/-- Whether the builder knows what all texts stand for that the rule can take. -/
def allConvert (name : Rule) : Bool :=
  match (pattern name).texts? with
  | some texts => texts.all fun text => converts name (String.ofList text)
  | none => false

theorem converts_of_writes {name : Rule} {chars : List Char} (writes : (pattern name).Writes chars) :
    converts name (String.ofList chars) = true := by
  have finite (all : allConvert name = true) : converts name (String.ofList chars) = true := by
    unfold allConvert at all
    split at all
    next texts eq => exact List.all_eq_true.1 all chars (writes.mem_texts eq)
    · cases all
  cases name with
  | operator level => cases level <;> exact finite (by decide)
  | assignmentOperator | postfixOperator | prefixOperator | lexicalKind | forKind =>
    exact finite (by decide)
  | numericLiteral =>
    obtain ⟨_, _, rfl, writes, rfl⟩ := writes
    obtain ⟨q, denotes⟩ := denotes_of_writes writes
    have converted := ofNumeric?_isSome denotes
    simp [converts, converted, propertyName?_isSome converted]
  | _ => rfl

/-- The builder converts the text of every node that the grammar makes of a rule. -/
theorem converts_node {name : Rule} {depth : Nat} {here stop : Cursor} {children : List (Node Rule)}
    (found : grammar.read depth (pattern name) here = .matched stop children) :
    converts name (grammar.node name here stop children).text = true := by
  cases token : isToken name with
  | true =>
    obtain ⟨span, chars, writes, eq⟩ := Grammar.writes_of_token (g := grammar) token found
    rw [eq]
    exact converts_of_writes writes
  | false =>
    -- A node with nodes below it has no text.
    rw [Grammar.node_of_branch (g := grammar) token]
    cases name <;> first | rfl | cases token

/-- The builder converts every token that the grammar makes anywhere in a script. -/
theorem converts_of_derived {source : List Char} {node : Node Rule}
    (derived : grammar.Derived source node) : converts node.rule node.text = true := by
  cases derived with
  | node _ found _ =>
    rw [Grammar.rule_node]
    exact converts_node found

end ScriptEngine.Script
