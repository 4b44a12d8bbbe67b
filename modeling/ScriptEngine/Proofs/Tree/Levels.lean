import ScriptEngine.Proofs.Grammar.Words
import ScriptEngine.Proofs.Tree.StringLiterals
import ScriptEngine.Tree.Basic

/-!
# Expressions at their levels

The shape of an expression is the expression without the places of its nodes in the source: two
expressions have the same shape if they are equal up to their spans. Functions are kept as they
are.

`Parses` says that a text, up to a rest, is read as an expression of a level, and what its shape is.
An expression of one level is one of the next looser level if what may follow it there does not stand
in front of the rest (`Parses.level`), and so on up to any level; how far it gets can be told from the
first characters of the rest (`passes`, `Parses.climb`).
-/
namespace ScriptEngine

/-! ## Shapes -/

/-- The span that stands for every span in a shape. -/
def Span.nowhere : Span := ⟨0, 0⟩

def Identifier.shape (id : Identifier) : Identifier := ⟨id.name, .nowhere⟩

namespace Expression

mutual

/-- The expression without its spans. -/
@[simp]
def shape : Expression → Expression
  | .literal _ value => .literal .nowhere value
  | .identifier id => .identifier id.shape
  | .this _ => .this .nowhere
  | .array _ elements => .array .nowhere (slotShapes elements)
  | .object _ properties => .object .nowhere (propertyShapes properties)
  | .function code => .function code
  | .unary _ operator argument => .unary .nowhere operator argument.shape
  | .update _ operator isPrefix argument => .update .nowhere operator isPrefix argument.shape
  | .binary _ operator left right => .binary .nowhere operator left.shape right.shape
  | .logical _ operator left right => .logical .nowhere operator left.shape right.shape
  | .assign _ operator target value => .assign .nowhere operator target.shape value.shape
  | .conditional _ test consequent alternate =>
    .conditional .nowhere test.shape consequent.shape alternate.shape
  | .member _ owner property => .member .nowhere owner.shape property.shape
  | .index _ owner property => .index .nowhere owner.shape property.shape
  | .call _ callee arguments => .call .nowhere callee.shape (shapes arguments)
  | .new _ callee arguments => .new .nowhere callee.shape (shapes arguments)
  | .sequence _ expressions => .sequence .nowhere (shapes expressions)

@[simp]
def shapes : List Expression → List Expression
  | [] => []
  | e :: rest => e.shape :: shapes rest

@[simp]
def slotShapes : List (Option Expression) → List (Option Expression)
  | [] => []
  | none :: rest => none :: slotShapes rest
  | some e :: rest => some e.shape :: slotShapes rest

@[simp]
def propertyShapes : List PropertyNode → List PropertyNode
  | [] => []
  | .data _ key value :: rest => .data .nowhere key value.shape :: propertyShapes rest
  | .getter _ key code :: rest => .getter .nowhere key code :: propertyShapes rest
  | .setter _ key code :: rest => .setter .nowhere key code :: propertyShapes rest

end

theorem shapes_length (es : List Expression) : (shapes es).length = es.length := by
  induction es with
  | nil => rfl
  | cons e rest ih => simp [shapes, ih]

end Expression

end ScriptEngine

namespace ScriptEngine.Script

/-! ## Levels -/

/-- The text up to the rest is an expression of the level, of this shape. -/
def Parses (source : List Char) (r : Rule) (text rest : List Char) (e : Expression) : Prop :=
  grammar.Yields (.rule r) text rest fun nodes =>
    ∃ node built, nodes = [node] ∧ buildExpression source node = pure built ∧ built.shape = e

section

variable {source text rest known more : List Char} {r next low : Rule} {e : Expression}

/-- An expression is one of the next looser level, if that adds nothing in front of the rest. In front
of the levels with prefix operators there must not be such an operator. -/
theorem Parses.level (parses : Parses source next text rest e) (step : tighter r = some next)
    (first : r = .unaryExpression → grammar.Refuses (.rule .prefixOperator) text)
    (tail : grammar.Skips (levelTail r) rest rest) : Parses source r text rest e := by
  have single {r : Rule} (step : tighter r = some next)
      (reads : grammar.Yields (pattern r) text rest fun nodes =>
        ∃ node built, nodes = [node] ∧ buildExpression source node = pure built ∧ built.shape = e) :
      Parses source r text rest e := by
    have branch : grammar.isToken r = false := not_token_of_isLevel (by simp [isLevel, step])
    refine (Grammar.Yields.branch _ branch reads).mono ?_
    rintro _ ⟨span, _, ⟨node, built, rfl, eq, shape⟩, rfl⟩
    exact ⟨_, built, rfl, (build_level step span node).trans eq, shape⟩
  cases r with
  | unaryExpression =>
    cases step
    exact single rfl (parses.alt_right ((first rfl).seq.seq))
  | lhsExpression =>
    cases step
    exact single rfl (Grammar.Yields.skip parses tail).alt_left
  | memberExpression =>
    cases step
    exact single rfl (Grammar.Yields.skip parses.alt_left tail)
  | binary level =>
    cases level
    all_goals
      cases step
      exact single rfl (Grammar.Yields.skip parses tail)
  | expression | assignment | conditional | logicalOr | logicalAnd | postfixExpression =>
    cases step
    exact single rfl (Grammar.Yields.skip parses tail)
  | _ => cases step

/-- Whether a level, and every level between it and a lower one, adds nothing in front of a text that
begins in a known way; `fresh` tells whether the level of prefix operators may be passed. -/
def passes (fresh whole : Bool) (known : List Char) (low : Rule) : (count : Nat) → Rule → Bool
  | 0, r => r = low
  | count + 1, r =>
    r = low ||
      match tighter r with
      | some next =>
        (fresh || r ≠ .unaryExpression) &&
          grammar.foresee whole 200 (levelTail r) known = .leaves known true &&
          passes fresh whole known low count next
      | none => false

private theorem Parses.climb_of_passes {fresh whole : Bool} {count : Nat}
    (parses : Parses source low text rest e)
    (first : fresh = true → grammar.Refuses (.rule .prefixOperator) text)
    (tails : ∀ p : Part, grammar.foresee whole 200 p known = .leaves known true →
      grammar.Skips p rest rest)
    (passed : passes fresh whole known low count r = true) : Parses source r text rest e := by
  induction count generalizing r with
  | zero =>
    cases of_decide_eq_true passed
    exact parses
  | succ count ih =>
    rcases Bool.or_eq_true_iff.1 passed with same | passed
    · cases of_decide_eq_true same
      exact parses
    · cases step : tighter r with
      | none => simp [step] at passed
      | some next =>
        simp only [step, Bool.and_eq_true, Bool.or_eq_true, decide_eq_true_eq] at passed
        obtain ⟨⟨prefixes, quiet⟩, passed⟩ := passed
        refine (ih passed).level step (fun unary => first ?_) (tails _ quiet)
        exact prefixes.resolve_right (not_not_intro unary)

/-- An expression is one of every level that is passed, in front of a text that begins as known. -/
theorem Parses.climb (fresh : Bool) (known : List Char) (parses : Parses source low text (known ++ more) e)
    (first : fresh = true → grammar.Refuses (.rule .prefixOperator) text)
    (passed : passes fresh false known low 30 r = true) :
    Parses source r text (known ++ more) e :=
  parses.climb_of_passes first (fun _ => Grammar.skips_of_foresee _ _) passed

/-- An expression is one of every level that is passed, in front of a text that is known. -/
theorem Parses.climb_whole (fresh : Bool) (parses : Parses source low text known e)
    (first : fresh = true → grammar.Refuses (.rule .prefixOperator) text)
    (passed : passes fresh true known low 30 r = true) : Parses source r text known e :=
  parses.climb_of_passes first (fun _ => Grammar.skips_of_foresee_whole) passed

/-! ## Identifiers -/

/-- In front of an identifier there are no reserved words. -/
theorem refuses_reserved {name : String} (words : List String)
    (isIdentifier : isIdentifier name = true) (ends : EndsName rest)
    (reserved : (words.all reservedWords.contains) = true) :
    grammar.Refuses (anyOf words ++ wordEnd) (name.toList ++ rest) := by
  obtain ⟨isName, other⟩ := Bool.and_eq_true_iff.1 isIdentifier
  have free : name ∉ reservedWords := by simpa using other
  have listed : ∀ word ∈ words, word ∈ reservedWords := fun word mem => by
    simpa using List.all_eq_true.1 reserved word mem
  refine refuses_words _ (List.all_eq_true.2 fun word mem => ?_) isName ends ?_
  · exact List.all_eq_true.1 (by decide : (reservedWords.all fun word =>
      word.toList.all isNamePart) = true) word (listed word mem)
  · rw [String.ofList_toList]
    exact fun mem => free (listed name mem)

theorem refuses_prefixOperator {name : String} (isIdentifier : isIdentifier name = true)
    (ends : EndsName rest) :
    grammar.Refuses (.rule .prefixOperator) (name.toList ++ rest) := by
  have isName := (Bool.and_eq_true_iff.1 isIdentifier).1
  have signs : grammar.Refuses (sign "++" ||| sign "--") (name.toList ++ rest) :=
    refuses_of_nameStarts (by decide) isName
  have others : grammar.Refuses (anyOf ["!", "~", "+", "-"]) (name.toList ++ rest) :=
    refuses_of_nameStarts (by decide) isName
  exact ((signs.alt (refuses_reserved _ isIdentifier ends (by decide))).alt others).rule

/-- An identifier is a primary expression. -/
theorem parses_identifier {name : String} (isIdentifier : isIdentifier name = true)
    (ends : EndsName rest) :
    Parses source .primaryExpression (name.toList ++ rest) rest (.identifier ⟨name, .nowhere⟩) := by
  have isName := (Bool.and_eq_true_iff.1 isIdentifier).1
  have this : grammar.Refuses (.rule .thisExpression) (name.toList ++ rest) :=
    (refuses_reserved ["this"] isIdentifier ends (by decide)).rule
  have null : grammar.Refuses (.rule .nullLiteral) (name.toList ++ rest) :=
    (refuses_reserved ["null"] isIdentifier ends (by decide)).rule
  have boolean : grammar.Refuses (.rule .booleanLiteral) (name.toList ++ rest) :=
    (refuses_reserved ["true", "false"] isIdentifier ends (by decide)).rule
  have number : grammar.Refuses (.rule .numericLiteral) (name.toList ++ rest) :=
    refuses_of_nameStarts (by decide) isName
  have string : grammar.Refuses (.rule .stringLiteral) (name.toList ++ rest) :=
    refuses_of_nameStarts (by decide) isName
  have literal : grammar.Refuses (.rule .literal) (name.toList ++ rest) :=
    (((null.alt boolean).alt number).alt string).rule
  have reads := (yields_identifier isIdentifier ends).alt_right (this.alt literal)
  have primary := Grammar.Yields.branch .primaryExpression (g := grammar) rfl
    reads.alt_left.alt_left.alt_left.alt_left
  refine primary.mono ?_
  rintro _ ⟨span, _, ⟨span', rfl⟩, rfl⟩
  refine ⟨_, .identifier ⟨name, span'⟩, rfl, ?_, rfl⟩
  rw [buildExpression, buildExpression]

end

end ScriptEngine.Script
