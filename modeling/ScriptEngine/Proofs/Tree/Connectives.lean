import ScriptEngine.Proofs.Tree.Levels
import ScriptEngine.Proofs.Tree.Rendering

/-!
# Operators between operands

Binary and logical operators have ten levels in the grammar. What such a level adds to its first
operand (`Extends`) is operators of the level with operands of the next tighter one: nothing where no
operator of the level follows (`Extends.none`), and otherwise the operator, its right operand and
what the level adds to both (`Extends.link`).
-/
namespace ScriptEngine.Script

/-- What stands between two operands. -/
inductive Connective where
  | binary (operator : BinaryOperator)
  | logical (operator : LogicalOperator)

namespace Connective

def text : Connective → String
  | binary operator => binaryText operator
  | logical operator => logicalText operator

/-- How tightly an operator binds: ten levels, the loosest first. -/
def tightness : Connective → Nat
  | logical .or => 1
  | logical .and => 2
  | binary .bitwiseOr => 3
  | binary .bitwiseXor => 4
  | binary .bitwiseAnd => 5
  | binary .looselyEqual | binary .looselyUnequal | binary .strictlyEqual
  | binary .strictlyUnequal => 6
  | binary .lessThan | binary .lessThanEqual | binary .greaterThan | binary .greaterThanEqual
  | binary .isIn | binary .instanceOf => 7
  | binary .leftShift | binary .rightShift | binary .unsignedRightShift => 8
  | binary .add | binary .subtract => 9
  | binary .multiply | binary .divide | binary .modulo => 10

theorem tightness_pos (op : Connective) : 0 < op.tightness := by
  cases op with
  | binary operator => cases operator <;> decide
  | logical operator => cases operator <;> decide

theorem tightness_le (op : Connective) : op.tightness ≤ 10 := by
  cases op with
  | binary operator => cases operator <;> decide
  | logical operator => cases operator <;> decide

def join (left right : Expression) : Connective → Expression
  | binary operator => .binary .nowhere operator left right
  | logical operator => .logical .nowhere operator left right

end Connective

/-! ## The levels of the grammar -/

/-- The levels of operators by their distance from the operands, the tightest first. -/
def levelAt : Nat → Rule
  | 0 => .unaryExpression
  | 1 => .binary .multiplicative
  | 2 => .binary .additive
  | 3 => .binary .shift
  | 4 => .binary .relational
  | 5 => .binary .equality
  | 6 => .binary .bitwiseAnd
  | 7 => .binary .bitwiseXor
  | 8 => .binary .bitwiseOr
  | 9 => .logicalAnd
  | _ => .logicalOr

/-- What separates the operands at a level, by the distance of its operands. -/
def separator : Nat → Part
  | 0 => .rule (.operator .multiplicative)
  | 1 => .rule (.operator .additive)
  | 2 => .rule (.operator .shift)
  | 3 => .rule (.operator .relational)
  | 4 => .rule (.operator .equality)
  | 5 => .rule (.operator .bitwiseAnd)
  | 6 => .rule (.operator .bitwiseXor)
  | 7 => .rule (.operator .bitwiseOr)
  | 8 => sign "&&"
  | _ => sign "||"

theorem pattern_levelAt {d : Nat} (low : d < 10) :
    pattern (levelAt (d + 1)) =
      .rule (levelAt d) ++ .many (gap ++ separator d ++ gap ++ .rule (levelAt d)) := by
  match d with
  | 0 | 1 | 2 | 3 | 4 | 5 | 6 | 7 | 8 | 9 => rfl

/-- Adds the operators and operands that follow the first operand of a level. -/
def buildLevel (source : List Char) (r : Rule) (left : Expression) (nodes : List (Node Rule)) :
    Build Expression :=
  match r with
  | .logicalOr => buildLogical source .or left nodes
  | .logicalAnd => buildLogical source .and left nodes
  | _ => buildBinary source left nodes

theorem buildExpression_levelAt {d : Nat} (low : d < 10) (source : List Char) (span : Span)
    (first : Node Rule) (nodes : List (Node Rule)) :
    buildExpression source (.branch (levelAt (d + 1)) span (first :: nodes)) =
      buildExpression source first >>= fun left => buildLevel source (levelAt (d + 1)) left nodes := by
  match d with
  | 0 | 1 | 2 | 3 | 4 | 5 | 6 | 7 | 8 | 9 => exact buildExpression.eq_def ..

/-- What an operator makes: a binary one has a node, a logical one shows in its level alone. -/
def Connective.Makes (op : Connective) (nodes : List (Node Rule)) : Prop :=
  match op with
  | binary operator => ∃ r span, nodes = [.token r span (binaryText operator)]
  | logical _ => nodes = []

def levelOf : BinaryOperator → Level
  | .multiply | .divide | .modulo => .multiplicative
  | .add | .subtract => .additive
  | .leftShift | .rightShift | .unsignedRightShift => .shift
  | .lessThan | .lessThanEqual | .greaterThan | .greaterThanEqual | .isIn | .instanceOf =>
    .relational
  | .looselyEqual | .looselyUnequal | .strictlyEqual | .strictlyUnequal => .equality
  | .bitwiseAnd => .bitwiseAnd
  | .bitwiseXor => .bitwiseXor
  | .bitwiseOr => .bitwiseOr

section

variable {source text middle rest more : List Char} {d : Nat} {op : Connective}
  {left right e : Expression}

/-! ## Texts -/

/-- An operator separates the operands of its own level, in front of a space or a parenthesis. -/
theorem yields_separator {next : Char} (mem : next ∈ [' ', '(']) (low : d < 10)
    (level : op.tightness = 10 - d) :
    grammar.Yields (separator d) (op.text.toList ++ next :: more) (next :: more) op.Makes := by
  obtain rfl : d = 10 - op.tightness := by omega
  cases op with
  | binary operator =>
    have rule : separator (10 - (Connective.binary operator).tightness) =
        .rule (.operator (levelOf operator)) := by cases operator <;> rfl
    have sees : ∀ next ∈ [' ', '('], grammar.foresee false 200 (operators (levelOf operator))
        ((binaryText operator).toList ++ [next]) = .leaves [next] true :=
      List.all_iff_forall_prop.1 (by cases operator <;> decide)
    have skips : grammar.Skips _ (_ ++ more) _ := Grammar.skips_of_foresee _ _ (sees next mem)
    rw [List.append_assoc] at skips
    have token := Grammar.Yields.token (.operator (levelOf operator)) (g := grammar) rfl skips
    rw [rule]
    refine token.mono ?_
    rintro _ ⟨span, rfl⟩
    exact ⟨_, span, by rw [String.ofList_toList]⟩
  | logical operator =>
    have sees : ∀ next ∈ [' ', '('],
        grammar.foresee false 200 (separator (10 - (Connective.logical operator).tightness))
          ((logicalText operator).toList ++ [next]) = .leaves [next] true :=
      List.all_iff_forall_prop.1 (by cases operator <;> decide)
    have skips : grammar.Skips _ (_ ++ more) _ := Grammar.skips_of_foresee _ _ (sees next mem)
    rwa [List.append_assoc] at skips

/-! ## What is built -/

/-- An operator of a level and its right operand are joined to what stands on the left. -/
theorem buildLevel_step {source : List Char} {d : Nat} {op : Connective} (low : d < 10)
    (level : op.tightness = 10 - d) {front : List (Node Rule)} (made : op.Makes front)
    {node : Node Rule} {right : Expression} (eq : buildExpression source node = pure right)
    (left : Expression) :
    ∃ whole, whole.shape = op.join left.shape right.shape ∧ ∀ back,
      buildLevel source (levelAt (d + 1)) left (front ++ [node] ++ back) =
        buildLevel source (levelAt (d + 1)) whole back := by
  obtain rfl : d = 10 - op.tightness := by omega
  cases op with
  | binary operator =>
    obtain ⟨r, span, rfl⟩ := made
    have isBinary (left : Expression) (nodes : List (Node Rule)) :
        buildLevel source (levelAt (10 - (Connective.binary operator).tightness + 1)) left nodes =
          buildBinary source left nodes := by cases operator <;> rfl
    refine ⟨.binary (left.span.hull right.span) operator left right, rfl, fun back => ?_⟩
    rw [isBinary, isBinary]
    simp [buildBinary, Node.text, require, binaryOperator?_binaryText, eq]
  | logical operator =>
    cases made
    refine ⟨.logical (left.span.hull right.span) operator left right, rfl, fun back => ?_⟩
    cases operator <;> simp [buildLevel, levelAt, Connective.tightness, buildLogical, eq]

/-! ## What a level adds -/

/-- Behind a first operand of some shape, the level reads the text up to the rest, and all of it has
this shape. -/
def Extends (source : List Char) (d : Nat) (left : Expression) (text rest : List Char)
    (e : Expression) : Prop :=
  grammar.Yields (.many (gap ++ separator d ++ gap ++ .rule (levelAt d))) text rest fun nodes =>
    ∀ built, built.shape = left → ∃ whole,
      buildLevel source (levelAt (d + 1)) built nodes = pure whole ∧ whole.shape = e

/-- Where no operator of the level follows, the level adds nothing. -/
theorem Extends.none (refuses : grammar.Refuses (gap ++ separator d) text) :
    Extends source d left text text left := by
  refine (refuses.seq.seq.many).mono ?_
  rintro _ rfl built shape
  refine ⟨built, ?_, shape⟩
  unfold buildLevel
  split <;> simp [buildLogical, buildBinary]

/-- An operator of the level and its right operand are joined to the left operand, and the level goes
on from there. -/
theorem Extends.link {next : Char} {operand : List Char} (mem : next ∈ [' ', '(']) (low : d < 10)
    (level : op.tightness = 10 - d)
    (before : grammar.Skips gap text (op.text.toList ++ next :: more))
    (behind : grammar.Skips gap (next :: more) operand)
    (parses : Parses source (levelAt d) operand middle right)
    (shorter : middle.length < text.length)
    (later : Extends source d (op.join left right) middle rest e) :
    Extends source d left text rest e := by
  have round := (((before.seq (yields_separator mem low level)).skip behind).seq parses)
  refine (round.many shorter later).mono ?_
  rintro _ ⟨_, back, ⟨front, _, made, ⟨node, right, rfl, eq, shape'⟩, rfl⟩, known, rfl⟩ built shape
  obtain ⟨whole, shape'', step⟩ := buildLevel_step low level made eq built
  rw [step]
  rw [shape, shape'] at shape''
  exact known whole shape''

/-- A level is its first operand and what it adds to it. -/
theorem Parses.extend (low : d < 10) (first : Parses source (levelAt d) text middle left)
    (adds : Extends source d left middle rest e) :
    Parses source (levelAt (d + 1)) text rest e := by
  have branch : grammar.isToken (levelAt (d + 1)) = false := by
    match d, low with
    | 0, _ | 1, _ | 2, _ | 3, _ | 4, _ | 5, _ | 6, _ | 7, _ | 8, _ | 9, _ => rfl
  have reads := Grammar.Yields.seq first adds
  rw [show Pattern.seq _ _ = pattern (levelAt (d + 1)) from (pattern_levelAt low).symm] at reads
  refine (Grammar.Yields.branch _ (g := grammar) branch reads).mono ?_
  rintro _ ⟨span, _, ⟨_, back, ⟨node, built, rfl, eq, shape⟩, known, rfl⟩, rfl⟩
  obtain ⟨whole, eq', shape'⟩ := known built shape
  refine ⟨_, whole, rfl, ?_, shape'⟩
  rw [List.singleton_append, buildExpression_levelAt low, eq]
  exact eq'

end

end ScriptEngine.Script
