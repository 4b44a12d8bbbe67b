import ScriptEngine.Grammar.Script
import ScriptEngine.Proofs.Grammar.Derivation
import ScriptEngine.Proofs.Grammar.First
import ScriptEngine.Proofs.Grammar.Brackets
import ScriptEngine.Text.Blank

/-!
# Statements that begin with a string literal

An expression has a level for every precedence, and each level begins with an operand of the next
tighter one: `tighter` says which, `levelTail` what may follow the operand, and `levelOther` what
else the level may be instead. So where an expression was matched, its first operand was matched at
the same place on every level below, down to the primary expression (`climb`).

In front of a quote every level of an expression begins with its operand, so a statement that begins
with a quote begins with a string literal. If only white space and semicolons follow the literal,
there is nothing else in the statement: on every level stands a single operand (`Bare`), and the
rest is the end of the statement (`bare_of_statement`).
-/
namespace ScriptEngine.Script

/-! ## The levels of expressions -/

/-- The level of the operand that a level begins with. -/
def tighter : Rule → Option Rule
  | .expression => some .assignment
  | .assignment => some .conditional
  | .conditional => some .logicalOr
  | .logicalOr => some .logicalAnd
  | .logicalAnd => some (.binary .bitwiseOr)
  | .binary .bitwiseOr => some (.binary .bitwiseXor)
  | .binary .bitwiseXor => some (.binary .bitwiseAnd)
  | .binary .bitwiseAnd => some (.binary .equality)
  | .binary .equality => some (.binary .relational)
  | .binary .relational => some (.binary .shift)
  | .binary .shift => some (.binary .additive)
  | .binary .additive => some (.binary .multiplicative)
  | .binary .multiplicative => some .unaryExpression
  | .unaryExpression => some .postfixExpression
  | .postfixExpression => some .lhsExpression
  | .lhsExpression => some .memberExpression
  | .memberExpression => some .primaryExpression
  | _ => none

/-- What may follow the first operand of a level. -/
def levelTail : Rule → Part
  | .expression => .many (gap ++ sign "," ++ gap ++ assignment)
  | .assignment => .optional (gap ++ .rule .assignmentOperator ++ gap ++ assignment)
  | .conditional =>
    .optional (gap ++ sign "?" ++ gap ++ assignment ++ gap ++ sign ":" ++ gap ++ assignment)
  | .logicalOr => .many (gap ++ sign "||" ++ gap ++ .rule .logicalAnd)
  | .logicalAnd => .many (gap ++ sign "&&" ++ gap ++ .rule (.binary .bitwiseOr))
  | .binary level => .many (gap ++ .rule (.operator level) ++ gap ++ operand level)
  | .postfixExpression => .optional (inlineGap ++ .rule .postfixOperator)
  | .lhsExpression =>
    .many (gap ++ (.rule .arguments ||| .rule .memberDot ||| .rule .memberIndex))
  | .memberExpression => .many (gap ++ (.rule .memberDot ||| .rule .memberIndex))
  | _ => .text []

/-- What a level may be that does not begin with an operand of the next tighter one. -/
def levelOther : Rule → Part
  | .unaryExpression => .rule .prefixOperator ++ gap ++ .rule .unaryExpression
  | .lhsExpression => .rule .newBare
  | .memberExpression => .rule .newWithArguments
  | _ => one fun _ => false

section

variable {depth : Nat} {r next : Rule} {here stop : Cursor} {nodes : List (Node Rule)}

private theorem read_text_nil : grammar.read depth (.text []) here = .matched here [] :=
  Grammar.read_text_matched.2 ⟨.refl here, rfl⟩

/-- A level is an operand of the next tighter one and what follows it, or it begins with something
else. -/
theorem level_cases (step : tighter r = some next)
    (found : grammar.read depth (pattern r) here = .matched stop nodes) :
    (∃ middle before after, grammar.read depth (.rule next) here = .matched middle before ∧
        grammar.read depth (levelTail r) middle = .matched stop after ∧ nodes = before ++ after) ∨
      ∃ middle before after, grammar.read depth (levelOther r) here = .matched middle before ∧
        nodes = before ++ after := by
  cases r with
  | unaryExpression =>
    cases step
    rcases Grammar.read_alt_matched.1 found with found | ⟨_, found⟩
    · exact .inr ⟨stop, nodes, [], found, (List.append_nil _).symm⟩
    · exact .inl ⟨stop, nodes, [], found, read_text_nil, (List.append_nil _).symm⟩
  | lhsExpression =>
    cases step
    rcases Grammar.read_alt_matched.1 found with found | ⟨_, found⟩
    · exact .inl (Grammar.read_seq_matched.1 found)
    · exact .inr ⟨stop, nodes, [], found, (List.append_nil _).symm⟩
  | memberExpression =>
    cases step
    obtain ⟨middle, before, after, found, rest, eq⟩ := Grammar.read_seq_matched.1 found
    rcases Grammar.read_alt_matched.1 found with found | ⟨_, found⟩
    · exact .inl ⟨middle, before, after, found, rest, eq⟩
    · exact .inr ⟨middle, before, after, found, eq⟩
  | binary level =>
    cases level
    all_goals
      cases step
      exact .inl (Grammar.read_seq_matched.1 found)
  | expression | assignment | conditional | logicalOr | logicalAnd | postfixExpression =>
    cases step
    exact .inl (Grammar.read_seq_matched.1 found)
  | _ => cases step

/-- Where nothing else matches, the first operand of a level is matched at the same place. -/
theorem climb (step : tighter r = some next)
    (found : grammar.read depth (pattern r) here = .matched stop nodes)
    (refused : ∀ middle before, grammar.read depth (levelOther r) here ≠ .matched middle before) :
    ∃ middle before after, grammar.read depth (.rule next) here = .matched middle before ∧
      grammar.read depth (levelTail r) middle = .matched stop after ∧ nodes = before ++ after := by
  rcases level_cases step found with found | ⟨middle, before, _, found, _⟩
  · exact found
  · exact absurd found (refused middle before)

/-! ## Tails -/

/-- White space and semicolons. -/
def isFiller (c : Char) : Bool := Text.isBlank c || c = ';'

/-- A tail takes nothing if it takes no more than white space and semicolons. -/
theorem levelTail_of_filler (found : grammar.read depth (levelTail r) here = .matched stop nodes)
    {taken : List Char} (takes : here.Takes taken stop) (filler : ∀ c ∈ taken, isFiller c = true) :
    stop = here ∧ nodes = [] := by
  let known : Rule → Bool
    | .operator _ | .assignmentOperator | .postfixOperator | .arguments | .memberDot
    | .memberIndex => true
    | _ => false
  have closed : ∀ name, known name = true → (pattern name).leaves known isFiller = true := by
    intro name mem
    cases name with
    | operator level => cases level <;> rfl
    | assignmentOperator | postfixOperator | arguments | memberDot | memberIndex => rfl
    | _ => cases mem
  have none {item : Part} (leaves : item.leaves known isFiller = true) {here stop : Cursor}
      {nodes : List (Node Rule)} {taken : List Char} (takes : here.Takes taken stop)
      (filler : ∀ c ∈ taken, isFiller c = true) :
      grammar.read depth item here ≠ .matched stop nodes := by
    intro found
    obtain ⟨c, mem, outside⟩ := Grammar.leaves_of_closed closed leaves takes found
    rw [filler c mem] at outside
    cases outside
  have repeated {item : Part} (leaves : item.leaves known isFiller = true)
      (found : grammar.read depth (.many item) here = .matched stop nodes) :
      stop = here ∧ nodes = [] := by
    cases Grammar.rounds_of_read_many found with
    | done | still => exact ⟨rfl, rfl⟩
    | more round _ later =>
      obtain ⟨front, first⟩ := Grammar.read_takes round
      obtain ⟨back, rest⟩ := Grammar.takes_of_rounds later
      cases List.append_cancel_right (takes.rest.symm.trans (first.trans rest).rest)
      exact absurd round (none leaves first fun c mem => filler c (List.mem_append_left _ mem))
  have once {item : Part} (leaves : item.leaves known isFiller = true)
      (found : grammar.read depth (.optional item) here = .matched stop nodes) :
      stop = here ∧ nodes = [] := by
    rcases Grammar.read_optional_matched.1 found with found | ⟨_, rfl, rfl⟩
    · exact absurd found (none leaves takes filler)
    · exact ⟨rfl, rfl⟩
  have nothing (found : grammar.read depth (.text []) here = .matched stop nodes) :
      stop = here ∧ nodes = [] := by
    cases read_text_nil.symm.trans found
    exact ⟨rfl, rfl⟩
  cases r with
  | expression | logicalOr | logicalAnd | lhsExpression | memberExpression => exact repeated rfl found
  | binary level => cases level <;> exact repeated rfl found
  | assignment | conditional | postfixExpression => exact once rfl found
  | _ => exact nothing found

end

/-! ## Literals that stand alone -/

/-- The two kinds of quotes. -/
def IsQuote (c : Char) : Prop := c = '"' ∨ c = '\''

theorem IsQuote.not_blank {quote : Char} (isQuote : IsQuote quote) : Text.isBlank quote = false := by
  rcases isQuote with rfl | rfl <;> rfl

theorem IsQuote.not_filler {quote : Char} (isQuote : IsQuote quote) : isFiller quote = false := by
  rcases isQuote with rfl | rfl <;> rfl

/-- A node that is nothing but a string literal at the given place: on every level of the
expression stands a single operand. -/
inductive Bare (token : Span) : Node Rule → Prop where
  | literal (span : Span) (children : List (Node Rule)) :
    Bare token (.branch .literal token [.branch .stringLiteral span children])
  | primary (span : Span) {child : Node Rule} (inside : Bare token child) :
    Bare token (.branch .primaryExpression span [child])
  | level {r next : Rule} (step : tighter r = some next) (span : Span) {child : Node Rule}
    (inside : Bare token child) : Bare token (.branch r span [child])

/-- The rules that cannot match in front of a quote. -/
def refusesQuote : Rule → Bool
  | .thisExpression | .identifier | .arrayLiteral | .objectLiteral | .functionExpression
  | .nullLiteral | .booleanLiteral | .numericLiteral | .newWithArguments | .newBare
  | .prefixOperator => true
  | _ => false

section

variable {depth : Nat} {quote : Char} {here start last stop : Cursor} {nodes : List (Node Rule)}
  {text : List Char}

theorem IsQuote.refused (isQuote : IsQuote quote) :
    grammar.Refused refusesQuote (some quote) := by
  intro name mem
  rcases isQuote with rfl | rfl
  all_goals
    cases name with
    | thisExpression | identifier | arrayLiteral | objectLiteral | functionExpression | nullLiteral
    | booleanLiteral | numericLiteral | newWithArguments | newBare | prefixOperator => rfl
    | _ => cases mem

/-- In front of a quote, a level can only begin with an operand of the next tighter one. -/
theorem levelOther_refused (isQuote : IsQuote quote) (r : Rule) (first : here.rest.head? = some quote)
    (middle : Cursor) (before : List (Node Rule)) :
    grammar.read depth (levelOther r) here ≠ .matched middle before := by
  refine Grammar.not_matched_of_refuses isQuote.refused ?_ first
  cases r with
  | unaryExpression | lhsExpression | memberExpression => rfl
  | _ => rcases isQuote with rfl | rfl <;> rfl

/-- In front of a quote, what refuses it is no alternative. -/
theorem read_alt_of_refuses (isQuote : IsQuote quote) (first : here.rest.head? = some quote)
    {p q : Part} (found : grammar.read depth (.alt p q) here = .matched stop nodes) :
    (q.reaction refusesQuote (some quote) = .refuses →
      grammar.read depth p here = .matched stop nodes) ∧
    (p.reaction refusesQuote (some quote) = .refuses →
      grammar.read depth q here = .matched stop nodes) := by
  have never {p : Part} (refuses : p.reaction refusesQuote (some quote) = .refuses) :
      grammar.read depth p here ≠ .matched stop nodes :=
    Grammar.not_matched_of_refuses isQuote.refused refuses first
  rcases Grammar.read_alt_matched.1 found with left | ⟨_, right⟩
  · exact ⟨fun _ => left, fun refuses => absurd left (never refuses)⟩
  · exact ⟨fun refuses => absurd right (never refuses), fun _ => right⟩

/-- Where a primary expression begins with a quote, it is a string literal. -/
theorem stringLiteral_of_primary (isQuote : IsQuote quote) (first : here.rest.head? = some quote)
    (found : grammar.read depth (pattern .primaryExpression) here = .matched stop nodes) :
    ∃ depth children, grammar.read depth (.rule .stringLiteral) here = .matched stop children ∧
      nodes = [.branch .literal ⟨here.offset, stop.offset⟩ children] := by
  have alone {depth : Nat} {p q : Part} {stop : Cursor} {nodes : List (Node Rule)}
      (found : grammar.read depth (.alt p q) here = .matched stop nodes) :=
    read_alt_of_refuses isQuote first found
  -- Of the alternatives, all but the literals refuse a quote.
  have noParentheses := (alone found).1 (by rcases isQuote with rfl | rfl <;> rfl)
  have noFunction := (alone noParentheses).1 rfl
  have noObject := (alone noFunction).1 rfl
  have noArray := (alone noObject).1 rfl
  have noIdentifier := (alone noArray).1 rfl
  have literal := (alone noIdentifier).2 rfl
  obtain ⟨below, children, -, inside, rfl⟩ := Grammar.read_rule_matched.1 literal
  -- And of the literals, all but strings do.
  have string := (alone inside).2 rfl
  exact ⟨below, children, string, rfl⟩

/-- The rules of the levels, down to the primary expression. -/
def isLevel (r : Rule) : Bool := (tighter r).isSome || r = .primaryExpression

theorem isLevel_of_tighter {r next : Rule} (step : tighter r = some next) : isLevel next = true := by
  cases r with
  | binary level =>
    cases level
    all_goals
      cases step
      rfl
  | expression | assignment | conditional | logicalOr | logicalAnd | unaryExpression
  | postfixExpression | lhsExpression | memberExpression =>
    cases step
    rfl
  | _ => cases step

theorem not_token_of_isLevel {r : Rule} (level : isLevel r = true) : isToken r = false := by
  cases r with
  | binary | expression | assignment | conditional | logicalOr | logicalAnd | unaryExpression
  | postfixExpression | lhsExpression | memberExpression | primaryExpression => rfl
  | _ => cases level

/-- The string literals at a place of the source end at the same place. -/
theorem stringLiteral_unique {depth depth' : Nat} {stop stop' : Cursor}
    {nodes nodes' : List (Node Rule)}
    (found : grammar.read depth (.rule .stringLiteral) here = .matched stop nodes)
    (found' : grammar.read depth' (.rule .stringLiteral) here = .matched stop' nodes') :
    stop = stop' := by
  obtain ⟨text, takes⟩ := Grammar.read_takes found
  obtain ⟨text', takes'⟩ := Grammar.read_takes found'
  have same := (fixed_stringLiteral.taken?_of_matched takes found).symm.trans
    (fixed_stringLiteral.taken?_of_matched takes' found')
  cases same
  exact takes.unique takes'

/-- Where a level begins with a string literal behind which only white space and semicolons follow,
it is that literal and nothing else. -/
theorem bare_of_level (isQuote : IsQuote quote) (first : start.rest.head? = some quote)
    {depth' : Nat} {literal : List (Node Rule)}
    (string : grammar.read depth' (.rule .stringLiteral) start = .matched last literal)
    (filler : ∀ c ∈ text, isFiller c = true) (behind : last.Takes text stop) {r : Rule}
    (level : isLevel r = true) {more : List Char} (later : here.Takes more stop)
    (found : grammar.read depth (.rule r) start = .matched here nodes) :
    here = last ∧ ∃ node, nodes = [node] ∧ Bare ⟨start.offset, last.offset⟩ node := by
  induction depth generalizing r here nodes more with
  | zero => cases found
  | succ depth ih =>
    obtain ⟨below, children, eq, inside, rfl⟩ := Grammar.read_rule_matched.1 found
    cases eq
    have node : grammar.node r start here children =
        .branch r ⟨start.offset, here.offset⟩ children := by
      simp [Grammar.node, grammar, not_token_of_isLevel level]
    rw [node]
    cases step : tighter r with
    | some next =>
      -- The operand is the literal, so what follows it in the level is only white space.
      obtain ⟨middle, before, after, operand, tail, rfl⟩ := climb step inside
        (levelOther_refused isQuote r first)
      obtain ⟨taken, takes⟩ := Grammar.read_takes tail
      obtain ⟨rfl, child, rfl, bare⟩ := ih (isLevel_of_tighter step) (takes.trans later) operand
      have whole : text = taken ++ more := by
        have same := behind.rest.symm.trans (takes.trans later).rest
        exact List.append_cancel_right same
      have nothing := levelTail_of_filler tail takes fun c mem =>
        filler c (whole ▸ List.mem_append_left _ mem)
      obtain ⟨rfl, rfl⟩ := nothing
      exact ⟨rfl, _, rfl, .level step _ bare⟩
    | none =>
      have primary : r = .primaryExpression := by simpa [isLevel, step] using level
      subst primary
      obtain ⟨depth, strings, string', rfl⟩ := stringLiteral_of_primary isQuote first inside
      cases stringLiteral_unique string string'
      obtain ⟨_, children, -, -, rfl⟩ := Grammar.read_rule_matched.1 string'
      exact ⟨rfl, _, rfl, .primary _ (.literal _ _)⟩

/-! ### The end of the statement -/

theorem isBlank_of_isSpace {c : Char} (space : isSpace c = true) (filler : isFiller c = true) :
    Text.isBlank c = true := by
  simp only [isSpace, Bool.or_eq_true, beq_iff_eq] at space
  rcases space with ((((rfl | rfl) | rfl) | rfl) | rfl) | rfl <;> first | rfl | cases filler

theorem isBlank_of_isLineBreak {c : Char} (ends : isLineBreak c = true) :
    Text.isBlank c = true := by
  simp only [isLineBreak, Bool.or_eq_true, beq_iff_eq] at ends
  rcases ends with ((rfl | rfl) | rfl) | rfl <;> rfl

theorem not_filler_of_slash {rest : List Char} (takes : here.Takes text stop)
    (first : ('/' :: rest) <+: here.rest) (moves : text ≠ []) :
    ¬ ∀ c ∈ text, isFiller c = true := by
  intro filler
  obtain ⟨c, text, rfl⟩ := List.exists_cons_of_ne_nil moves
  obtain ⟨behind, eq⟩ := first
  have slash : '/' = c := (List.cons.inj (eq.trans takes.rest)).1
  subst slash
  cases filler '/' List.mem_cons_self

/-- The white space in front of the end of a statement, if there is no comment in it. -/
theorem blank_of_inlineGap (takes : here.Takes text stop) (filler : ∀ c ∈ text, isFiller c = true)
    (found : grammar.read depth inlineGap here = .matched stop nodes) :
    ∀ c ∈ text, Text.isBlank c = true := by
  have rounds := Grammar.rounds_of_read_many found
  clear found
  induction rounds generalizing text with
  | done | still =>
    cases takes.stays_iff.1 rfl
    exact List.forall_mem_nil _
  | @more here middle stop before after round moves later ih =>
    obtain ⟨front, first⟩ := Grammar.read_takes round
    obtain ⟨back, rest⟩ := Grammar.takes_of_rounds later
    cases List.append_cancel_right (takes.rest.symm.trans (first.trans rest).rest)
    obtain ⟨fillerFront, fillerBack⟩ := List.forall_mem_append.1 filler
    refine List.forall_mem_append.2 ⟨?_, ih rest fillerBack⟩
    rcases Grammar.read_alt_matched.1 round with space | ⟨-, comment⟩
    · obtain ⟨c, eq, isSpace, offset, -⟩ := Grammar.read_one_matched.1 space
      have one := Cursor.Takes.one eq offset
      cases List.append_cancel_right (first.rest.symm.trans one.rest)
      exact List.forall_mem_singleton.2 (isBlank_of_isSpace isSpace (fillerFront c List.mem_cons_self))
    · obtain ⟨_, _, _, opening, -⟩ := Grammar.read_seq_matched.1 comment
      obtain ⟨_, _, _, opening, -⟩ := Grammar.read_seq_matched.1 opening
      have slash := (Grammar.read_text_matched.1 opening).1.rest
      have moved : front ≠ [] := fun none => moves (first.stays_iff.2 none)
      exact absurd fillerFront (not_filler_of_slash first ⟨_, slash.symm⟩ moved)

theorem blank_of_lineTerminator (takes : here.Takes text stop)
    (found : grammar.read depth lineTerminator here = .matched stop nodes) :
    ∀ c ∈ text, Text.isBlank c = true := by
  rcases Grammar.read_alt_matched.1 found with both | ⟨-, single⟩
  · have same := (Grammar.read_text_matched.1 both).1.rest
    cases List.append_cancel_right (takes.rest.symm.trans same)
    exact List.forall_mem_cons.2 ⟨rfl, List.forall_mem_singleton.2 rfl⟩
  · obtain ⟨c, eq, ends, offset, -⟩ := Grammar.read_one_matched.1 single
    cases List.append_cancel_right (takes.rest.symm.trans (Cursor.Takes.one eq offset).rest)
    exact List.forall_mem_singleton.2 (isBlank_of_isLineBreak ends)

/-- What ends a statement, if there is no comment in it: white space, and behind it a semicolon, a
line break or nothing. -/
theorem parts_of_statementEnd (takes : here.Takes text stop)
    (filler : ∀ c ∈ text, isFiller c = true)
    (found : grammar.read depth statementEnd here = .matched stop nodes) :
    ∃ before after, text = before ++ after ∧ (∀ c ∈ before, Text.isBlank c = true) ∧
      (after = [';'] ∨ ∀ c ∈ after, Text.isBlank c = true) := by
  obtain ⟨middle, _, space, ending⟩ := ending_of_statementEnd found
  obtain ⟨before, first⟩ := Grammar.read_takes space
  obtain ⟨after, last⟩ := ending.takes
  cases List.append_cancel_right (takes.rest.symm.trans (first.trans last).rest)
  obtain ⟨fillerBefore, fillerAfter⟩ := List.forall_mem_append.1 filler
  refine ⟨before, after, rfl, blank_of_inlineGap first fillerBefore space, ?_⟩
  by_cases none : after = []
  · exact .inr (none ▸ List.forall_mem_nil _)
  have noComment {rest : List Char} : ¬ ('/' :: rest) <+: middle.rest := fun slash =>
    not_filler_of_slash last slash none fillerAfter
  have stays (eq : stop = middle) : False := none (last.stays_iff.1 (congrArg Cursor.offset eq))
  cases ending with
  | semicolon takes => exact .inl (List.append_cancel_right (last.rest.symm.trans takes.rest))
  | lineBreak found => exact .inr (blank_of_lineTerminator last found)
  | lineComment comment => exact absurd (prefix_of_lineComment comment) noComment
  | blockComment comment => exact absurd (prefix_of_blockComment comment) noComment
  | brace eq | nothing eq => exact (stays eq).elim

/-- A statement that begins with a string literal, behind which only white space and semicolons
follow, is that literal and the end of a statement. -/
theorem bare_of_statement (isQuote : IsQuote quote) (first : start.rest.head? = some quote)
    {depth' : Nat} {literal : List (Node Rule)}
    (string : grammar.read depth' (.rule .stringLiteral) start = .matched last literal)
    (filler : ∀ c ∈ text, isFiller c = true) (behind : last.Takes text stop)
    (found : grammar.read depth (pattern .expressionStatement) start = .matched stop nodes) :
    (∃ node, nodes = [node] ∧ Bare ⟨start.offset, last.offset⟩ node) ∧
      grammar.read depth statementEnd last = .matched stop [] := by
  obtain ⟨here, front, ends, before, ending, rfl⟩ := Grammar.read_seq_matched.1 found
  obtain ⟨_, _, _, look, value, rfl⟩ := Grammar.read_seq_matched.1 before
  obtain ⟨rfl, rfl, -⟩ := Grammar.read_notAhead_matched.1 look
  obtain ⟨taken, takes⟩ := Grammar.read_takes ending
  obtain ⟨rfl, node, rfl, bare⟩ := bare_of_level isQuote first string filler behind rfl takes value
  cases Grammar.nil_of_rules rfl ending
  exact ⟨⟨node, rfl, bare⟩, ending⟩

/-! ### The literal -/

/-- A string literal is a text between two quotes of the same kind. -/
theorem parts_of_stringLiteral
    (found : grammar.read depth (.rule .stringLiteral) start = .matched last nodes) :
    ∃ quote text inner close, IsQuote quote ∧ start.Takes [quote] inner ∧
      inner.Takes text close ∧ close.Takes [quote] last := by
  obtain ⟨_, _, -, inside, -⟩ := Grammar.read_rule_matched.1 found
  have quoted {quote : Char} {p : Part} {depth : Nat} {nodes : List (Node Rule)}
      (isQuote : IsQuote quote)
      (found : grammar.read depth (.text [quote] ++ p ++ .text [quote]) start =
        .matched last nodes) :
      ∃ quote text inner close, IsQuote quote ∧ start.Takes [quote] inner ∧
        inner.Takes text close ∧ close.Takes [quote] last := by
    obtain ⟨close, _, _, front, closing, -⟩ := Grammar.read_seq_matched.1 found
    obtain ⟨inner, _, _, opening, chars, -⟩ := Grammar.read_seq_matched.1 front
    obtain ⟨text, takes⟩ := Grammar.read_takes chars
    exact ⟨quote, text, inner, close, isQuote, (Grammar.read_text_matched.1 opening).1, takes,
      (Grammar.read_text_matched.1 closing).1⟩
  rcases Grammar.read_alt_matched.1 inside with double | ⟨-, single⟩
  · exact quoted (.inl rfl) double
  · exact quoted (.inr rfl) single

/-- A level that begins with a quote begins with a string literal. -/
theorem exists_stringLiteral (isQuote : IsQuote quote) (first : start.rest.head? = some quote)
    {r : Rule} (level : isLevel r = true)
    (found : grammar.read depth (.rule r) start = .matched here nodes) :
    ∃ depth last literal tail,
      grammar.read depth (.rule .stringLiteral) start = .matched last literal ∧
        last.Takes tail here := by
  induction depth generalizing r here nodes with
  | zero => cases found
  | succ depth ih =>
    obtain ⟨below, children, eq, inside, -⟩ := Grammar.read_rule_matched.1 found
    cases eq
    cases step : tighter r with
    | some next =>
      obtain ⟨middle, _, _, operand, tail, -⟩ := climb step inside
        (levelOther_refused isQuote r first)
      obtain ⟨_, behind⟩ := Grammar.read_takes tail
      obtain ⟨depth', last, literal, _, string, takes⟩ := ih (isLevel_of_tighter step) operand
      exact ⟨depth', last, literal, _, string, takes.trans behind⟩
    | none =>
      have primary : r = .primaryExpression := by simpa [isLevel, step] using level
      subst primary
      obtain ⟨depth', literal, string, -⟩ := stringLiteral_of_primary isQuote first inside
      exact ⟨depth', here, literal, [], string, .refl here⟩

end

end ScriptEngine.Script
