import ScriptEngine.Proofs.Grammar.OneLine
import ScriptEngine.Proofs.Grammar.Rows

/-!
# Tokens at both ends of a match

What stands between two tokens, white space and comments, is only read where more is to come. So a
match of an expression ends with a token, not with what follows it (`ends_of_rule`). `endsToken` looks
through a pattern for this; that the last lexeme of a match is then a token follows along the patterns
that are made of whole lexemes (`Weighs.ends`). It begins with a token as well (`begins_of_rule`), so
the node of a match is `Tight` around its tokens (`tight_of_derived`).
-/
namespace ScriptEngine.Script

/-- The lexeme is neither white space nor a comment. -/
def Lexeme.isToken : Lexeme → Bool
  | string _ => true
  | char c => !isSpace c && !isLineBreak c
  | lineComment _ | blockComment _ => false

/-- Between the two texts stand lexemes of which the last one is a token. -/
def Ends (source stop : List Char) : Prop :=
  ∃ front last, Lexed source (front ++ [last]) stop ∧ last.isToken = true

/-- The characters that are white space. -/
def blankChars : List Char :=
  [' ', '\t', '\x0b', '\x0c', '\u00a0', '\ufeff', '\n', '\r', '\u2028', '\u2029']

theorem isToken_of_not_blank {c : Char} (other : c ∉ blankChars) :
    (Lexeme.char c).isToken = true := by
  simp only [blankChars, List.mem_cons, List.not_mem_nil, or_false, not_or] at other
  simp [Lexeme.isToken, isSpace, isLineBreak, other]

namespace Ends

variable {e : Effect} {source middle stop : List Char}

theorem after (before : Spans e source middle) (ends : Ends middle stop) : Ends source stop := by
  obtain ⟨ls, lexed, -⟩ := before
  obtain ⟨front, last, lexed', token⟩ := ends
  have both := lexed.append lexed'
  rw [← List.append_assoc] at both
  exact ⟨ls ++ front, last, both, token⟩

theorem single {l : Lexeme} {rest : List Char} (lexed : Lexed source [l] rest)
    (token : l.isToken = true) : Ends source rest := ⟨[], l, lexed, token⟩

end Ends

/-! ## Patterns -/

/-- The rules whose matches end with a token. -/
def isClosed : Rule → Bool
  | .identifier | .identifierName | .literal | .nullLiteral | .booleanLiteral | .numericLiteral
  | .stringLiteral | .thisExpression | .primaryExpression | .arrayLiteral | .objectLiteral
  | .functionExpression | .memberExpression | .newWithArguments | .newBare | .memberDot
  | .memberIndex | .arguments | .lhsExpression | .postfixExpression | .postfixOperator
  | .unaryExpression | .binary _ | .logicalAnd | .logicalOr | .conditional | .assignment
  | .expression | .variableDeclaration => true
  | _ => false

/-- Whether a match of the pattern ends with a token; `stays` allows for matches that take
nothing. -/
def endsToken : (stays : Bool) → Part → Bool
  | _, .one accepts => blankChars.all (!accepts ·)
  | _, .text chars => chars.getLast?.any (!blankChars.contains ·)
  | stays, .seq first second =>
    endsToken false second || endsToken true second && endsToken stays first
  | stays, .alt first second => endsToken stays first && endsToken stays second
  | stays, .many item | stays, .optional item => stays && endsToken true item
  | stays, .ahead _ | stays, .notAhead _ => stays
  | _, .rule name => isClosed name

/-- The patterns of these rules end with a token if the rules in them do. -/
theorem endsToken_pattern {name : Rule} (closed : isClosed name = true)
    (other : name ≠ .stringLiteral) : endsToken false (pattern name) = true := by
  cases name with
  | stringLiteral => exact absurd rfl other
  | binary level => cases level <;> rfl
  | _ => first | rfl | cases closed

section

variable {depth : Nat} {here stop : Cursor} {nodes : List (Node Rule)}

theorem ends_one {accepts : Char → Bool} (plain : marks.all (!accepts ·) = true)
    (ends : blankChars.all (!accepts ·) = true)
    (found : grammar.read depth (.one accepts) here = .matched stop nodes) :
    Ends here.rest stop.rest := by
  obtain ⟨c, rest, accepted, -⟩ := Grammar.read_one_matched.1 found
  have free {chars : List Char} (none : chars.all (!accepts ·) = true) : c ∉ chars := by
    intro mem
    have refused := List.all_eq_true.1 none c mem
    rw [accepted] at refused
    cases refused
  have regular := regular_of_isPlain (isPlain_of_not_mark (free plain)) stop.rest
  rw [rest]
  exact .single (.char regular (.nil _)) (isToken_of_not_blank (free ends))

theorem ends_text {chars : List Char} (plain : isPlainText chars = true)
    (ends : chars.getLast?.any (!blankChars.contains ·) = true) (rest : List Char) :
    Ends (chars ++ rest) rest := by
  have lexed := lexed_text plain rest
  obtain ⟨c, isLast, other⟩ := (Option.any_eq_true _ _).1 ends
  obtain ⟨front, rfl⟩ := List.getLast?_eq_some_iff.1 isLast
  rw [List.map_append] at lexed
  exact ⟨front.map .char, .char c, lexed, isToken_of_not_blank (by simpa using other)⟩

/-- Rounds that end with a token, if they take anything, end with one together. -/
theorem ends_many {item : Part} (weighs : Weighs item .even)
    (each : ∀ here stop nodes, grammar.read depth item here = .matched stop nodes →
      stop = here ∨ Ends here.rest stop.rest)
    (found : grammar.read depth (.many item) here = .matched stop nodes) :
    stop = here ∨ Ends here.rest stop.rest := by
  have rounds := Grammar.rounds_of_read_many found
  clear found
  induction rounds with
  | done | still => exact .inl rfl
  | more round moves _ ih =>
    right
    rcases ih with rfl | ends
    · rcases each _ _ _ round with rfl | ends
      · exact absurd rfl moves
      · exact ends
    · exact ends.after (weighs.spans_read round)

/-- A match of a pattern that ends with a token does, if the matches of the rules in it do. -/
theorem Weighs.ends {p : Part} {e : Effect} (weighs : Weighs p e)
    (rules : ∀ name, isClosed name = true → ∀ here stop nodes,
      grammar.read depth (.rule name) here = .matched stop nodes → Ends here.rest stop.rest)
    {stays : Bool} (ends : endsToken stays p = true)
    (found : grammar.read depth p here = .matched stop nodes) :
    stays = true ∧ stop = here ∨ Ends here.rest stop.rest := by
  induction weighs generalizing stays here stop nodes with
  | one plain => exact .inr (ends_one plain ends found)
  | text plain =>
    obtain ⟨takes, -⟩ := Grammar.read_text_matched.1 found
    rw [takes.rest]
    exact .inr (ends_text plain ends _)
  | seq before after _ ihFirst ihSecond =>
    obtain ⟨middle, _, _, first, second, -⟩ := Grammar.read_seq_matched.1 found
    have spans := before.spans_read first
    rcases Bool.or_eq_true_iff.1 ends with ends | both
    · rcases ihSecond ends second with ⟨never, -⟩ | ends
      · cases never
      · exact .inr (ends.after spans)
    · -- Where the second part takes nothing, the first one decides.
      obtain ⟨endsSecond, endsFirst⟩ := Bool.and_eq_true_iff.1 both
      rcases ihSecond endsSecond second with ⟨-, rfl⟩ | ends
      · exact ihFirst endsFirst first
      · exact .inr (ends.after spans)
  | alt _ _ ihFirst ihSecond =>
    obtain ⟨left, right⟩ := Bool.and_eq_true_iff.1 ends
    rcases Grammar.read_alt_matched.1 found with found | ⟨-, found⟩
    · exact ihFirst left found
    · exact ihSecond right found
  | many _ inside ih =>
    obtain ⟨stays, ends⟩ := Bool.and_eq_true_iff.1 ends
    have rounds := ends_many inside (fun _ _ _ round => (ih ends round).imp_left And.right) found
    exact rounds.imp_left (And.intro stays)
  | optional _ ih =>
    obtain ⟨stays, ends⟩ := Bool.and_eq_true_iff.1 ends
    rcases Grammar.read_optional_matched.1 found with found | ⟨-, rfl, -⟩
    · exact (ih ends found).imp_left fun both => ⟨stays, both.2⟩
    · exact .inl ⟨stays, rfl⟩
  | notAhead | notEitherAhead => exact .inl ⟨ends, (Grammar.read_notAhead_matched.1 found).1⟩
  | rule => exact .inr (rules _ ends _ _ _ found)
  | gap | inlineGap | statementEnd => cases stays <;> cases ends
  | product =>
    obtain ⟨_, _, front, right⟩ := spans_to_operand found
    exact .inr ((rules .unaryExpression rfl _ _ _ right).after front)

/-- What these rules match ends with a token. -/
theorem ends_of_rule {name : Rule} (closed : isClosed name = true)
    (found : grammar.read depth (.rule name) here = .matched stop nodes) :
    Ends here.rest stop.rest := by
  induction depth generalizing name here stop nodes with
  | zero => cases found
  | succ depth ih =>
    by_cases string : name = .stringLiteral
    · subst string
      obtain ⟨text, takes⟩ := Grammar.read_takes found
      have first := lexeme?_string takes found
      rw [takes.rest] at first ⊢
      exact .single (.single (l := .string text) first trivial) rfl
    · obtain ⟨_, children, eq, inside, -⟩ := Grammar.read_rule_matched.1 found
      cases eq
      have whole : isWhole name = true := by
        cases name with
        | operator => cases closed
        | _ => first | rfl | cases closed
      rcases (weighs_pattern whole string).ends (fun _ closed _ _ _ => ih closed)
        (endsToken_pattern closed string) inside with ⟨never, -⟩ | ends
      · cases never
      · exact ends

/-- A match of a pattern of whole lexemes that ends with a token does. -/
theorem Weighs.ends_read {p : Part} {e : Effect} (weighs : Weighs p e)
    (ends : endsToken false p = true)
    (found : grammar.read depth p here = .matched stop nodes) : Ends here.rest stop.rest := by
  rcases weighs.ends (fun _ closed _ _ _ => ends_of_rule closed) ends found with ⟨never, -⟩ | ends
  · cases never
  · exact ends

/-! ## The first token of a match -/

/-- A text begins with a token. -/
def Begins (source : List Char) : Prop := ∃ l, lexeme? source = some l ∧ l.isToken = true

/-- The rules that a rule whose matches end with a token can begin with, itself included. -/
def opensClosed (name : Rule) : Bool := isClosed name || name = .prefixOperator

/-- None of these rules begins at the end of a text, with white space or with a slash. -/
theorem refused_filler {next : Option Char} (filler : next ∈ none :: ('/' :: blankChars).map some) :
    grammar.Refused opensClosed next := by
  intro name known
  revert next
  cases name with
  | binary level => cases level <;> decide
  | operator => cases known
  | _ => first | decide | cases known

theorem begins_of_rule {name : Rule} (closed : isClosed name = true)
    (found : grammar.read depth (.rule name) here = .matched stop nodes) : Begins here.rest := by
  have opens : (Pattern.rule name).reaction opensClosed here.rest.head? = .refuses := by
    rw [Pattern.reaction, if_pos (by rw [opensClosed, closed, Bool.true_or])]
  have other : here.rest.head? ∉ none :: ('/' :: blankChars).map some := by
    intro filler
    exact Grammar.not_matched_of_refuses (refused_filler filler) opens rfl found
  -- So there is a first lexeme, and as it is no comment and not blank, it is a token.
  have noComment {second : Char} : ¬ ['/', second] <+: here.rest := by
    rintro ⟨rest, eq⟩
    rw [← eq] at other
    exact other (by simp)
  cases first : lexeme? here.rest with
  | none =>
    obtain ⟨-, -, -, nothing⟩ : _ ∧ _ ∧ _ ∧ here.rest = [] := by simpa [lexeme?] using first
    exact absurd (by simp [nothing]) other
  | some l =>
    refine ⟨l, first, ?_⟩
    rcases lexeme?_cases first with ⟨_, rfl, -⟩ | ⟨_, rfl, taken⟩ | ⟨_, rfl, taken⟩ | ⟨c, rfl, isFirst⟩
    · rfl
    · obtain ⟨_, _, comment, -⟩ := read_of_taken? taken
      exact absurd (prefix_of_lineComment comment) noComment
    · obtain ⟨_, _, comment, -⟩ := read_of_taken? taken
      exact absurd (prefix_of_blockComment comment) noComment
    · apply isToken_of_not_blank
      intro blank
      rw [isFirst] at other
      exact other (.tail _ (List.mem_map_of_mem (.tail _ blank)))

end

/-- The stretch begins with a token and ends with one. -/
def Tight (source : List Char) (s : Span) : Prop :=
  ∃ start stop : Cursor, start.Within source ∧ start.offset = s.start ∧
    (∃ text, start.Takes text stop) ∧ stop.offset = s.stop ∧
      Begins start.rest ∧ Ends start.rest stop.rest

theorem tight_of_derived {source : List Char} {node : Node Rule}
    (derived : grammar.Derived source node) (closed : isClosed node.rule = true) :
    Tight source node.span := by
  cases derived with
  | @node depth name start stop children within found inside =>
    rw [Grammar.rule_node] at closed
    rw [Grammar.span_node]
    have whole := Grammar.read_rule_matched.2 ⟨depth, children, rfl, found, rfl⟩
    exact ⟨start, stop, within, rfl, Grammar.read_takes found, rfl, begins_of_rule closed whole,
      ends_of_rule closed whole⟩

/-- So is every part of a node whose rule mentions no others. -/
theorem tight_of_child {source : List Char} {node part : Node Rule}
    (derived : grammar.Derived source node) (closed : (pattern node.rule).rules.all isClosed = true)
    (mem : part ∈ node.children) : Tight source part.span := by
  apply tight_of_derived (derived.children part mem)
  cases derived with
  | @node depth name start stop children within found inside =>
    rw [Grammar.rule_node] at closed
    apply List.all_eq_true.1 closed
    unfold Grammar.node at mem
    dsimp only at mem
    split at mem
    · cases mem
    · exact Grammar.mem_rules_of_read found part mem

end ScriptEngine.Script
