import ScriptEngine.Proofs.Grammar.Lexemes

/-!
# Brackets in what a pattern takes

`Weighs` says of a pattern of the grammar that it is made of whole lexemes, and how many brackets
it closes and leaves open. Every rule but those inside a string literal and of an operator weighs
nothing (`weighs_pattern`), so whatever the grammar matches, its brackets balance.
-/
namespace ScriptEngine.Script

/-! ## Stretches of lexemes -/

/-- Some lexemes with this effect lead from one text to another. -/
def Spans (e : Effect) (source stop : List Char) : Prop :=
  ∃ ls, Lexed source ls stop ∧ effect ls = e

namespace Spans

variable {e f : Effect} {source middle stop : List Char}

theorem refl (source : List Char) : Spans .even source source := ⟨[], .nil source, rfl⟩

theorem trans (before : Spans e source middle) (after : Spans f middle stop) :
    Spans (e.andThen f) source stop := by
  obtain ⟨ls, first, rfl⟩ := before
  obtain ⟨more, second, rfl⟩ := after
  exact ⟨ls ++ more, first.append second, effect_append ls more⟩

theorem even (before : Spans .even source middle) (after : Spans .even middle stop) :
    Spans .even source stop := before.trans after

theorem single {l : Lexeme} {rest : List Char} (first : lexeme? (l.text ++ rest) = some l)
    (regular : l.Regular rest) : Spans l.effect (l.text ++ rest) rest :=
  ⟨[l], .single first regular, by simp⟩

theorem char {c : Char} {rest : List Char} (regular : (Lexeme.char c).Regular rest) :
    Spans (Lexeme.char c).effect (c :: rest) rest := single (lexeme?_char regular) regular

end Spans

section

variable {depth : Nat} {here stop : Cursor} {nodes : List (Node Rule)}

theorem spans_stringLiteral
    (found : grammar.read depth (.rule .stringLiteral) here = .matched stop nodes) :
    Spans .even here.rest stop.rest := by
  obtain ⟨text, takes⟩ := Grammar.read_takes found
  have first := lexeme?_string takes found
  rw [takes.rest] at first ⊢
  exact Spans.single (l := .string text) first trivial

theorem spans_lineComment (found : grammar.read depth lineComment here = .matched stop nodes) :
    Spans .even here.rest stop.rest := by
  obtain ⟨text, takes⟩ := Grammar.read_takes found
  have first := lexeme?_lineComment takes found
  rw [takes.rest] at first ⊢
  exact Spans.single (l := .lineComment text) first trivial

theorem spans_blockComment (found : grammar.read depth blockComment here = .matched stop nodes) :
    Spans .even here.rest stop.rest := by
  obtain ⟨text, takes⟩ := Grammar.read_takes found
  have first := lexeme?_blockComment takes found
  rw [takes.rest] at first ⊢
  exact Spans.single (l := .blockComment text) first trivial

/-- Between the marks of a comment the characters can be read up to another ending, if where they
stand it is no more than the first one. -/
theorem comment_of_comment {ending ending' : Part} {text : List Char} (simple : ending'.simple = true)
    (closes : ∀ here stop nodes, grammar.read depth (sign "*/") here = .matched stop nodes →
      grammar.read depth ending' here = .matched stop nodes)
    (takes : here.Takes text stop)
    (carries : ∀ c ∈ text, ∀ here, here.rest.head? = some c →
      grammar.read depth ending here = .failed → grammar.read depth ending' here = .failed)
    (found : grammar.read depth (sign "/*" ++ .many (.notAhead ending ++ anyChar) ++ sign "*/") here =
      .matched stop nodes) :
    ∃ nodes, grammar.read depth (sign "/*" ++ .many (.notAhead ending' ++ anyChar) ++ sign "*/") here =
      .matched stop nodes := by
  obtain ⟨last, before, after, front, closing, -⟩ := Grammar.read_seq_matched.1 found
  obtain ⟨first, _, inside, opening, rounds, -⟩ := Grammar.read_seq_matched.1 front
  obtain ⟨taken, passed⟩ := Grammar.read_takes rounds
  have opened := (Grammar.read_text_matched.1 opening).1
  have closed := (Grammar.read_text_matched.1 closing).1
  obtain rfl := List.append_cancel_right
    (takes.rest.symm.trans ((opened.trans passed).trans closed).rest)
  replace carries c (mem : c ∈ taken) :=
    carries c (List.mem_append_left _ (List.mem_append_right _ mem))
  have rounds' : ∃ inside,
      grammar.Rounds depth (.notAhead ending' ++ anyChar) first last inside := by
    clear front opening found takes opened closed
    replace rounds := Grammar.rounds_of_read_many rounds
    induction rounds generalizing taken with
    | done | still =>
      -- The comment is closed here, so there is no further round.
      refine ⟨[], .done (Grammar.read_seq_failed.2 (.inl (Grammar.read_notAhead_failed.2 ?_)))⟩
      exact ⟨_, _, closes _ _ _ closing⟩
    | more round moves later ih =>
      obtain ⟨_, _, made, look, char, -⟩ := Grammar.read_seq_matched.1 round
      obtain ⟨rfl, -, free⟩ := Grammar.read_notAhead_matched.1 look
      obtain ⟨c, eq, -, offset, -⟩ := Grammar.read_one_matched.1 char
      obtain ⟨rest, takesRest⟩ := Grammar.takes_of_rounds later
      obtain rfl := List.append_cancel_right
        (passed.rest.symm.trans ((Cursor.Takes.one eq offset).trans takesRest).rest)
      obtain ⟨here, others⟩ := List.forall_mem_cons.1 carries
      obtain ⟨inside, later⟩ := ih closing rest takesRest others
      have free' := here _ (by rw [eq]; rfl) free
      have round' := Grammar.read_seq_matched.2
        ⟨_, [], made, Grammar.read_notAhead_matched.2 ⟨rfl, rfl, free'⟩, char, rfl⟩
      exact ⟨_, .more round' moves later⟩
  obtain ⟨inside', rounds'⟩ := rounds'
  have simple' : (Pattern.many (.notAhead ending' ++ anyChar)).simple = true :=
    Bool.and_eq_true_iff.2 ⟨rfl, Bool.and_eq_true_iff.2 ⟨simple, rfl⟩⟩
  have ends : grammar.read depth _ first ≠ .exhausted :=
    Grammar.read_ne_exhausted_of_simple simple' first
  have repeated := Grammar.read_many_of_rounds rounds' ends
  exact ⟨_, Grammar.read_seq_matched.2 ⟨last, _, after,
    Grammar.read_seq_matched.2 ⟨first, _, inside', opening, repeated, rfl⟩, closing, rfl⟩⟩

/-- A block comment without line breaks is a block comment. -/
theorem blockComment_of_inline
    (found : grammar.read depth inlineBlockComment here = .matched stop nodes) :
    ∃ nodes, grammar.read depth blockComment here = .matched stop nodes := by
  obtain ⟨text, takes⟩ := Grammar.read_takes found
  refine comment_of_comment rfl (fun _ _ _ closed => closed) takes (fun _ _ _ _ failed => ?_) found
  exact (Grammar.read_alt_failed.1 failed).1

/-- A character that is no quote, slash or bracket. -/
def isPlain (c : Char) : Bool :=
  c != '"' && c != '\'' && c != '/' && !isOpening c && !isClosing c

theorem regular_of_isPlain {c : Char} (plain : isPlain c = true) (rest : List Char) :
    (Lexeme.char c).Regular rest := by
  simp only [isPlain, Bool.and_eq_true, bne_iff_ne] at plain
  obtain ⟨⟨⟨⟨double, single⟩, slash⟩, -⟩, -⟩ := plain
  exact ⟨double, single, fun eq => absurd eq slash⟩

theorem Spans.plain {c : Char} {rest : List Char} (plain : isPlain c = true) :
    Spans .even (c :: rest) rest := by
  have regular := regular_of_isPlain plain rest
  simp only [isPlain, Bool.and_eq_true, Bool.not_eq_true'] at plain
  have weight : (Lexeme.char c).effect = .even := by
    simp [Lexeme.effect, Lexeme.opens, Lexeme.closes, plain, Effect.even]
  exact weight ▸ Spans.char regular

theorem spans_one {accepts : Char → Bool} (plain : ∀ c, accepts c = true → isPlain c = true)
    (found : grammar.read depth (.one accepts) here = .matched stop nodes) :
    Spans .even here.rest stop.rest := by
  obtain ⟨c, rest, accepted, _⟩ := Grammar.read_one_matched.1 found
  rw [rest]
  exact .plain (plain c accepted)

theorem isPlain_of_isSpace {c : Char} (space : isSpace c = true) : isPlain c = true := by
  simp only [isSpace, Bool.or_eq_true, beq_iff_eq] at space
  rcases space with ((((rfl | rfl) | rfl) | rfl) | rfl) | rfl <;> decide

theorem isPlain_of_isLineBreak {c : Char} (ends : isLineBreak c = true) : isPlain c = true := by
  simp only [isLineBreak, Bool.or_eq_true, beq_iff_eq] at ends
  rcases ends with ((rfl | rfl) | rfl) | rfl <;> decide

theorem spans_lineTerminator
    (found : grammar.read depth lineTerminator here = .matched stop nodes) :
    Spans .even here.rest stop.rest := by
  rcases Grammar.read_alt_matched.1 found with found | ⟨_, found⟩
  · rw [(Grammar.read_text_matched.1 found).1.rest]
    exact Spans.even (.plain (by decide)) (.plain (by decide))
  · exact spans_one (fun _ => isPlain_of_isLineBreak) found

theorem spans_many {item : Part}
    (each : ∀ here stop nodes, grammar.read depth item here = .matched stop nodes →
      Spans .even here.rest stop.rest)
    (found : grammar.read depth (.many item) here = .matched stop nodes) :
    Spans .even here.rest stop.rest := by
  have rounds := Grammar.rounds_of_read_many found
  clear found
  induction rounds with
  | done | still => exact .refl _
  | more round _ _ ih => exact (each _ _ _ round).even ih

theorem spans_gap (found : grammar.read depth gap here = .matched stop nodes) :
    Spans .even here.rest stop.rest := by
  refine spans_many (fun here stop nodes found => ?_) found
  rcases Grammar.read_alt_matched.1 found with found | ⟨_, found⟩
  · rcases Grammar.read_alt_matched.1 found with found | ⟨_, found⟩
    · rcases Grammar.read_alt_matched.1 found with found | ⟨_, found⟩
      · exact spans_one (fun _ => isPlain_of_isSpace) found
      · exact spans_lineTerminator found
    · exact spans_blockComment found
  · exact spans_lineComment found

theorem spans_inlineGap (found : grammar.read depth inlineGap here = .matched stop nodes) :
    Spans .even here.rest stop.rest := by
  refine spans_many (fun here stop nodes found => ?_) found
  rcases Grammar.read_alt_matched.1 found with found | ⟨_, found⟩
  · exact spans_one (fun _ => isPlain_of_isSpace) found
  · obtain ⟨_, found⟩ := blockComment_of_inline found
    exact spans_blockComment found

theorem rest_of_anyChar_failed (failed : grammar.read depth anyChar here = .failed) :
    here.rest = [] := by
  have none := Grammar.read_one_failed.1 failed
  cases eq : here.rest with
  | nil => rfl
  | cons c rest =>
    rw [eq] at none
    cases none c rfl

/-- The ways to read what ends a statement. -/
inductive Ending (depth : Nat) (here stop : Cursor) : Prop where
  | semicolon (takes : here.Takes ";".toList stop)
  | lineBreak {nodes : List (Node Rule)}
    (found : grammar.read depth lineTerminator here = .matched stop nodes)
  | lineComment {nodes : List (Node Rule)}
    (found : grammar.read depth Script.lineComment here = .matched stop nodes)
  | blockComment {nodes : List (Node Rule)}
    (found : grammar.read depth Script.blockComment here = .matched stop nodes)
  | brace (stays : stop = here) (ahead : ∃ rest, here.rest = '\x7d' :: rest)
  | nothing (stays : stop = here) (none : here.rest = [])

theorem Ending.takes (ending : Ending depth here stop) : ∃ taken, here.Takes taken stop := by
  cases ending with
  | semicolon takes => exact ⟨_, takes⟩
  | lineBreak found | lineComment found | blockComment found => exact Grammar.read_takes found
  | brace stays | nothing stays =>
    rw [stays]
    exact ⟨[], .refl _⟩

/-- The end of a statement is read behind a gap without line breaks. -/
theorem ending_of_statementEnd
    (found : grammar.read depth statementEnd here = .matched stop nodes) :
    ∃ middle before, grammar.read depth inlineGap here = .matched middle before ∧
      Ending depth middle stop := by
  obtain ⟨middle, before, _, space, found, -⟩ := Grammar.read_seq_matched.1 found
  refine ⟨middle, before, space, ?_⟩
  rcases Grammar.read_alt_matched.1 found with found | ⟨_, found⟩
  · rcases Grammar.read_alt_matched.1 found with found | ⟨_, found⟩
    · rcases Grammar.read_alt_matched.1 found with found | ⟨_, found⟩
      · rcases Grammar.read_alt_matched.1 found with found | ⟨_, found⟩
        · rcases Grammar.read_alt_matched.1 found with found | ⟨_, found⟩
          · exact .semicolon (Grammar.read_text_matched.1 found).1
          · exact .lineBreak found
        · exact .lineComment found
      · exact .blockComment found
    · obtain ⟨stays, -, _, _, ahead⟩ := Grammar.read_ahead_matched.1 found
      exact .brace stays ⟨_, (Grammar.read_text_matched.1 ahead).1.rest⟩
  · obtain ⟨stays, -, ended⟩ := Grammar.read_notAhead_matched.1 found
    exact .nothing stays (rest_of_anyChar_failed ended)

theorem spans_statementEnd (found : grammar.read depth statementEnd here = .matched stop nodes) :
    Spans .even here.rest stop.rest := by
  obtain ⟨middle, _, space, ending⟩ := ending_of_statementEnd found
  refine (spans_inlineGap space).even ?_
  cases ending with
  | semicolon takes =>
    rw [takes.rest]
    exact .plain (by decide)
  | lineBreak found => exact spans_lineTerminator found
  | lineComment found => exact spans_lineComment found
  | blockComment found => exact spans_blockComment found
  | brace stays | nothing stays =>
    rw [stays]
    exact .refl _

/-! ## Slashes -/

/-- The rules that an operand can begin with, itself included. -/
def beginsOperand : Rule → Bool
  | .unaryExpression | .prefixOperator | .postfixExpression | .lhsExpression | .memberExpression
  | .newBare | .newWithArguments | .primaryExpression | .thisExpression | .literal | .nullLiteral
  | .booleanLiteral | .numericLiteral | .stringLiteral | .identifier | .arrayLiteral
  | .objectLiteral | .functionExpression => true
  | _ => false

theorem not_operand_of_star (first : here.rest.head? = some '*') :
    grammar.read depth (.rule .unaryExpression) here ≠ .matched stop nodes := by
  have refused : grammar.Refused beginsOperand (some '*') := by
    intro name known
    cases name with
    | binary | operator => cases known
    | _ => first | rfl | cases known
  exact Grammar.not_matched_of_refuses refused rfl first

/-- No comment begins where a gap ends. -/
theorem comments_failed_of_gap (found : grammar.read depth gap here = .matched stop nodes) :
    grammar.read depth lineComment stop = .failed ∧ grammar.read depth blockComment stop = .failed := by
  have moves : grammar.Moves (space ||| lineTerminator ||| blockComment ||| lineComment) :=
    Grammar.moves_of_closed (fun _ (never : false = true) => nomatch never) rfl
  have failed := (Grammar.rounds_of_read_many found).failed moves
  obtain ⟨front, line⟩ := Grammar.read_alt_failed.1 failed
  exact ⟨line, (Grammar.read_alt_failed.1 front).2⟩

theorem not_prefix_of_lineComment_failed (failed : grammar.read depth lineComment here = .failed) :
    ¬ "//".toList <+: here.rest := by
  rcases Grammar.read_seq_failed.1 failed with failed | ⟨_, _, _, failed⟩
  · exact Grammar.read_text_failed.1 failed
  · exact absurd failed Grammar.read_many_ne_failed

/-- A slash is a character of its own where it stands for division: behind it is no operand that
begins with a slash or a star. -/
theorem spans_to_operand
    (found : grammar.read depth
      (gap ++ .rule (.operator .multiplicative) ++ gap ++ operand .multiplicative) here =
        .matched stop nodes) :
    ∃ behind nodes, Spans .even here.rest behind.rest ∧
      grammar.read depth (.rule .unaryExpression) behind = .matched stop nodes := by
  obtain ⟨behind, _, _, front, right, -⟩ := Grammar.read_seq_matched.1 found
  obtain ⟨next, _, _, front, space', -⟩ := Grammar.read_seq_matched.1 front
  obtain ⟨middle, _, _, space, operator, -⟩ := Grammar.read_seq_matched.1 front
  refine ⟨behind, _, (spans_gap space).even (Spans.even ?_ (spans_gap space')), right⟩
  obtain ⟨_, _, _, operator, -⟩ := Grammar.read_rule_matched.1 operator
  obtain ⟨_, _, _, operator, look, -⟩ := Grammar.read_seq_matched.1 operator
  obtain ⟨rfl, -⟩ := Grammar.read_notAhead_matched.1 look
  rcases Grammar.read_alt_matched.1 operator with operator | ⟨_, operator⟩
  · rcases Grammar.read_alt_matched.1 operator with operator | ⟨_, operator⟩
    · rw [(Grammar.read_text_matched.1 operator).1.rest]
      exact .plain (by decide)
    · have rest := (Grammar.read_text_matched.1 operator).1.rest
      have noLine := not_prefix_of_lineComment_failed (comments_failed_of_gap space).1
      have regular : (Lexeme.char '/').Regular next.rest := by
        refine ⟨by decide, by decide, fun _ => ⟨fun slash => ?_, fun star => ?_⟩⟩
        · obtain ⟨more, eq⟩ := List.head?_eq_some_iff.1 slash
          exact noLine ⟨more, by rw [rest, eq]; rfl⟩
        · have stays : behind = next :=
            Grammar.eq_of_skips Grammar.refused_none rfl star space'
          exact not_operand_of_star star (stays ▸ right)
      rw [rest]
      exact Spans.char regular
  · rw [(Grammar.read_text_matched.1 operator).1.rest]
    exact .plain (by decide)

end

/-! ## The weight of a pattern -/

/-- The rules that always take something. -/
def takesSome : Rule → Bool
  | .arraySlot | .functionBody | .script | .doubleStringChars | .singleStringChars => false
  | _ => true

/-- The rules that are made of whole lexemes, wherever they are tried. -/
def isWhole : Rule → Bool
  | .doubleStringChars | .singleStringChars | .script | .operator .multiplicative => false
  | _ => true

/-- The characters that a class must not contain if it is to be of no weight anywhere. -/
def marks : List Char := ['"', '\'', '/', '(', ')', '[', ']', '\x7b', '\x7d', '\n']

/-- A text that is a lexeme for each of its characters: a bracket, or a word or operator, in which
a slash can only stand in front of an equals sign. -/
def isPlainText (chars : List Char) : Bool :=
  chars = ['/', '='] || !chars.isEmpty && chars.all (!marks.contains ·) ||
    chars.length = 1 && chars.all fun c => isOpening c || isClosing c

/-- The effect of a pattern on the nesting of brackets, for patterns that take whole lexemes. -/
inductive Weighs : Part → Effect → Prop where
  | one {accepts : Char → Bool} (plain : marks.all (!accepts ·) = true) : Weighs (.one accepts) .even
  | text {chars : List Char} {e : Effect} (plain : isPlainText chars = true)
    (weight : effect (chars.map .char) = e) : Weighs (.text chars) e
  | seq {first second : Part} {e f total : Effect} (before : Weighs first e)
    (after : Weighs second f) (weight : e.andThen f = total) : Weighs (.seq first second) total
  | alt {first second : Part} {e : Effect} (left : Weighs first e) (right : Weighs second e) :
    Weighs (.alt first second) e
  | many {item : Part} (moves : item.moves takesSome = true) (inside : Weighs item .even) :
    Weighs (.many item) .even
  | optional {item : Part} (inside : Weighs item .even) : Weighs (.optional item) .even
  | notAhead {item : Part} {e : Effect} (inside : Weighs item e) (closed : e.low = 0) :
    Weighs (.notAhead item) .even
  | notEitherAhead {first second : Part} {e f : Effect} (left : Weighs first e)
    (right : Weighs second f) (closed : e.low = 0) (closed' : f.low = 0) :
    Weighs (.notAhead (.alt first second)) .even
  | rule {name : Rule} (whole : isWhole name = true) : Weighs (.rule name) .even
  | gap : Weighs gap .even
  | inlineGap : Weighs inlineGap .even
  | statementEnd : Weighs statementEnd .even
  | product :
    Weighs (Script.gap ++ .rule (.operator .multiplicative) ++ Script.gap ++ operand .multiplicative)
      .even

namespace Weighs

variable {first second item : Part} {source : String}

theorem next (before : Weighs first .even) (after : Weighs second .even) :
    Weighs (first ++ second) .even := .seq before after rfl

theorem or (left : Weighs first .even) (right : Weighs second .even) :
    Weighs (first ||| second) .even := .alt left right

theorem wordEnd : Weighs wordEnd .even := .notAhead (.one rfl) rfl

theorem sign (plain : isPlainText source.toList = true)
    (weight : effect (source.toList.map .char) = .even) : Weighs (sign source) .even :=
  .text plain weight

theorem word (plain : isPlainText source.toList = true)
    (weight : effect (source.toList.map .char) = .even) : Weighs (word source) .even :=
  (sign plain weight).next wordEnd

theorem commaList (inside : Weighs item .even) : Weighs (commaList item) .even :=
  inside.next (.many rfl (((Weighs.gap.next (.sign rfl rfl)).next .gap).next inside))

theorem inParentheses (inside : Weighs item .even) : Weighs (inParentheses item) .even := by
  have opened : Weighs (Script.sign "(" ++ Script.gap ++ item ++ Script.gap) .opening :=
    .seq (.seq (.seq (.text rfl rfl) .gap rfl) inside rfl) .gap rfl
  exact .seq opened (.text rfl rfl) rfl

theorem inSquares (inside : Weighs item .even) : Weighs (inSquares item) .even := by
  have opened : Weighs (Script.sign "[" ++ Script.gap ++ item ++ Script.gap) .opening :=
    .seq (.seq (.seq (.text rfl rfl) .gap rfl) inside rfl) .gap rfl
  exact .seq opened (.text rfl rfl) rfl

theorem inBraces (inside : Weighs item .even) : Weighs (inBraces item) .even := by
  have opened : Weighs (Script.sign "\x7b" ++ item ++ Script.gap) .opening :=
    .seq (.seq (.text rfl rfl) inside rfl) .gap rfl
  exact .seq opened (.text rfl rfl) rfl

theorem anyOf {sources : List String}
    (plain : sources.all (fun source => isPlainText source.toList &&
      effect (source.toList.map .char) = .even) = true) : Weighs (anyOf sources) .even := by
  induction sources with
  | nil => exact .one rfl
  | cons source rest ih =>
    simp only [List.all_cons, Bool.and_eq_true, decide_eq_true_eq] at plain
    cases rest with
    | nil => exact .text plain.1.1 plain.1.2
    | cons => exact .alt (.text plain.1.1 plain.1.2) (ih plain.2)

theorem identifierName : Weighs name .even := (Weighs.one rfl).next (.many rfl (.one rfl))

theorem reserved : Weighs reserved .even := (Weighs.anyOf rfl).next wordEnd

end Weighs

/-- The rules of single words and signs weigh nothing. -/
theorem weighs_token {name : Rule} (token : isToken name = true) (whole : isWhole name = true) :
    Weighs (pattern name) .even := by
  cases name with
  | operator level =>
    cases level
    case multiplicative => cases whole
    all_goals
      repeat' first
        | refine Weighs.next ?_ ?_
        | refine Weighs.or ?_ ?_
        | exact Weighs.sign rfl rfl
        | exact Weighs.wordEnd
        | exact Weighs.anyOf rfl
        | exact Weighs.notAhead (.sign rfl rfl) rfl
        | exact Weighs.notAhead (.or (.sign rfl rfl) (.sign rfl rfl)) rfl
  | identifier => exact (Weighs.notAhead .reserved rfl).next .identifierName
  | identifierName => exact .identifierName
  | nullLiteral | thisExpression => exact .word rfl rfl
  | booleanLiteral => exact (Weighs.or (.sign rfl rfl) (.sign rfl rfl)).next .wordEnd
  | numericLiteral =>
    have digits : Weighs (Pattern.many digit) .even := .many rfl (.one rfl)
    have someDigits : Weighs (oneOrMore digit) .even := (Weighs.one rfl).next digits
    have hex : Weighs hexDigits .even :=
      (Weighs.or (.sign rfl rfl) (.sign rfl rfl)).next ((Weighs.one rfl).next (.many rfl (.one rfl)))
    have exponent : Weighs exponent .even :=
      ((Weighs.or (.sign rfl rfl) (.sign rfl rfl)).next
        (.optional (.or (.sign rfl rfl) (.sign rfl rfl)))).next someDigits
    have whole : Weighs (sign "0" ||| one (fun c => c.isDigit && c != '0') ++ .many digit) .even :=
      .or (.sign rfl rfl) ((Weighs.one rfl).next digits)
    have decimal : Weighs decimalDigits .even :=
      (Weighs.or (whole.next (.optional ((Weighs.sign rfl rfl).next digits)))
        ((Weighs.sign rfl rfl).next someDigits)).next (.optional exponent)
    exact (Weighs.or hex decimal).next (.notAhead (.or (.one rfl) (.one rfl)) rfl)
  | postfixOperator => exact .or (.sign rfl rfl) (.sign rfl rfl)
  | prefixOperator =>
    exact .or (.or (.or (.sign rfl rfl) (.sign rfl rfl)) ((Weighs.anyOf rfl).next .wordEnd))
      (.anyOf rfl)
  | assignmentOperator =>
    exact .or ((Weighs.sign rfl rfl).next (.notAhead (.sign rfl rfl) rfl)) (.anyOf rfl)
  | lexicalKind | forKind => exact (Weighs.anyOf rfl).next .wordEnd
  | doubleStringChars | singleStringChars => cases whole
  | _ => cases token

/-- The rules of expressions, properties and functions weigh nothing. -/
theorem weighs_branch {name : Rule} (branch : isToken name = false) (whole : isWhole name = true)
    (other : name ≠ .stringLiteral) : Weighs (pattern name) .even := by
  cases name with
  | stringLiteral => exact absurd rfl other
  | binary level =>
    cases level
    all_goals
      refine Weighs.next (.rule rfl) (.many rfl ?_)
      first
        | exact .product
        | exact ((Weighs.gap.next (.rule rfl)).next .gap).next (.rule rfl)
  | objectLiteral =>
    have properties : Weighs property .even := .or (.or (.rule rfl) (.rule rfl)) (.rule rfl)
    have opened : Weighs (sign "\x7b" ++ gap ++
        .optional (commaList property ++ .optional (gap ++ sign ",")) ++ gap) .opening :=
      .seq (.seq (.seq (.text rfl rfl) .gap rfl)
        (.optional (properties.commaList.next (.optional (Weighs.gap.next (.sign rfl rfl))))) rfl)
        .gap rfl
    exact .seq opened (.text rfl rfl) rfl
  | getterProperty =>
    have opened : Weighs (sign "get" ++ gap ++ .rule .propertyName ++ gap ++ sign "(") .opening :=
      .seq (((Weighs.sign rfl rfl).next .gap).next (.rule rfl) |>.next .gap) (.text rfl rfl) rfl
    have closed : Weighs (sign "get" ++ gap ++ .rule .propertyName ++ gap ++ sign "(" ++ gap ++
        sign ")") .even := .seq (.seq opened .gap rfl) (.text rfl rfl) rfl
    exact (closed.next .gap).next (.inBraces (.rule rfl))
  | expressionStatement =>
    have look : Weighs (.notAhead (sign "\x7b" ||| word "function")) .even :=
      .notEitherAhead (.text rfl rfl) (.word rfl rfl) rfl rfl
    exact (look.next (.rule rfl)).next .statementEnd
  | identifier | identifierName | nullLiteral | booleanLiteral | numericLiteral | doubleStringChars
  | singleStringChars | thisExpression | postfixOperator | prefixOperator | operator
  | assignmentOperator | lexicalKind | forKind => cases branch
  | script => cases whole
  | _ =>
    -- The other patterns are put together from parts that weigh nothing themselves.
    simp only [pattern, expression, assignment, identifier, functionBlock, items, item, statement,
      declarators]
    repeat' with_reducible first
      | exact Weighs.gap
      | exact Weighs.inlineGap
      | exact Weighs.statementEnd
      | refine Weighs.rule ?_
      | refine Weighs.word ?_ ?_
      | refine Weighs.sign ?_ ?_
      | refine Weighs.inParentheses ?_
      | refine Weighs.inSquares ?_
      | refine Weighs.inBraces ?_
      | refine Weighs.commaList ?_
      | refine Weighs.next ?_ ?_
      | refine Weighs.or ?_ ?_
      | refine Weighs.many ?_ ?_
      | refine Weighs.optional ?_
      | refine Weighs.notAhead (Weighs.sign ?_ ?_) ?_
    all_goals rfl

theorem weighs_pattern {name : Rule} (whole : isWhole name = true) (other : name ≠ .stringLiteral) :
    Weighs (pattern name) .even := by
  cases token : isToken name with
  | true => exact weighs_token token whole
  | false => exact weighs_branch token whole other

/-! ## What the grammar matches -/

theorem isPlain_of_not_mark {c : Char} (other : c ∉ marks) : isPlain c = true := by
  simp only [marks, List.mem_cons, List.not_mem_nil, or_false, not_or] at other
  simp [isPlain, isOpening, isClosing, other]

theorem regular_of_bracket {c : Char} (bracket : (isOpening c || isClosing c) = true)
    (rest : List Char) : (Lexeme.char c).Regular rest := by
  simp only [isOpening, isClosing, Bool.or_eq_true, decide_eq_true_eq] at bracket
  rcases bracket with ((rfl | rfl) | rfl) | ((rfl | rfl) | rfl)
  all_goals exact ⟨by decide, by decide, fun slash => absurd slash (by decide)⟩

theorem Lexed.char {c : Char} {rest stop : List Char} {ls : List Lexeme}
    (regular : (Lexeme.char c).Regular rest) (later : Lexed rest ls stop) :
    Lexed (c :: rest) (.char c :: ls) stop :=
  .cons (l := .char c) (lexeme?_char regular) regular later

theorem lexed_of_regular {chars : List Char}
    (regular : ∀ c ∈ chars, ∀ rest, (Lexeme.char c).Regular rest) (rest : List Char) :
    Lexed (chars ++ rest) (chars.map .char) rest := by
  induction chars with
  | nil => exact .nil rest
  | cons c chars ih =>
    obtain ⟨first, later⟩ := List.forall_mem_cons.1 regular
    exact .char (first _) (ih later)

/-- A plain text is a lexeme for each of its characters. -/
theorem lexed_text {chars : List Char} (plain : isPlainText chars = true) (rest : List Char) :
    Lexed (chars ++ rest) (chars.map .char) rest := by
  simp only [isPlainText, Bool.or_eq_true, Bool.and_eq_true, decide_eq_true_eq] at plain
  rcases plain with (rfl | ⟨_, plain⟩) | ⟨one, bracket⟩
  · have slash : (Lexeme.char '/').Regular ('=' :: rest) :=
      ⟨by decide, by decide, fun _ => ⟨by simp, by simp⟩⟩
    exact .char slash (.char (regular_of_isPlain (by decide) rest) (.nil rest))
  · refine lexed_of_regular (fun c mem rest => ?_) rest
    have other := List.all_eq_true.1 plain c mem
    exact regular_of_isPlain (isPlain_of_not_mark (by simpa using other)) rest
  · refine lexed_of_regular (fun c mem rest => ?_) rest
    exact regular_of_bracket (List.all_eq_true.1 bracket c mem) rest

/-- What a pattern matches is a whole number of lexemes, whose brackets balance as far as the
pattern itself does. -/
theorem Weighs.spans {p : Part} {e : Effect} (weighs : Weighs p e) {depth : Nat}
    (rules : ∀ name, isWhole name = true → ∀ here stop nodes,
      grammar.read depth (.rule name) here = .matched stop nodes → Spans .even here.rest stop.rest)
    {here stop : Cursor} {nodes : List (Node Rule)}
    (found : grammar.read depth p here = .matched stop nodes) : Spans e here.rest stop.rest := by
  induction weighs generalizing here stop nodes with
  | one plain =>
    refine spans_one (fun c accepted => isPlain_of_not_mark fun mark => ?_) found
    have refused := List.all_eq_true.1 plain c mark
    rw [accepted] at refused
    cases refused
  | text plain weight =>
    obtain ⟨takes, _⟩ := Grammar.read_text_matched.1 found
    rw [takes.rest]
    exact ⟨_, lexed_text plain _, weight⟩
  | seq _ _ weight ihFirst ihSecond =>
    obtain ⟨middle, _, _, before, after, _⟩ := Grammar.read_seq_matched.1 found
    exact weight ▸ (ihFirst before).trans (ihSecond after)
  | alt _ _ ihFirst ihSecond =>
    rcases Grammar.read_alt_matched.1 found with found | ⟨_, found⟩
    · exact ihFirst found
    · exact ihSecond found
  | many _ _ ih => exact spans_many (fun _ _ _ => ih) found
  | optional _ ih =>
    rcases Grammar.read_optional_matched.1 found with found | ⟨_, rfl, _⟩
    · exact ih found
    · exact .refl _
  | notAhead | notEitherAhead =>
    obtain ⟨rfl, _⟩ := Grammar.read_notAhead_matched.1 found
    exact .refl _
  | rule whole => exact rules _ whole _ _ _ found
  | gap => exact spans_gap found
  | inlineGap => exact spans_inlineGap found
  | statementEnd => exact spans_statementEnd found
  | product =>
    obtain ⟨_, _, front, right⟩ := spans_to_operand found
    exact front.even (rules .unaryExpression rfl _ _ _ right)

theorem spans_rule {name : Rule} (whole : isWhole name = true) (depth : Nat) (here stop : Cursor)
    (nodes : List (Node Rule))
    (found : grammar.read depth (.rule name) here = .matched stop nodes) :
    Spans .even here.rest stop.rest := by
  induction depth generalizing name here stop nodes with
  | zero => cases found
  | succ depth ih =>
    by_cases string : name = .stringLiteral
    · subst string
      exact spans_stringLiteral found
    · obtain ⟨_, children, eq, found, _⟩ := Grammar.read_rule_matched.1 found
      cases eq
      exact (weighs_pattern whole string).spans (fun name whole => ih whole) found

theorem Weighs.spans_read {p : Part} {e : Effect} (weighs : Weighs p e) {depth : Nat}
    {here stop : Cursor} {nodes : List (Node Rule)}
    (found : grammar.read depth p here = .matched stop nodes) : Spans e here.rest stop.rest :=
  weighs.spans (fun _ whole => spans_rule whole depth) found

theorem Weighs.items : Weighs items .even := by
  have item : Weighs item .even := by
    simp only [Script.item, statement]
    repeat' with_reducible first
      | refine Weighs.or ?_ ?_
      | refine Weighs.rule ?_
    all_goals rfl
  exact .many rfl (Weighs.gap.next item)

/-- A script that the grammar matches is divided into lexemes to its end, and all brackets in it
balance. -/
theorem lexed_of_parse {source : List Char} {node : Node Rule} (parsed : parse source = .ok node) :
    Lexed source (lexemes source) [] ∧ effect (lexemes source) = .even := by
  obtain ⟨stop, found⟩ := Grammar.read_of_parse parsed
  obtain ⟨_, _, _, found, _⟩ := Grammar.read_rule_matched.1 found
  obtain ⟨behind, _, _, front, look, _⟩ := Grammar.read_seq_matched.1 found
  obtain ⟨rfl, _, ended⟩ := Grammar.read_notAhead_matched.1 look
  have nothing := rest_of_anyChar_failed ended
  obtain ⟨ls, lexed, balanced⟩ := (Weighs.items.next .gap).spans_read front
  rw [nothing] at lexed
  rw [lexed.lexemes_eq]
  exact ⟨lexed, balanced⟩

end ScriptEngine.Script
