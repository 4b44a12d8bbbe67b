import ScriptEngine.Proofs.Grammar.Keywords
import ScriptEngine.Proofs.Grammar.EndTokens
import ScriptEngine.Proofs.Grammar.Rows

/-!
# The ends of statements

A statement may go without its semicolon where a line or a block ends. `Terminated` says what this
comes to: behind the last token of the statement, and behind white space and comments on the same
line, stands something that a statement can end in front of (`EndOfStatement`). Main result: so it is
with all statements of these kinds in a script that was parsed, and there is no line break, not even
in a comment, where it would end the statement before its time (`statements_terminated`).
-/
namespace ScriptEngine

namespace Script

/-! ## White space and comments on a line -/

/-- White space or a comment, with no line break in it. -/
def Lexeme.IsInline : Lexeme → Prop
  | char c => isSpace c = true
  | lineComment text | blockComment text => OneLine text
  | string _ => False

theorem not_isLineBreak_of_isSpace {c : Char} (space : isSpace c = true) : isLineBreak c = false := by
  simp only [isSpace, Bool.or_eq_true, beq_iff_eq] at space
  rcases space with ((((rfl | rfl) | rfl) | rfl) | rfl) | rfl <;> rfl

theorem Lexeme.IsInline.oneLine {l : Lexeme} (inline : l.IsInline) : OneLine l.text := by
  cases l with
  | char c => exact List.forall_mem_singleton.2 (not_isLineBreak_of_isSpace inline)
  | lineComment | blockComment => exact inline
  | string => exact inline.elim

/-- White space and comments on one line lead from one text to another. -/
def Leads (source stop : List Char) : Prop :=
  ∃ blanks, Lexed source blanks stop ∧ ∀ l ∈ blanks, l.IsInline

namespace Leads

variable {source middle stop : List Char}

theorem refl (source : List Char) : Leads source source := ⟨[], .nil source, List.forall_mem_nil _⟩

theorem trans (first : Leads source middle) (second : Leads middle stop) : Leads source stop := by
  obtain ⟨blanks, lexed, inline⟩ := first
  obtain ⟨more, lexed', inline'⟩ := second
  exact ⟨blanks ++ more, lexed.append lexed', List.forall_mem_append.2 ⟨inline, inline'⟩⟩

theorem single {l : Lexeme} (lexed : Lexed source [l] stop) (inline : l.IsInline) :
    Leads source stop := ⟨[l], lexed, List.forall_mem_singleton.2 inline⟩

/-- What is passed on the way has no line break. -/
theorem oneLine (leads : Leads source stop) : ∃ taken, source = taken ++ stop ∧ OneLine taken := by
  obtain ⟨blanks, lexed, inline⟩ := leads
  induction lexed with
  | nil => exact ⟨[], rfl, oneLine_nil⟩
  | @cons l ls rest stop first regular later ih =>
    obtain ⟨blank, others⟩ := List.forall_mem_cons.1 inline
    obtain ⟨taken, rfl, free⟩ := ih others
    exact ⟨l.text ++ taken, (List.append_assoc ..).symm, oneLine_append.2 ⟨blank.oneLine, free⟩⟩

end Leads

section

variable {depth : Nat} {here stop : Cursor} {nodes : List (Node Rule)} {text : List Char}

theorem lexed_blockComment (takes : here.Takes text stop)
    (found : grammar.read depth blockComment here = .matched stop nodes) :
    Lexed here.rest [.blockComment text] stop.rest := by
  have first := lexeme?_blockComment takes found
  rw [takes.rest] at first ⊢
  exact .single (l := .blockComment text) first trivial

theorem lexed_lineComment (takes : here.Takes text stop)
    (found : grammar.read depth lineComment here = .matched stop nodes) :
    Lexed here.rest [.lineComment text] stop.rest := by
  have first := lexeme?_lineComment takes found
  rw [takes.rest] at first ⊢
  exact .single (l := .lineComment text) first trivial

theorem leads_lineComment (found : grammar.read depth lineComment here = .matched stop nodes) :
    Leads here.rest stop.rest := by
  obtain ⟨text, takes⟩ := Grammar.read_takes found
  obtain ⟨inside, rfl, free⟩ := text_of_lineComment takes found
  refine .single (lexed_lineComment takes found) ?_
  exact oneLine_cons.2 ⟨rfl, oneLine_cons.2 ⟨rfl, free⟩⟩

theorem leads_inlineBlockComment
    (found : grammar.read depth inlineBlockComment here = .matched stop nodes) :
    Leads here.rest stop.rest := by
  obtain ⟨text, takes⟩ := Grammar.read_takes found
  obtain ⟨_, comment⟩ := blockComment_of_inline found
  refine .single (lexed_blockComment takes comment) ?_
  -- The comment is its two marks and what is between them.
  obtain ⟨last, _, _, front, closing, -⟩ := Grammar.read_seq_matched.1 found
  obtain ⟨first, _, _, opening, rounds, -⟩ := Grammar.read_seq_matched.1 front
  obtain ⟨inside, passed, free⟩ := text_of_rounds
    (fun _ failed => lineTerminator_failed_iff.1 (Grammar.read_alt_failed.1 failed).2) rounds
  have opened := (Grammar.read_text_matched.1 opening).1
  have closed := (Grammar.read_text_matched.1 closing).1
  obtain rfl := List.append_cancel_right
    (takes.rest.symm.trans ((opened.trans passed).trans closed).rest)
  exact oneLine_append.2 ⟨oneLine_append.2 ⟨by decide, free⟩, by decide⟩

theorem leads_inlineGap (found : grammar.read depth inlineGap here = .matched stop nodes) :
    Leads here.rest stop.rest := by
  have rounds := Grammar.rounds_of_read_many found
  clear found
  induction rounds with
  | done | still => exact .refl _
  | more round _ _ ih =>
    refine Leads.trans ?_ ih
    rcases Grammar.read_alt_matched.1 round with space | ⟨-, comment⟩
    · obtain ⟨c, rest, isSpace, -⟩ := Grammar.read_one_matched.1 space
      have regular := regular_of_isPlain (isPlain_of_isSpace isSpace)
      rw [rest]
      exact .single (.char (regular _) (.nil _)) isSpace
    · exact leads_inlineBlockComment comment

/-- A match of a gap on one line passes no line break. -/
theorem oneLine_of_inlineGap (takes : here.Takes text stop)
    (found : grammar.read depth inlineGap here = .matched stop nodes) : OneLine text := by
  obtain ⟨taken, eq, free⟩ := (leads_inlineGap found).oneLine
  rwa [List.append_cancel_right (takes.rest.symm.trans eq)]

/-! ## Comments that end a statement -/

/-- A block comment on one line is an inline one. -/
theorem inline_of_blockComment (takes : here.Takes text stop) (free : OneLine text)
    (found : grammar.read depth blockComment here = .matched stop nodes) :
    ∃ nodes, grammar.read depth inlineBlockComment here = .matched stop nodes := by
  refine comment_of_comment rfl ?_ takes (fun c mem here first failed => ?_) found
  · exact fun _ _ _ closed => Grammar.read_alt_matched.2 (.inl closed)
  · have noBreak : grammar.read depth lineTerminator here = .failed := by
      rw [lineTerminator_failed_iff, first]
      intro c' same
      exact Option.some.inj same ▸ free c mem
    exact Grammar.read_alt_failed.2 ⟨failed, noBreak⟩

/-- A line comment goes on to the end of its line. -/
theorem behind_lineComment (found : grammar.read depth lineComment here = .matched stop nodes) :
    stop.rest = [] ∨ ∃ c rest, stop.rest = c :: rest ∧ isLineBreak c = true := by
  obtain ⟨_, _, _, _, rounds, -⟩ := Grammar.read_seq_matched.1 found
  have moves : grammar.Moves (.notAhead lineTerminator ++ anyChar) :=
    Grammar.moves_of_closed (fun _ (never : false = true) => nomatch never) rfl
  have failed := (Grammar.rounds_of_read_many rounds).failed moves
  cases eq : stop.rest with
  | nil => exact .inl rfl
  | cons c rest =>
    right
    refine ⟨c, rest, rfl, ?_⟩
    by_contra other
    -- There would be one more character in the comment.
    have free : grammar.read depth lineTerminator stop = .failed := by
      rw [lineTerminator_failed_iff, eq]
      intro c' same
      exact Option.some.inj same ▸ Bool.eq_false_iff.2 other
    rcases Grammar.read_seq_failed.1 failed with ahead | ⟨_, _, ahead, char⟩
    · obtain ⟨_, _, broken⟩ := Grammar.read_notAhead_failed.1 ahead
      rw [free] at broken
      cases broken
    · obtain ⟨rfl, -⟩ := Grammar.read_notAhead_matched.1 ahead
      cases eq.symm.trans (rest_of_anyChar_failed char)

/-! ## The end of a statement -/

/-- What a statement can end in front of. -/
inductive EndOfStatement : List Char → Prop where
  | semicolon (rest : List Char) : EndOfStatement (';' :: rest)
  | lineBreak {c : Char} (rest : List Char) (breaks : isLineBreak c = true) :
    EndOfStatement (c :: rest)
  /-- A block comment that goes over the end of a line. -/
  | comment {text rest : List Char} (begins : lexeme? (text ++ rest) = some (.blockComment text))
    (breaks : ¬ OneLine text) : EndOfStatement (text ++ rest)
  | brace (rest : List Char) : EndOfStatement ('\x7d' :: rest)
  | nothing : EndOfStatement []

theorem endOfStatement_lineTerminator
    (found : grammar.read depth lineTerminator here = .matched stop nodes) :
    EndOfStatement here.rest := by
  rcases Grammar.read_alt_matched.1 found with both | ⟨-, single⟩
  · rw [(Grammar.read_text_matched.1 both).1.rest]
    exact .lineBreak _ rfl
  · obtain ⟨c, rest, breaks, -⟩ := Grammar.read_one_matched.1 single
    rw [rest]
    exact .lineBreak _ breaks

/-- A block comment that a gap on one line does not pass has a line break in it. -/
theorem endOfStatement_blockComment {start : Cursor} {before : List (Node Rule)}
    (gap : grammar.read depth inlineGap start = .matched here before)
    (found : grammar.read depth blockComment here = .matched stop nodes) :
    EndOfStatement here.rest := by
  obtain ⟨text, takes⟩ := Grammar.read_takes found
  have begins := lexeme?_blockComment takes found
  rw [takes.rest] at begins ⊢
  refine .comment begins fun free => ?_
  obtain ⟨_, inline⟩ := inline_of_blockComment takes free found
  have moves : grammar.Moves (space ||| inlineBlockComment) :=
    Grammar.moves_of_closed (fun _ (never : false = true) => nomatch never) rfl
  have failed := (Grammar.rounds_of_read_many gap).failed moves
  rw [(Grammar.read_alt_failed.1 failed).2] at inline
  cases inline

/-- In front of the end of a statement there are blanks on one line, and then what ends it. -/
theorem leads_statementEnd (found : grammar.read depth statementEnd here = .matched stop nodes) :
    ∃ behind, Leads here.rest behind ∧ EndOfStatement behind := by
  obtain ⟨middle, _, gap, ending⟩ := ending_of_statementEnd found
  have leads := leads_inlineGap gap
  cases ending with
  | semicolon takes =>
    refine ⟨_, leads, ?_⟩
    rw [takes.rest]
    exact .semicolon _
  | lineBreak found => exact ⟨_, leads, endOfStatement_lineTerminator found⟩
  | lineComment comment =>
    -- The comment is itself one of the blanks.
    refine ⟨_, leads.trans (leads_lineComment comment), ?_⟩
    rcases behind_lineComment comment with none | ⟨c, rest, eq, breaks⟩
    · rw [none]
      exact .nothing
    · rw [eq]
      exact .lineBreak _ breaks
  | blockComment comment => exact ⟨_, leads, endOfStatement_blockComment gap comment⟩
  | brace _ ahead =>
    obtain ⟨rest, eq⟩ := ahead
    refine ⟨_, leads, ?_⟩
    rw [eq]
    exact .brace _
  | nothing _ none =>
    refine ⟨_, leads, ?_⟩
    rw [none]
    exact .nothing

end

/-! ## Statements without their ends -/

/-- The rules of the statements that end with a semicolon or go without one. -/
def isTerminated : Rule → Bool
  | .variableStatement | .lexicalDeclaration | .expressionStatement | .returnStatement
  | .throwStatement | .breakStatement | .continueStatement | .debuggerStatement => true
  | _ => false

/-- The keyword of a statement that may be nothing else. -/
def soleKeyword : Rule → String
  | .returnStatement => "return"
  | .breakStatement => "break"
  | .continueStatement => "continue"
  | .debuggerStatement => "debugger"
  | _ => ""

/-- A match ends where its last node does, or it has no nodes and is the keyword. -/
structure EndsWithPart (keyword : String) (p : Part) : Prop where
  of_read {depth : Nat} {here stop : Cursor} {nodes : List (Node Rule)} :
    grammar.read depth p here = .matched stop nodes →
      match nodes.getLast? with
      | some part => part.span.stop = stop.offset
      | none => here.Takes keyword.toList stop

/-- The last node of a match ends where the match does. -/
structure EndsInNode (p : Part) : Prop where
  of_read {depth : Nat} {here stop : Cursor} {nodes : List (Node Rule)} :
    grammar.read depth p here = .matched stop nodes →
      ∃ part ∈ nodes.getLast?, part.span.stop = stop.offset

namespace EndsInNode

variable {first second item : Part}

theorem rule (name : Rule) : EndsInNode (.rule name) := by
  refine ⟨fun found => ?_⟩
  obtain ⟨_, _, -, -, rfl⟩ := Grammar.read_rule_matched.1 found
  exact ⟨_, rfl, congrArg Span.stop (Grammar.span_node ..)⟩

theorem seq (ends : EndsInNode second) : EndsInNode (first ++ second) := by
  refine ⟨fun found => ?_⟩
  obtain ⟨_, before, after, -, behind, rfl⟩ := Grammar.read_seq_matched.1 found
  obtain ⟨part, isLast, eq⟩ := ends.of_read behind
  exact ⟨part, by simp [Option.mem_def.1 isLast], eq⟩

/-- Further rounds end in nodes as well. -/
theorem commaList (ends : EndsInNode item) : EndsInNode (commaList item) := by
  refine ⟨fun found => ?_⟩
  obtain ⟨_, before, after, single, more, rfl⟩ := Grammar.read_seq_matched.1 found
  have first := ends.of_read single
  have rounds := Grammar.rounds_of_read_many more
  clear found single more
  induction rounds generalizing before with
  | done | still => simpa using first
  | @more _ _ _ added _ round _ _ ih =>
    obtain ⟨part, isLast, eq⟩ := ends.seq.of_read round
    have later := ih (before ++ added) ⟨part, by simp [Option.mem_def.1 isLast], eq⟩
    rwa [List.append_assoc] at later

theorem endsWithPart {keyword : String} (ends : EndsInNode item) :
    EndsWithPart keyword item := by
  refine ⟨fun found => ?_⟩
  obtain ⟨part, isLast, eq⟩ := ends.of_read found
  rw [isLast]
  exact eq

end EndsInNode

/-- A statement with an optional part is its keyword if that is missing. -/
theorem EndsWithPart.optional {source : String} {item : Part} (ends : EndsInNode item) :
    EndsWithPart source (word source ++ .optional item) := by
  refine ⟨fun found => ?_⟩
  obtain ⟨middle, before, after, keyword, rest, rfl⟩ := Grammar.read_seq_matched.1 found
  obtain ⟨_, _, _, text, look, -⟩ := Grammar.read_seq_matched.1 keyword
  obtain rfl := Grammar.nil_of_rules rfl keyword
  rw [List.nil_append]
  rcases Grammar.read_optional_matched.1 rest with given | ⟨-, rfl, rfl⟩
  · obtain ⟨part, isLast, eq⟩ := ends.of_read given
    rw [isLast]
    exact eq
  · obtain ⟨rfl, -⟩ := Grammar.read_notAhead_matched.1 look
    exact (Grammar.read_text_matched.1 text).1

/-- What a statement is without its end. -/
structure Body (rule : Rule) (body : Part) : Prop where
  pattern : pattern rule = body ++ statementEnd
  weighs : Weighs body .even
  ends : endsToken false body = true
  last : EndsWithPart (soleKeyword rule) body

/-- Each of these statements is something with the end of a statement behind it. -/
theorem exists_body {rule : Rule} (terminated : isTerminated rule = true) :
    ∃ body, Body rule body := by
  have gapped {q : Rule} (whole : isWhole q = true) : Weighs (inlineGap ++ .rule q) .even :=
    Weighs.inlineGap.next (.rule whole)
  have declarators : Weighs declarators .even := Weighs.commaList (.rule rfl)
  cases rule with
  | variableStatement =>
    exact ⟨word "var" ++ gap ++ Script.declarators, rfl,
      ((Weighs.word rfl rfl).next .gap).next declarators, rfl,
      (EndsInNode.commaList (.rule _)).seq.endsWithPart⟩
  | lexicalDeclaration =>
    exact ⟨.rule .lexicalKind ++ gap ++ Script.declarators, rfl,
      ((Weighs.rule rfl).next .gap).next declarators, rfl,
      (EndsInNode.commaList (.rule _)).seq.endsWithPart⟩
  | expressionStatement =>
    have look : Weighs (.notAhead (sign "\x7b" ||| word "function")) .even :=
      .notEitherAhead (.text rfl rfl) (.word rfl rfl) rfl rfl
    exact ⟨.notAhead (sign "\x7b" ||| word "function") ++ expression, rfl, look.next (.rule rfl),
      rfl, (EndsInNode.rule _).seq.endsWithPart⟩
  | throwStatement =>
    exact ⟨word "throw" ++ inlineGap ++ expression, rfl,
      ((Weighs.word rfl rfl).next .inlineGap).next (.rule rfl), rfl,
      (EndsInNode.rule _).seq.endsWithPart⟩
  | returnStatement =>
    exact ⟨word "return" ++ .optional (inlineGap ++ expression), rfl,
      (Weighs.word rfl rfl).next (.optional (gapped rfl)), rfl, .optional (EndsInNode.rule _).seq⟩
  | breakStatement =>
    exact ⟨word "break" ++ .optional (inlineGap ++ identifier), rfl,
      (Weighs.word rfl rfl).next (.optional (gapped rfl)), rfl, .optional (EndsInNode.rule _).seq⟩
  | continueStatement =>
    exact ⟨word "continue" ++ .optional (inlineGap ++ identifier), rfl,
      (Weighs.word rfl rfl).next (.optional (gapped rfl)), rfl, .optional (EndsInNode.rule _).seq⟩
  | debuggerStatement =>
    refine ⟨word "debugger", rfl, .word rfl rfl, rfl, ⟨fun found => ?_⟩⟩
    obtain ⟨_, _, _, text, look, -⟩ := Grammar.read_seq_matched.1 found
    obtain ⟨rfl, -⟩ := Grammar.read_notAhead_matched.1 look
    obtain rfl := Grammar.nil_of_rules rfl found
    exact (Grammar.read_text_matched.1 text).1
  | _ => cases terminated

/-! ## The statements of a script -/

/-- A statement ends where it may: its last token is read up to the second cursor, and behind white
space and comments on one line stands what a statement can end in front of. -/
structure TerminatedAt (source : List Char) (node : Node Rule) (start last : Cursor) : Prop where
  within : start.Within source
  starts : start.offset = node.span.start
  takes : ∃ text, start.Takes text last
  /-- The last token is where the last part ends, or it is the keyword. -/
  stops : match node.children.getLast? with
    | some part => part.span.stop = last.offset
    | none => start.Takes (soleKeyword node.rule).toList last
  token : Ends start.rest last.rest
  ending : ∃ behind, Leads last.rest behind ∧ EndOfStatement behind

def Terminated (source : List Char) (node : Node Rule) : Prop :=
  ∃ start last, TerminatedAt source node start last

/-- The rules of the statements whose first part stands on the line of the keyword. -/
def isRestricted : Rule → Bool
  | .returnStatement | .throwStatement | .breakStatement | .continueStatement => true
  | _ => false

section

variable {source : List Char} {rule : Rule} {depth : Nat} {start stop : Cursor}
  {children : List (Node Rule)}

theorem terminated_of_derived {node : Node Rule} (derived : grammar.Derived source node)
    (terminated : isTerminated node.rule = true) : Terminated source node := by
  cases derived with
  | @node depth rule start stop children within found inside =>
    rw [Grammar.rule_node] at terminated
    obtain ⟨body, whole, weighs, ends, last⟩ := exists_body terminated
    have whole : grammar.pattern rule = body ++ statementEnd := whole
    rw [whole] at found
    obtain ⟨middle, parts, _, read, ending, rfl⟩ := Grammar.read_seq_matched.1 found
    obtain rfl := Grammar.nil_of_rules rfl ending
    have branch : grammar.isToken rule = false := by
      cases rule with
      | variableStatement | lexicalDeclaration | expressionStatement | returnStatement
      | throwStatement | breakStatement | continueStatement | debuggerStatement => rfl
      | _ => cases terminated
    rw [List.append_nil, Grammar.node_of_branch branch]
    exact ⟨start, middle, {
      within := within
      starts := rfl
      takes := Grammar.read_takes read
      stops := last.of_read read
      token := weighs.ends_read ends read
      ending := leads_statementEnd ending }⟩

/-- There is no line break in a keyword and the gap behind it. -/
theorem oneLine_of_keyword {keyword : String} {middle : Cursor} {before after : List (Node Rule)}
    (free : OneLine keyword.toList) (within : start.Within source)
    (word : grammar.read depth (word keyword) start = .matched middle before)
    (gap : grammar.read depth inlineGap middle = .matched stop after) :
    OneLine (Span.slice ⟨start.offset, stop.offset⟩ source) := by
  obtain ⟨_, _, _, text, look, -⟩ := Grammar.read_seq_matched.1 word
  obtain ⟨rfl, -⟩ := Grammar.read_notAhead_matched.1 look
  obtain ⟨blank, takes⟩ := Grammar.read_takes gap
  rw [within.slice ((Grammar.read_text_matched.1 text).1.trans takes)]
  exact oneLine_append.2 ⟨free, oneLine_of_inlineGap takes gap⟩

/-- Up to an optional part behind a keyword there is no line break. -/
theorem oneLine_of_optional {keyword : String} {name : Rule}
    (free : OneLine keyword.toList) (within : start.Within source)
    (found : grammar.read depth (word keyword ++ .optional (inlineGap ++ .rule name) ++ statementEnd)
      start = .matched stop children) :
    ∀ part ∈ children, OneLine (Span.slice ⟨start.offset, part.span.start⟩ source) := by
  obtain ⟨_, _, _, front, ending, rfl⟩ := Grammar.read_seq_matched.1 found
  obtain ⟨_, _, _, keyword, rest, rfl⟩ := Grammar.read_seq_matched.1 front
  obtain rfl := Grammar.nil_of_rules rfl ending
  obtain rfl := Grammar.nil_of_rules rfl keyword
  rw [List.append_nil, List.nil_append]
  rcases Grammar.read_optional_matched.1 rest with given | ⟨-, -, rfl⟩
  · obtain ⟨_, _, _, gap, part, rfl⟩ := Grammar.read_seq_matched.1 given
    obtain rfl := Grammar.nil_of_rules rfl gap
    obtain ⟨_, _, -, -, rfl⟩ := Grammar.read_rule_matched.1 part
    refine List.forall_mem_singleton.2 ?_
    rw [Grammar.span_node]
    exact oneLine_of_keyword free within keyword gap
  · exact List.forall_mem_nil _

theorem oneLine_of_throw (within : start.Within source)
    (found : grammar.read depth (pattern .throwStatement) start = .matched stop children) :
    ∀ part ∈ children, OneLine (Span.slice ⟨start.offset, part.span.start⟩ source) := by
  obtain ⟨_, _, _, body, ending, rfl⟩ := Grammar.read_seq_matched.1 found
  obtain ⟨_, _, _, front, part, rfl⟩ := Grammar.read_seq_matched.1 body
  obtain ⟨_, _, _, keyword, gap, rfl⟩ := Grammar.read_seq_matched.1 front
  obtain rfl := Grammar.nil_of_rules rfl ending
  obtain rfl := Grammar.nil_of_rules rfl keyword
  obtain rfl := Grammar.nil_of_rules rfl gap
  obtain ⟨_, _, -, -, rfl⟩ := Grammar.read_rule_matched.1 part
  refine List.forall_mem_singleton.2 ?_
  rw [Grammar.span_node]
  exact oneLine_of_keyword (by decide) within keyword gap

theorem oneLine_of_restricted {node : Node Rule} (derived : grammar.Derived source node)
    (restricted : isRestricted node.rule = true) :
    ∀ part ∈ node.children,
      OneLine (Span.slice ⟨node.span.start, part.span.start⟩ source) := by
  cases derived with
  | @node depth rule start stop children within found inside =>
    rw [Grammar.rule_node] at restricted
    rw [Grammar.span_node]
    cases rule with
    | returnStatement | breakStatement | continueStatement =>
      rw [Grammar.node_of_branch rfl, Node.children_branch]
      exact oneLine_of_optional (by decide) within found
    | throwStatement =>
      rw [Grammar.node_of_branch rfl, Node.children_branch]
      exact oneLine_of_throw within found
    | _ => cases restricted

theorem isClosed_of_restricted (restricted : isRestricted rule = true) :
    (pattern rule).rules.all isClosed = true := by
  cases rule with
  | returnStatement | throwStatement | breakStatement | continueStatement => rfl
  | _ => cases restricted

/-- Between an operand and an operator behind it there is no line break. -/
theorem oneLine_of_postfix {node operand operator : Node Rule}
    (derived : grammar.Derived source node) (postfixed : node.rule = .postfixExpression)
    (children : node.children = [operand, operator]) :
    OneLine (Span.slice ⟨operand.span.stop, operator.span.start⟩ source) := by
  obtain ⟨span, rfl⟩ : ∃ span, node = .branch .postfixExpression span [operand, operator] := by
    cases node with
    | branch =>
      cases postfixed
      cases children
      exact ⟨_, rfl⟩
    | token => cases children
  obtain ⟨depth, start, stop, within, found, -⟩ := derived.branch
  obtain ⟨middle, _, _, first, rest, eq⟩ := Grammar.read_seq_matched.1 found
  obtain ⟨taken, passed⟩ := Grammar.read_takes first
  obtain ⟨_, _, -, -, rfl⟩ := Grammar.read_rule_matched.1 first
  rcases Grammar.read_optional_matched.1 rest with given | ⟨-, -, rfl⟩
  · obtain ⟨_, _, _, gap, part, rfl⟩ := Grammar.read_seq_matched.1 given
    obtain rfl := Grammar.nil_of_rules rfl gap
    obtain ⟨_, _, -, -, rfl⟩ := Grammar.read_rule_matched.1 part
    cases eq
    obtain ⟨blank, takes⟩ := Grammar.read_takes gap
    rw [Grammar.span_node, Grammar.span_node, (within.takes passed).slice takes]
    exact oneLine_of_inlineGap takes gap
  · cases eq

/-- In a script that was parsed, statements end where they may, with or without a semicolon, and no
line break stands between a keyword and what belongs to it or between an operand and its operator,
from the end of one token to the beginning of another. -/
theorem statements_terminated {script node : Node Rule} (parsed : parse source = .ok script)
    (part : node ∈ script.parts) :
    (isTerminated node.rule = true → Terminated source node) ∧
    (isRestricted node.rule = true → ∀ part ∈ node.children, Tight source part.span ∧
      OneLine (Span.slice ⟨node.span.start, part.span.start⟩ source)) ∧
    (node.rule = .postfixExpression → ∀ operand operator, node.children = [operand, operator] →
      Tight source operand.span ∧ Tight source operator.span ∧
        OneLine (Span.slice ⟨operand.span.stop, operator.span.start⟩ source)) := by
  have derived := (Grammar.parse_derived parsed).parts node part
  refine ⟨fun terminated => ?_, fun restricted part mem => ⟨?_, ?_⟩, fun postfixed => ?_⟩
  · exact terminated_of_derived derived terminated
  · exact tight_of_child derived (isClosed_of_restricted restricted) mem
  · exact oneLine_of_restricted derived restricted part mem
  · intro operand operator eq
    have closed : (pattern node.rule).rules.all isClosed = true := by
      rw [postfixed]
      rfl
    refine ⟨?_, ?_, ?_⟩
    · exact tight_of_child derived closed (by simp [eq])
    · exact tight_of_child derived closed (by simp [eq])
    · exact oneLine_of_postfix derived postfixed eq

/-- A function that returns in front of a line comment, and an operator behind its operand that is
followed by a comment with a carriage return. -/
def endedStatements : List Char :=
  "function f() \x7b return /* a */ b // c\u2028 \x7d x /* d */ ++ /* e\r */ y".toList

/-- The function returns what stands behind a comment on the line of `return` and ends in front of the
line comment, and the operator is on one line with its operand in spite of the comment between. -/
theorem statements_terminated_comments :
    ∃ script, parse endedStatements = .ok script ∧
      (∃ node ∈ script.parts, node.rule = .returnStatement ∧ Terminated endedStatements node ∧
        ∀ part ∈ node.children, Tight endedStatements part.span ∧
          OneLine (Span.slice ⟨node.span.start, part.span.start⟩ endedStatements)) ∧
      ∃ node ∈ script.parts, ∃ operand operator, node.children = [operand, operator] ∧
        Tight endedStatements operand.span ∧ Tight endedStatements operator.span ∧
          OneLine (Span.slice ⟨operand.span.stop, operator.span.start⟩ endedStatements) := by
  have found : (parse endedStatements).toOption.any (fun script =>
      script.parts.any (·.rule = .returnStatement) && script.parts.any fun node =>
        node.rule = .postfixExpression && node.children.length = 2) = true := by decide +kernel
  obtain ⟨script, parsed⟩ := exists_parsed endedStatements (Option.isSome_of_any found)
  rw [parsed] at found
  obtain ⟨returns, postfixes⟩ := Bool.and_eq_true_iff.1 found
  refine ⟨script, parsed, ?_, ?_⟩
  · obtain ⟨node, part, rule⟩ := List.any_eq_true.1 returns
    have rule := of_decide_eq_true rule
    obtain ⟨terminated, restricted, -⟩ := statements_terminated parsed part
    rw [rule] at terminated restricted
    exact ⟨node, part, rule, terminated rfl, restricted rfl⟩
  · obtain ⟨node, part, rule⟩ := List.any_eq_true.1 postfixes
    obtain ⟨rule, two⟩ := Bool.and_eq_true_iff.1 rule
    obtain ⟨operand, operator, eq⟩ := List.length_eq_two.1 (of_decide_eq_true two)
    obtain ⟨-, -, postfixed⟩ := statements_terminated parsed part
    exact ⟨node, part, operand, operator, eq, postfixed (of_decide_eq_true rule) _ _ eq⟩

end

end Script

end ScriptEngine
