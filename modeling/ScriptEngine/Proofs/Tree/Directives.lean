import ScriptEngine.Proofs.Tree.StringLiterals

/-!
# Directives

A directive prologue is the run of string literals that a list of statements begins with, and a Use
Strict Directive is one of them whose text is `use strict`. The builder does not look at tokens for
this but at the text of each statement, from which it trims white space and a semicolon.

Main result: the builder finds the Use Strict Directive of a prologue if and only if, up to there,
no literal has its own quote in it and nothing but white space and a semicolon comes behind any
(`asksForStrict_eq`). With a comment before the semicolon, an escaped quote or a byte order mark it
misses the directive.
-/
namespace ScriptEngine

/-- The text between the quotes, if the statement is one string literal. A literal in parentheses
would not begin where the statement does. -/
def Statement.stringText? (source : List Char) : Statement → Option (List Char)
  | .expression span (.literal token (.string _)) =>
    if token.start = span.start then some (Span.slice ⟨token.start + 1, token.stop - 1⟩ source)
    else none
  | _ => none

/-- The directives that some statements begin with. -/
def prologue (source : List Char) : List Statement → List (List Char)
  | [] => []
  | s :: rest =>
    match s.stringText? source with
    | some text => text :: prologue source rest
    | none => []

/-- Whether a Use Strict Directive is among the directives of some statements. -/
def hasUseStrict (source : List Char) (body : List Statement) : Bool :=
  (prologue source body).contains "use strict".toList

/-- Whether a literal that is a statement does not have its own quote in it, and nothing but white
space and a semicolon comes behind it. -/
def Statement.isPlainString (source : List Char) : Statement → Bool
  | .expression span (.literal token _) =>
    match Span.slice token source with
    | quote :: _ =>
      !(Span.slice ⟨token.start + 1, token.stop - 1⟩ source).contains quote &&
        (Span.slice ⟨token.stop, span.stop⟩ source).all Script.isFiller
    | [] => false
  | _ => false

/-- Whether the directives of some statements are plain, up to the first Use Strict Directive. -/
def hasPlainPrologue (source : List Char) : List Statement → Bool
  | [] => true
  | s :: rest =>
    match s.stringText? source with
    | some text =>
      s.isPlainString source &&
        (text = "use strict".toList || hasPlainPrologue source rest)
    | none => true

namespace Script

/-! ## The text of a directive -/

section

variable {chars text tail : List Char} {quote : Char}

theorem dropSemicolon_concat (chars : List Char) : dropSemicolon (chars ++ [';']) = chars := by
  simp [dropSemicolon]

theorem dropSemicolon_concat_of_ne {c : Char} (other : c ≠ ';') :
    dropSemicolon (chars ++ [c]) = chars ++ [c] := by
  unfold dropSemicolon
  rw [List.reverse_append]
  split
  next eq => exact absurd (List.cons.inj eq).1 other
  · rfl

theorem exists_dropSemicolon (chars : List Char) :
    chars = dropSemicolon chars ∨ chars = dropSemicolon chars ++ [';'] := by
  rcases List.eq_nil_or_concat chars with rfl | ⟨front, c, rfl⟩
  · exact .inl rfl
  · by_cases semicolon : c = ';'
    · subst semicolon
      rw [List.concat_eq_append, dropSemicolon_concat]
      exact .inr rfl
    · rw [List.concat_eq_append, dropSemicolon_concat_of_ne semicolon]
      exact .inl rfl

theorem betweenQuotes?_quoted (isQuote : IsQuote quote) (free : quote ∉ text) :
    betweenQuotes? (quote :: text ++ [quote]) = some text := by
  have free' : ¬ quote ∈ text.reverse := fun mem => free (List.mem_reverse.1 mem)
  simp only [betweenQuotes?, List.cons_append, List.reverse_append, List.reverse_cons,
    List.reverse_nil, List.nil_append]
  rw [if_pos ⟨isQuote, trivial, by simpa using free'⟩, List.reverse_reverse]

theorem quoted_of_betweenQuotes? (found : betweenQuotes? chars = some text) :
    ∃ quote, IsQuote quote ∧ quote ∉ text ∧ chars = quote :: text ++ [quote] := by
  unfold betweenQuotes? at found
  split at found
  next quote rest =>
    split at found
    next last middle eq =>
      split at found
      next quoted =>
        obtain ⟨isQuote, rfl, free⟩ := quoted
        cases found
        refine ⟨last, isQuote, fun mem => free ?_, ?_⟩
        · simpa using mem
        · rw [List.cons_append, ← List.reverse_cons, ← eq, List.reverse_reverse]
      · cases found
    · cases found
  · cases found

/-- What is read as a directive is a quoted text and, behind it, white space and semicolons. -/
theorem quoted_of_directive? (found : directive? chars = some text) :
    ∃ quote tail, IsQuote quote ∧ quote ∉ text ∧ chars = quote :: text ++ [quote] ++ tail ∧
      ∀ c ∈ tail, isFiller c = true := by
  obtain ⟨quote, isQuote, free, quoted⟩ := quoted_of_betweenQuotes? found
  obtain ⟨last, trimmed, lastBlank⟩ := Text.exists_trimEnd chars
  obtain ⟨middle, trimmed', middleBlank⟩ := Text.exists_trimEnd (dropSemicolon (Text.trimEnd chars))
  rw [quoted] at trimmed'
  have blank : ∀ {tail : List Char}, (∀ c ∈ tail, Text.isBlank c = true) →
      ∀ c ∈ tail, isFiller c = true := fun each c mem => by
    simp [isFiller, each c mem]
  rcases exists_dropSemicolon (Text.trimEnd chars) with same | ended
  · refine ⟨quote, middle ++ last, isQuote, free, ?_, ?_⟩
    · rw [← List.append_assoc, ← trimmed', ← same]
      exact trimmed
    · exact List.forall_mem_append.2 ⟨blank middleBlank, blank lastBlank⟩
  · refine ⟨quote, middle ++ [';'] ++ last, isQuote, free, ?_, ?_⟩
    · rw [← List.append_assoc, ← List.append_assoc, ← trimmed', ← ended]
      exact trimmed
    · refine List.forall_mem_append.2 ⟨List.forall_mem_append.2 ⟨blank middleBlank, ?_⟩,
        blank lastBlank⟩
      exact List.forall_mem_singleton.2 rfl

/-- A quoted text is read as a directive if nothing but white space and at most one semicolon, at
the end or before further white space, comes behind it. -/
theorem directive?_quoted (isQuote : IsQuote quote) (free : quote ∉ text) {before after : List Char}
    (blank : ∀ c ∈ before, Text.isBlank c = true)
    (ending : after = [';'] ∨ ∀ c ∈ after, Text.isBlank c = true) :
    directive? (quote :: text ++ [quote] ++ before ++ after) = some text := by
  have quoted : Text.trimEnd (quote :: text ++ [quote]) = quote :: text ++ [quote] :=
    Text.trimEnd_concat isQuote.not_blank
  have other : quote ≠ ';' := by
    rintro rfl
    cases isQuote.not_blank.symm.trans (isQuote.elim nofun nofun : Text.isBlank ';' = true)
  unfold directive?
  rcases ending with rfl | blank'
  · rw [Text.trimEnd_concat rfl, dropSemicolon_concat, Text.trimEnd_append blank, quoted]
    exact betweenQuotes?_quoted isQuote free
  · rw [Text.trimEnd_append blank', Text.trimEnd_append blank, quoted, dropSemicolon_concat_of_ne other, quoted]
    exact betweenQuotes?_quoted isQuote free

end

/-! ## Statements -/

open Build

section

variable {source : List Char} {node : Node Rule}

/-- A loop with a head is no expression. -/
theorem buildFor_other (span : Span) (init : Option ForInit) (test update : Option Expression)
    (nodes : List (Node Rule)) :
    Gives (buildFor source span init test update nodes) fun loop =>
      ∀ scope, (loop scope).stringText? source = none := by
  unfold buildFor
  split
  · exact .after fun _ => .after fun _ => buildFor_other span _ _ _ _
  · exact .after fun _ => buildFor_other span _ _ _ _
  · exact .after fun _ => buildFor_other span _ _ _ _
  · exact .after fun _ => buildFor_other span _ _ _ _
  · exact .after fun _ => .pure fun _ => rfl
  · exact .fail _ _
  · exact .fail _ _
termination_by sizeOf nodes

/-- Only from an expression statement a statement is built that is an expression. -/
theorem buildStatement_other (node : Node Rule) :
    Gives (buildStatement source node) fun s =>
      node.rule ≠ .expressionStatement → s.stringText? source = none := by
  unfold buildStatement
  split
  · exact .after fun _ => .after fun _ => .pure fun _ => rfl
  · exact .after fun _ => .after fun _ => .pure fun _ => rfl
  · exact .after fun _ => .pure fun _ => rfl
  · exact .after fun _ => .pure fun _ => rfl
  · exact .pure fun _ => rfl
  · exact .pure fun _ => rfl
  · exact .after fun _ => .pure fun other => absurd rfl other
  · exact .after fun _ => .after fun _ => .pure fun _ => rfl
  · exact .after fun _ => .after fun _ => .after fun _ => .pure fun _ => rfl
  · exact .after fun _ => .after fun _ => .pure fun _ => rfl
  · exact .after fun _ => .after fun _ => .pure fun _ => rfl
  next span children =>
    refine (Gives.inScope (buildFor_other span none none none children)).bind ?_
    rintro ⟨loop, scope⟩ other
    exact .pure fun _ => other scope
  · exact .after fun _ => .after fun _ => .pure fun _ => rfl
  · exact .after fun _ => .pure fun _ => rfl
  · exact .pure fun _ => rfl
  · exact .pure fun _ => rfl
  · exact .pure fun _ => rfl
  · exact .after fun _ => .pure fun _ => rfl
  · exact .after fun _ => .pure fun _ => rfl
  · exact .after fun _ => .after fun _ => .pure fun _ => rfl
  · refine .after fun _ => .after fun _ => ?_
    dsimp only
    split
    · exact .fail _ _
    · exact .pure fun _ => rfl
  · exact .after fun _ => .pure fun _ => rfl
  · exact .fail _ _

theorem built_expressionStatement {t t' : Tracker} {s : Statement}
    (rule : node.rule = .expressionStatement)
    (built : (buildStatement source node).run t = (.ok s, t')) :
    ∃ span value e, node = .branch .expressionStatement span [value] ∧
      (buildExpression source value).run t = (.ok e, t') ∧ s = .expression span e := by
  cases node with
  | token r span text =>
    cases rule
    unfold buildStatement at built
    cases built
  | branch r span children =>
    cases rule
    match children with
    | [] =>
      unfold buildStatement at built
      cases built
    | [value] =>
      rw [buildStatement, run_bind] at built
      split at built
      next e t'' eq =>
        cases built
        exact ⟨span, value, e, rfl, eq, rfl⟩
      · cases built
    | _ :: _ :: _ =>
      unfold buildStatement at built
      cases built

/-- The slices of the source that a string literal is made of. -/
theorem slices_of_stringLiteral {depth : Nat} {start last : Cursor} {nodes : List (Node Rule)}
    (within : start.Within source)
    (found : grammar.read depth (.rule .stringLiteral) start = .matched last nodes) :
    ∃ quote text, IsQuote quote ∧ start.Takes (quote :: text ++ [quote]) last ∧
      Span.slice ⟨start.offset + 1, last.offset - 1⟩ source = text := by
  obtain ⟨quote, text, inner, close, isQuote, opening, inside, closing⟩ :=
    parts_of_stringLiteral found
  have size : byteLength [quote] = 1 := by rcases isQuote with rfl | rfl <;> rfl
  have start_eq : inner.offset = start.offset + 1 := by rw [opening.offset, size]
  have stop_eq : close.offset = last.offset - 1 := by rw [closing.offset, size]; omega
  refine ⟨quote, text, isQuote, (opening.trans inside).trans closing, ?_⟩
  rw [← start_eq, ← stop_eq]
  exact (within.takes opening).slice inside

/-- A string literal at the beginning of a statement, and what comes behind it. -/
theorem exists_literal_of_statement {depth : Nat} {start stop : Cursor} {nodes : List (Node Rule)}
    {quote : Char} (isQuote : IsQuote quote) (first : start.rest.head? = some quote)
    (found : grammar.read depth (pattern .expressionStatement) start = .matched stop nodes) :
    ∃ depth last literal tail,
      grammar.read depth (.rule .stringLiteral) start = .matched last literal ∧
        last.Takes tail stop := by
  obtain ⟨here, _, _, before, ending, -⟩ := Grammar.read_seq_matched.1 found
  obtain ⟨_, _, _, look, value, -⟩ := Grammar.read_seq_matched.1 before
  obtain ⟨rfl, -, -⟩ := Grammar.read_notAhead_matched.1 look
  obtain ⟨_, takes⟩ := Grammar.read_takes ending
  obtain ⟨depth', last, literal, _, string, behind⟩ := exists_stringLiteral isQuote first rfl value
  exact ⟨depth', last, literal, _, string, behind.trans takes⟩

theorem literal_of_stringText? {span : Span} {e : Expression} {text : List Char}
    (isString : (Statement.expression span e).stringText? source = some text) :
    ∃ token v, e = .literal token (.string v) ∧ token.start = span.start ∧
      Span.slice ⟨token.start + 1, token.stop - 1⟩ source = text := by
  unfold Statement.stringText? at isString
  split at isString
  next token v eq =>
    cases eq
    split at isString
    next here =>
      cases isString
      exact ⟨_, _, rfl, here, rfl⟩
    · cases isString
  · cases isString

theorem directive?_iff {span : Span} {value : Node Rule} {e : Expression} {t t' : Tracker}
    (derived : grammar.Derived source (.branch .expressionStatement span [value]))
    (built : (buildExpression source value).run t = (.ok e, t')) (text : List Char) :
    directive? (span.slice source) = some text ↔
      (Statement.expression span e).stringText? source = some text ∧
        (Statement.expression span e).isPlainString source = true := by
  have child := derived.children value List.mem_cons_self
  obtain ⟨depth, start, stop, within, found, rfl⟩ := derived.branch
  constructor
  · intro directive
    obtain ⟨taken, takes⟩ := Grammar.read_takes found
    rw [within.slice takes] at directive
    obtain ⟨quote, tail, isQuote, free, rfl, filler⟩ := quoted_of_directive? directive
    have first : start.rest.head? = some quote := by rw [takes.rest]; rfl
    obtain ⟨depth', last, literal, tail', string, behind⟩ :=
      exists_literal_of_statement isQuote first found
    obtain ⟨quote', text', isQuote', literal_takes, inside⟩ := slices_of_stringLiteral within string
    -- The closing quote is the only other one, so the literal ends with it.
    have same : quote :: (text ++ quote :: tail) = quote' :: (text' ++ quote' :: tail') := by
      have texts := takes.rest.symm.trans (literal_takes.trans behind).rest
      simpa using List.append_cancel_right texts
    obtain ⟨rfl, same⟩ := List.cons.inj same
    have free' : quote ∉ tail := fun mem => by
      cases isQuote.not_filler.symm.trans (filler quote mem)
    obtain ⟨rfl, -, rfl⟩ := (List.append_cons_inj_of_notMem free free').1 same
    obtain ⟨⟨node, eq, bare⟩, -⟩ := bare_of_statement isQuote first string filler behind found
    cases eq
    obtain ⟨v, rfl⟩ := run_of_bare bare built
    refine ⟨?_, ?_⟩
    · simp only [Statement.stringText?, if_pos, inside]
    · have token := within.slice literal_takes
      have rest := (within.takes literal_takes).slice behind
      simp only [Statement.isPlainString, token, List.cons_append, inside, rest]
      simp [free, List.all_eq_true.2 filler]
  · rintro ⟨isString, plain⟩
    obtain ⟨token, v, rfl, here, slice⟩ := literal_of_stringText? isString
    -- The literal was matched where the statement begins.
    obtain ⟨depth', start', last, literal, within', string, rfl⟩ :=
      buildExpression_fromSource value child t t' _ built token v rfl
    cases within'.eq_of_offset within here
    obtain ⟨quote, text', isQuote, literal_takes, inside⟩ := slices_of_stringLiteral within string
    cases inside.symm.trans slice
    have first : start.rest.head? = some quote := by rw [literal_takes.rest]; rfl
    obtain ⟨_, last', _, tail, string', behind⟩ := exists_literal_of_statement isQuote first found
    cases stringLiteral_unique string string'
    have whole := literal_takes.trans behind
    have rest := (within.takes literal_takes).slice behind
    have token := within.slice literal_takes
    simp only [Statement.isPlainString, token, List.cons_append, inside, rest, Bool.and_eq_true,
      Bool.not_eq_true', List.all_eq_true] at plain
    obtain ⟨free, filler⟩ := plain
    have free' : quote ∉ text := by simpa using free
    obtain ⟨-, ending⟩ := bare_of_statement isQuote first string filler behind found
    obtain ⟨before, after, rfl, blank, last⟩ := parts_of_statementEnd behind filler ending
    rw [within.slice whole, ← List.append_assoc]
    exact directive?_quoted isQuote free' blank last

/-- The builder finds a Use Strict Directive exactly in a prologue that is plain up to there. -/
theorem asksForStrict_eq {nodes : List (Node Rule)} {body : List Statement} {t t' : Tracker}
    (derived : ∀ node ∈ nodes, grammar.Derived source node)
    (built : (buildStatements source nodes).run t = (.ok body, t')) :
    asksForStrict source nodes = (hasUseStrict source body && hasPlainPrologue source body) := by
  induction nodes generalizing body t with
  | nil =>
    rw [buildStatements] at built
    cases built
    rfl
  | cons node rest ih =>
    obtain ⟨first, others⟩ := List.forall_mem_cons.1 derived
    rw [buildStatements, run_bind] at built
    split at built
    next s t₁ eq =>
      rw [run_bind] at built
      split at built
      next body' t₂ eq' =>
        cases built
        have later := ih others eq'
        by_cases rule : node.rule = .expressionStatement
        · obtain ⟨span, value, e, rfl, value_built, rfl⟩ := built_expressionStatement rule eq
          have same := directive?_iff first value_built
          rw [asksForStrict, if_pos rule]
          change (match directive? (span.slice source) with
            | some text => _
            | none => false) = _
          cases directive : directive? (span.slice source) with
          | some text =>
            obtain ⟨isString, plain⟩ := (same text).1 directive
            simp only [hasUseStrict, prologue, isString, hasPlainPrologue, plain, later,
              List.contains_cons, Bool.true_and]
            generalize "use strict".toList = wanted
            by_cases strict : text = wanted
            · simp [strict]
            · have other : (wanted == text) = false := beq_eq_false_iff_ne.2 (Ne.symm strict)
              simp [strict, other]
          | none =>
            cases isString : (Statement.expression span e).stringText? source with
            | none => simp [hasUseStrict, prologue, isString]
            | some text =>
              have rough : (Statement.expression span e).isPlainString source = false := by
                refine Bool.eq_false_iff.2 fun plain => ?_
                have found := (same text).2 ⟨isString, plain⟩
                rw [directive] at found
                cases found
              simp [hasPlainPrologue, isString, rough]
        · have other := buildStatement_other node t t₁ s eq rule
          simp [asksForStrict, rule, hasUseStrict, prologue, other]
      · cases built
    · cases built

end

end Script

end ScriptEngine
