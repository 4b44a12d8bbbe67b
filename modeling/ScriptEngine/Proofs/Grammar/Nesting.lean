import ScriptEngine.Proofs.Grammar.Brackets
import ScriptEngine.Source.Nesting

/-!
# The nesting limit and the grammar

The check of the nesting limit has a rough idea of its own of where string literals and comments
end. Main result: on a script that the grammar matches it accepts exactly what nests brackets at
most 128 deep, provided that it ends every string literal and every line comment where the grammar
does (`nesting_within_limit_iff`). It does not where a line comment is ended by a carriage return
alone or by one of the line breaks of Unicode, nor where a string continues on the next line after
a backslash, a carriage return and a line feed; there the check can refuse a script that does not
nest at all (`nesting_of_continued_string`).
-/
namespace ScriptEngine.Script

open Nesting

/-! ## Where the search ends a lexeme -/

section

variable {depth : Nat} {offset level : Nat} {here stop : Cursor} {nodes : List (Node Rule)}
  {text rest : List Char}

theorem search_slash (line : rest.head? ≠ some '/') (block : rest.head? ≠ some '*') :
    search rest offset level .slash = search rest offset level .code := by
  cases rest with
  | nil => rfl
  | cons c rest =>
    simp only [List.head?_cons, Ne, Option.some.injEq] at line block
    simp [search, line, block]

/-- Reading on from a character of code that opens neither a string literal nor a comment. -/
theorem search_char {c : Char} (regular : (Lexeme.char c).Regular rest) :
    search (c :: rest) offset level .code =
      match bracket? level c with
      | some level => search rest (offset + c.utf8Size) level .code
      | none => some offset := by
  obtain ⟨double, single, slash⟩ := regular
  rw [search]
  cases bracket? level c with
  | none => rfl
  | some level =>
    show search rest _ level (Region.ofCode c) = _
    by_cases isSlash : c = '/'
    · subst isSlash
      exact search_slash (slash rfl).1 (slash rfl).2
    · simp [Region.ofCode, double, single, isSlash]

theorem search_inLineComment (inside : ∀ c ∈ text, c ≠ '\n') :
    search (text ++ rest) offset level .lineComment =
      search rest (offset + byteLength text) level .lineComment := by
  induction text generalizing offset with
  | nil => simp
  | cons c text ih =>
    obtain ⟨first, later⟩ := List.forall_mem_cons.1 inside
    rw [List.cons_append, search, if_neg first, ih later, byteLength_cons, Nat.add_assoc]

/-- Characters that are taken up to something that line breaks are part of are no line breaks. -/
theorem text_of_rounds {ending : Part} (stops : ∀ here, grammar.read depth ending here = .failed →
      ∀ c ∈ here.rest.head?, isLineBreak c = false)
    (found : grammar.read depth (.many (.notAhead ending ++ anyChar)) here = .matched stop nodes) :
    ∃ inside, here.Takes inside stop ∧ ∀ c ∈ inside, isLineBreak c = false := by
  have rounds := Grammar.rounds_of_read_many found
  clear found
  induction rounds with
  | done | still => exact ⟨[], .refl _, List.forall_mem_nil _⟩
  | more round _ _ ih =>
    obtain ⟨inside, later, free⟩ := ih
    obtain ⟨_, _, _, look, char, -⟩ := Grammar.read_seq_matched.1 round
    obtain ⟨rfl, -, ahead⟩ := Grammar.read_notAhead_matched.1 look
    obtain ⟨c, eq, -, offset, -⟩ := Grammar.read_one_matched.1 char
    have first := stops _ ahead c
    rw [eq] at first
    refine ⟨c :: inside, ?_, List.forall_mem_cons.2 ⟨first rfl, free⟩⟩
    exact (Cursor.Takes.one eq offset).trans later

theorem lineTerminator_failed_iff :
    grammar.read depth lineTerminator here = .failed ↔
      ∀ c ∈ here.rest.head?, isLineBreak c = false := by
  constructor
  · exact fun failed => Grammar.read_one_failed.1 (Grammar.read_alt_failed.1 failed).2
  · intro free
    refine Grammar.read_alt_failed.2 ⟨Grammar.read_text_failed.2 ?_, Grammar.read_one_failed.2 free⟩
    rintro ⟨rest, eq⟩
    cases free '\r' (by rw [← eq]; rfl)

/-- The characters of a line comment are no line breaks. -/
theorem text_of_lineComment (takes : here.Takes text stop)
    (whole : grammar.read depth lineComment here = .matched stop nodes) :
    ∃ inside, text = '/' :: '/' :: inside ∧ ∀ c ∈ inside, isLineBreak c = false := by
  obtain ⟨middle, _, _, opening, found, -⟩ := Grammar.read_seq_matched.1 whole
  have opened := (Grammar.read_text_matched.1 opening).1
  obtain ⟨inside, later, free⟩ :=
    text_of_rounds (fun _ => lineTerminator_failed_iff.1) found
  refine ⟨inside, ?_, free⟩
  have same := takes.rest.symm.trans (opened.trans later).rest
  exact List.append_cancel_right same

theorem search_lineComment (takes : here.Takes text stop)
    (found : grammar.read depth lineComment here = .matched stop nodes) :
    search (text ++ rest) offset level .code =
      search rest (offset + byteLength text) level .lineComment := by
  obtain ⟨inside, rfl, free⟩ := text_of_lineComment takes found
  have noFeed : ∀ c ∈ inside, c ≠ '\n' := by
    rintro c mem rfl
    cases free _ mem
  have opened : search ('/' :: '/' :: (inside ++ rest)) offset level .code =
      search (inside ++ rest) (offset + 1 + 1) level .lineComment := rfl
  rw [List.cons_append, List.cons_append, opened, search_inLineComment noFeed]
  simp only [byteLength_cons]
  congr 1
  have : '/'.utf8Size = 1 := rfl
  omega

/-- Behind a line feed, and behind a carriage return with a line feed, a line comment is over. -/
theorem search_endOfLine (ends : rest = [] ∨ ['\n'] <+: rest ∨ ['\r', '\n'] <+: rest) :
    search rest offset level .lineComment = search rest offset level .code := by
  rcases ends with rfl | ⟨rest, rfl⟩ | ⟨rest, rfl⟩ <;> rfl

/-- The search closes a block comment at its first star and slash, as the grammar does. -/
theorem search_blockComment (takes : here.Takes text stop)
    (whole : grammar.read depth blockComment here = .matched stop nodes) :
    search (text ++ stop.rest) offset level .code =
      search stop.rest (offset + byteLength text) level .code := by
  obtain ⟨last, _, _, front, closing, -⟩ := Grammar.read_seq_matched.1 whole
  obtain ⟨first, _, _, opening, found, -⟩ := Grammar.read_seq_matched.1 front
  have opened := (Grammar.read_text_matched.1 opening).1
  have closed := (Grammar.read_text_matched.1 closing).1
  -- Inside the comment, a star that was just read is not followed by a slash.
  have inside : ∀ star : Bool, (star = true → first.rest.head? ≠ some '/') → ∀ offset,
      ∃ bytes, search first.rest offset level (.blockComment star) =
        search stop.rest (offset + bytes) level .code ∧
          first.offset + bytes = stop.offset := by
    have rounds := Grammar.rounds_of_read_many found
    clear found front opening opened
    induction rounds with
    | done | still =>
      intro star _ offset
      refine ⟨2, ?_, closed.offset.symm⟩
      rw [closed.rest]
      cases star <;> rfl
    | @more first middle _ _ _ round _ _ ih =>
      intro star noSlash offset
      obtain ⟨_, _, _, look, char, -⟩ := Grammar.read_seq_matched.1 round
      obtain ⟨rfl, -, ahead⟩ := Grammar.read_notAhead_matched.1 look
      obtain ⟨c, eq, -, moved, -⟩ := Grammar.read_one_matched.1 char
      have free := Grammar.read_text_failed.1 ahead
      rw [eq] at free noSlash
      have next : (decide (c = '*')) = true → middle.rest.head? ≠ some '/' := by
        intro star slash
        obtain ⟨more, behind⟩ := List.head?_eq_some_iff.1 slash
        exact free ⟨more, by rw [of_decide_eq_true star, behind]; rfl⟩
      obtain ⟨bytes, leads, length⟩ := ih closing closed (decide (c = '*')) next (offset + c.utf8Size)
      refine ⟨c.utf8Size + bytes, ?_, by omega⟩
      have stays : ¬ (star = true ∧ c = '/') := by
        rintro ⟨on, rfl⟩
        exact noSlash on rfl
      rw [eq, search, if_neg stays, leads, Nat.add_assoc]
  obtain ⟨bytes, leads, length⟩ := inside false nofun (offset + 2)
  have size := takes.offset
  have size' : first.offset = here.offset + 2 := opened.offset
  have begins : text ++ stop.rest = '/' :: '*' :: first.rest := takes.rest.symm.trans opened.rest
  rw [begins]
  have step : search ('/' :: '*' :: first.rest) offset level .code =
      search first.rest (offset + 2) level (.blockComment false) := rfl
  rw [step, leads]
  congr 1
  omega

/-- The rounds of the characters of a string: the search stays in the string, unless a backslash
takes a carriage return together with a line feed. -/
theorem search_stringChars {quote : Char} (takes : here.Takes text stop)
    (rounds : grammar.Rounds depth
      (sign "\\" ++ (sign "\r\n" ||| anyChar) |||
        .notAhead (one (· == quote) ||| sign "\\" ||| lineTerminator) ++ anyChar) here stop nodes)
    (unbroken : ¬ ['\\', '\r', '\n'] <:+: text) :
    search (text ++ rest) offset level (.string quote) =
      search rest (offset + byteLength text) level (.string quote) := by
  induction rounds generalizing text offset with
  | done | still =>
    cases takes.stays_iff.1 rfl
    rfl
  | more round _ later ih =>
    obtain ⟨front, first⟩ := Grammar.read_takes round
    obtain ⟨back, second⟩ := Grammar.takes_of_rounds later
    cases List.append_cancel_right (takes.rest.symm.trans (first.trans second).rest)
    have unbroken' : ¬ ['\\', '\r', '\n'] <:+: back := fun inside =>
      unbroken (inside.trans (List.suffix_append front back).isInfix)
    have unbrokenFront : front ≠ ['\\', '\r', '\n'] := by
      rintro rfl
      exact unbroken (List.prefix_append _ back).isInfix
    have step : ∀ rest, search (front ++ rest) offset level (.string quote) =
        search rest (offset + byteLength front) level (.string quote) := by
      intro rest
      rcases Grammar.read_alt_matched.1 round with round | ⟨-, round⟩
      · -- A backslash and what it takes along.
        obtain ⟨_, _, _, slash, escaped, -⟩ := Grammar.read_seq_matched.1 round
        have slashTaken := (Grammar.read_text_matched.1 slash).1
        rcases Grammar.read_alt_matched.1 escaped with escaped | ⟨-, escaped⟩
        · have both := slashTaken.trans (Grammar.read_text_matched.1 escaped).1
          exact absurd (List.append_cancel_right (first.rest.symm.trans both.rest)) unbrokenFront
        · obtain ⟨c, eq, -, moved, -⟩ := Grammar.read_one_matched.1 escaped
          have both := slashTaken.trans (.one eq moved)
          cases List.append_cancel_right (first.rest.symm.trans both.rest)
          have led : search ('\\' :: c :: rest) offset level (.string quote) =
              search rest (offset + 1 + c.utf8Size) level (.string quote) := rfl
          refine led.trans ?_
          simp only [byteLength_append, byteLength_cons, byteLength_nil]
          congr 1
          have : byteLength "\\".toList = 1 := rfl
          omega
      · -- Any character but the quote, a backslash and a line break.
        obtain ⟨_, _, _, look, char, -⟩ := Grammar.read_seq_matched.1 round
        obtain ⟨rfl, -, ahead⟩ := Grammar.read_notAhead_matched.1 look
        obtain ⟨c, eq, -, moved, -⟩ := Grammar.read_one_matched.1 char
        cases List.append_cancel_right (first.rest.symm.trans (Cursor.Takes.one eq moved).rest)
        obtain ⟨marks, break'⟩ := Grammar.read_alt_failed.1 ahead
        obtain ⟨isQuote, slash⟩ := Grammar.read_alt_failed.1 marks
        have notQuote := Grammar.read_one_failed.1 isQuote c
        have notBreak := Grammar.read_one_failed.1 (Grammar.read_alt_failed.1 break').2 c
        have notSlash := Grammar.read_text_failed.1 slash
        rw [eq] at notQuote notBreak notSlash
        have noSlash : c ≠ '\\' := by
          rintro rfl
          exact notSlash ⟨_, rfl⟩
        have noEnd : ¬ (c = '\n' ∨ c = quote) := by
          rintro (rfl | rfl)
          · cases notBreak rfl
          · simpa using notQuote rfl
        rw [List.cons_append, List.nil_append, search, if_neg noSlash, if_neg noEnd, byteLength_cons,
          byteLength_nil, Nat.add_zero]
    rw [List.append_assoc, step, ih second unbroken', byteLength_append, Nat.add_assoc]

private theorem search_quoted {quote : Char} {name : Rule} (isQuote : quote = '"' ∨ quote = '\'')
    (chars : pattern name = stringChars quote) (takes : here.Takes text stop)
    (found : grammar.read depth (.text [quote] ++ .rule name ++ .text [quote]) here =
      .matched stop nodes)
    (unbroken : ¬ ['\\', '\r', '\n'] <:+: text) :
    search (text ++ rest) offset level .code =
      search rest (offset + byteLength text) level .code := by
  obtain ⟨last, _, _, front, closing, -⟩ := Grammar.read_seq_matched.1 found
  obtain ⟨first, _, _, opening, inside, -⟩ := Grammar.read_seq_matched.1 front
  obtain ⟨_, _, _, inside, -⟩ := Grammar.read_rule_matched.1 inside
  have opened := (Grammar.read_text_matched.1 opening).1
  have closed := (Grammar.read_text_matched.1 closing).1
  obtain ⟨body, within⟩ := Grammar.read_takes inside
  have parts := (opened.trans within).trans closed
  cases List.append_cancel_right (takes.rest.symm.trans parts.rest)
  have unbroken' : ¬ ['\\', '\r', '\n'] <:+: body := fun broken =>
    unbroken (broken.trans ⟨[quote], [quote], rfl⟩)
  have rounds := Grammar.rounds_of_read_many ((congrArg (grammar.read _ · first) chars).symm.trans inside)
  have size : quote.utf8Size = 1 := by rcases isQuote with rfl | rfl <;> rfl
  have enters : search (quote :: (body ++ quote :: rest)) offset level .code =
      search (body ++ quote :: rest) (offset + 1) level (.string quote) := by
    rcases isQuote with rfl | rfl <;> rfl
  have leaves : ∀ offset, search (quote :: rest) offset level (.string quote) =
      search rest (offset + 1) level .code := by
    rcases isQuote with rfl | rfl <;> exact fun _ => rfl
  have whole : [quote] ++ body ++ [quote] ++ rest = quote :: (body ++ quote :: rest) := by simp
  rw [whole, enters, search_stringChars within rounds unbroken', leaves]
  simp only [byteLength_append, byteLength_cons, byteLength_nil, size]
  congr 1
  omega

/-- The search closes a string literal where the grammar does, unless the literal goes on behind a
carriage return and a line feed. -/
theorem search_stringLiteral (takes : here.Takes text stop)
    (found : grammar.read depth (.rule .stringLiteral) here = .matched stop nodes)
    (unbroken : ¬ ['\\', '\r', '\n'] <:+: text) :
    search (text ++ rest) offset level .code =
      search rest (offset + byteLength text) level .code := by
  obtain ⟨_, _, _, found, -⟩ := Grammar.read_rule_matched.1 found
  rcases Grammar.read_alt_matched.1 found with found | ⟨-, found⟩
  · exact search_quoted (.inl rfl) rfl takes found unbroken
  · exact search_quoted (.inr rfl) rfl takes found unbroken

end

/-! ## Lexemes that both end alike -/

/-- Whether the search ends a lexeme where the grammar does, given the lexemes behind it: a string
literal must not go on behind a carriage return and a line feed, and a line comment must reach up
to a line feed, to a carriage return with a line feed, or to the end of the text. -/
def Lexeme.endsAlike (behind : List Lexeme) : Lexeme → Bool
  | string text => !decide (['\\', '\r', '\n'] <:+: text)
  | lineComment _ =>
    behind.isEmpty || [char '\n'].isPrefixOf behind || [char '\r', char '\n'].isPrefixOf behind
  | blockComment _ | char _ => true

/-- Whether the search ends all lexemes where the grammar does. -/
def endAlike : List Lexeme → Bool
  | [] => true
  | l :: behind => l.endsAlike behind && endAlike behind

theorem Lexed.rest_of_char {source : List Char} {c : Char} {ls : List Lexeme}
    (lexed : Lexed source (.char c :: ls) []) : ∃ rest, source = c :: rest ∧ Lexed rest ls [] := by
  cases lexed with
  | cons _ _ later => exact ⟨_, rfl, later⟩

theorem endsLine_of_endsAlike {source text : List Char} {ls : List Lexeme}
    (lexed : Lexed source ls []) (alike : (Lexeme.lineComment text).endsAlike ls = true) :
    source = [] ∨ ['\n'] <+: source ∨ ['\r', '\n'] <+: source := by
  simp only [Lexeme.endsAlike, Bool.or_eq_true, List.isEmpty_iff, List.isPrefixOf_iff_prefix] at alike
  rcases alike with (rfl | ⟨ls, rfl⟩) | ⟨ls, rfl⟩
  · cases lexed
    exact .inl rfl
  · obtain ⟨rest, rfl, _⟩ := lexed.rest_of_char
    exact .inr (.inl ⟨rest, rfl⟩)
  · obtain ⟨behind, rfl, later⟩ := lexed.rest_of_char
    obtain ⟨rest, rfl, _⟩ := later.rest_of_char
    exact .inr (.inr ⟨rest, rfl⟩)

/-- The search passes over a string literal or a comment that it ends where the grammar does. -/
theorem search_hidden {l : Lexeme} {ls : List Lexeme} {rest : List Char}
    (first : lexeme? (l.text ++ rest) = some l) (hidden : ∀ c, l ≠ .char c)
    (later : Lexed rest ls []) (alike : l.endsAlike ls = true) (offset level : Nat) :
    search (l.text ++ rest) offset level .code =
      search rest (offset + byteLength l.text) level .code := by
  rcases lexeme?_cases first with ⟨text, rfl, taken⟩ | ⟨_, rfl, taken⟩ | ⟨_, rfl, taken⟩ | ⟨c, rfl, _⟩
  · obtain ⟨stop, nodes, found, takes⟩ := read_of_taken? taken
    have unbroken : ¬ ['\\', '\r', '\n'] <:+: text := by simpa [Lexeme.endsAlike] using alike
    exact search_stringLiteral takes found unbroken
  · obtain ⟨stop, nodes, found, takes⟩ := read_of_taken? taken
    exact (search_lineComment takes found).trans (search_endOfLine (endsLine_of_endsAlike later alike))
  · obtain ⟨stop, nodes, found, takes⟩ := read_of_taken? taken
    have same : rest = stop.rest := List.append_cancel_left takes.rest
    exact same ▸ search_blockComment takes found
  · exact absurd rfl (hidden c)

/-- The prefixes of a list with a first element. -/
private theorem forall_prefix_cons {l : Lexeme} {ls : List Lexeme} {P : List Lexeme → Prop} :
    (∀ front, front <+: l :: ls → P front) ↔ P [] ∧ ∀ front, front <+: ls → P (l :: front) := by
  constructor
  · intro all
    exact ⟨all [] List.nil_prefix, fun front le => all _ (List.cons_prefix_cons.2 ⟨rfl, le⟩)⟩
  · rintro ⟨none, some⟩ front le
    cases front with
    | nil => exact none
    | cons l' front =>
      obtain ⟨rfl, inside⟩ := List.cons_prefix_cons.1 le
      exact some front inside

section

variable {c : Char} {level : Nat}

theorem bracket?_opening (opens : isOpening c = true) :
    bracket? level c = if level < limit then some (level + 1) else none := by
  simp only [isOpening, Bool.or_eq_true, decide_eq_true_eq, or_assoc] at opens
  exact if_pos opens

theorem bracket?_closing (closes : isClosing c = true) : bracket? level c = some (level - 1) := by
  simp only [isClosing, Bool.or_eq_true, decide_eq_true_eq, or_assoc] at closes
  have other : ¬ (c = '(' ∨ c = '[' ∨ c = '\x7b') := by
    rcases closes with rfl | rfl | rfl <;> decide
  rw [bracket?, if_neg other, if_pos closes]

theorem bracket?_other (opens : isOpening c = false) (closes : isClosing c = false) :
    bracket? level c = some level := by
  simp only [isOpening, isClosing, Bool.or_eq_false_iff, decide_eq_false_iff_not] at opens closes
  simp [bracket?, opens, closes]

theorem not_closing_of_opening (opens : isOpening c = true) : isClosing c = false := by
  simp only [isOpening, Bool.or_eq_true, decide_eq_true_eq] at opens
  rcases opens with (rfl | rfl) | rfl <;> rfl

end

/-- The search finds nothing in lexemes that it ends as the grammar does, if and only if their
brackets never nest beyond the limit. -/
theorem search_eq_none_iff {source : List Char} {ls : List Lexeme} (lexed : Lexed source ls [])
    (alike : endAlike ls = true) {level : Nat} (low : (effect ls).low ≤ level)
    (within : level ≤ limit) (offset : Nat) :
    search source offset level .code = none ↔
      ∀ front, front <+: ls →
        level + front.countP Lexeme.opens ≤ limit + front.countP Lexeme.closes := by
  generalize eq : ([] : List Char) = stop at lexed
  induction lexed generalizing level offset with
  | nil source =>
    subst eq
    simpa [search] using within
  | @cons l ls rest _ first regular later ih =>
    subst eq
    obtain ⟨alikeHere, alikeLater⟩ := Bool.and_eq_true_iff.1 alike
    rw [forall_prefix_cons]
    simp only [List.countP_nil, Nat.add_zero, within, true_and, List.countP_cons]
    rw [effect_cons] at low
    by_cases hidden : ∀ c, l ≠ .char c
    · have weight : l.effect = .even ∧ l.opens = false ∧ l.closes = false := by
        cases l with
        | char c => exact absurd rfl (hidden c)
        | _ => exact ⟨rfl, rfl, rfl⟩
      rw [search_hidden first hidden later alikeHere,
        ih alikeLater (by simpa [weight.1] using low) within _ rfl]
      simp [weight]
    · obtain ⟨c, rfl⟩ := not_forall_not.1 hidden
      rw [Lexeme.text, List.cons_append, List.nil_append, search_char regular]
      cases opens : isOpening c with
      | true =>
        have closes := not_closing_of_opening opens
        simp only [Lexeme.opens, Lexeme.closes, opens, closes, if_true, Bool.false_eq_true, if_false]
        simp only [Lexeme.effect, Lexeme.opens, Lexeme.closes, opens, closes, Effect.andThen,
          if_true, Bool.false_eq_true, if_false] at low
        rw [bracket?_opening opens]
        by_cases room : level < limit
        · rw [if_pos room]
          dsimp only
          rw [ih alikeLater (by omega) (by omega) _ rfl]
          exact forall₂_congr fun front _ => by omega
        · rw [if_neg room]
          refine ⟨fun found => (by cases found), fun all => absurd (all [] List.nil_prefix) ?_⟩
          simp only [List.countP_nil]
          omega
      | false =>
        cases closes : isClosing c with
        | true =>
          simp only [Lexeme.opens, Lexeme.closes, opens, closes, if_true, Bool.false_eq_true, if_false]
          simp only [Lexeme.effect, Lexeme.opens, Lexeme.closes, opens, closes, Effect.andThen,
            if_true, Bool.false_eq_true, if_false] at low
          rw [bracket?_closing closes]
          dsimp only
          rw [ih alikeLater (by omega) (by omega) _ rfl]
          exact forall₂_congr fun front _ => by omega
        | false =>
          simp only [Lexeme.opens, Lexeme.closes, opens, closes, Bool.false_eq_true, if_false]
          simp only [Lexeme.effect, Lexeme.opens, Lexeme.closes, opens, closes, Effect.andThen,
            Bool.false_eq_true, if_false] at low
          rw [bracket?_other opens closes]
          exact ih alikeLater (by omega) within _ rfl

/-! ## The limit -/

/-- On a script whose string literals and line comments end alike for both, the check accepts
exactly the brackets that nest at most as deep as the limit. -/
theorem nesting_within_limit_iff {source : List Char} {node : Node Rule}
    (parsed : parse source = .ok node) (alike : endAlike (lexemes source) = true) :
    firstTooDeep? source = none ↔ deepest (lexemes source) ≤ limit := by
  obtain ⟨lexed, balanced⟩ := lexed_of_parse parsed
  rw [deepest_le_iff, firstTooDeep?,
    search_eq_none_iff lexed alike (by simp [balanced, Effect.even]) (Nat.zero_le _) 0]
  simp only [Nat.zero_add]

theorem exists_parsed (source : List Char) (isScript : (parse source).toOption.isSome = true) :
    ∃ node, parse source = .ok node := by
  cases eq : parse source with
  | error offset =>
    rw [eq] at isScript
    cases isScript
  | ok node => exact ⟨node, rfl⟩

/-- A script with brackets in a comment and in a string literal, where both ideas agree. -/
theorem nesting_within_limit_iff_plain :
    ∃ node, parse "f([1]) // (\n + '('".toList = .ok node ∧
      (firstTooDeep? "f([1]) // (\n + '('".toList = none ↔
        deepest (lexemes "f([1]) // (\n + '('".toList) ≤ limit) := by
  obtain ⟨node, parsed⟩ := exists_parsed "f([1]) // (\n + '('".toList (by decide +kernel)
  exact ⟨node, parsed, nesting_within_limit_iff parsed (by decide +kernel)⟩

/-- A string literal that goes on behind a backslash, a carriage return and a line feed, with the
given text on its second line. -/
def continued (text : List Char) : List Char := ['\'', '\\', '\r', '\n'] ++ text ++ ['\'']

/-- Such a string is refused if there are too many brackets in it, though none of them nests. -/
theorem nesting_of_continued_string :
    ∃ node, parse (continued (List.replicate 129 '(')) = .ok node ∧
      deepest (lexemes (continued (List.replicate 129 '('))) = 0 ∧
      firstTooDeep? (continued (List.replicate 129 '(')) ≠ none := by
  obtain ⟨node, parsed⟩ :=
    exists_parsed (continued (List.replicate 129 '(')) (by decide +kernel)
  exact ⟨node, parsed, by decide +kernel, by decide +kernel⟩

end ScriptEngine.Script
