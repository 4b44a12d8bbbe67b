import Mathlib.Data.List.Infix
import ScriptEngine.Grammar.Script
import ScriptEngine.Proofs.Grammar.First

/-!
# Lexemes

A text falls into string literals, comments and single characters. What a string literal or a
comment is, the patterns of the grammar say: `lexeme?` tries them where a text begins. That makes
sense because what a pattern without rules takes depends on the text alone: not on the place of the
text, not on the bound on the nesting of rules, which it cannot meet (`Grammar.extent_of_simple`,
`Grammar.read_ne_exhausted_of_simple`).

Main result: what a pattern of the grammar matches is a whole number of lexemes, and among these the
brackets balance, as far as the pattern itself does (`Weighs.lexed`); in a script they balance
altogether (`lexed_of_parse`).
-/
namespace ScriptEngine

/-! ## The same text at two places -/

section

variable {Rule : Type}

/-- A pattern without rules or lookaheads that match, where only what moves is repeated. -/
def Pattern.simple : Pattern Rule → Bool
  | .one _ | .text _ => true
  | .seq first second | .alt first second => first.simple && second.simple
  | .many item => item.moves (fun _ => false) && item.simple
  | .optional item | .notAhead item => item.simple
  | .ahead _ | .rule _ => false

namespace Grammar

variable {g : Grammar Rule}

/-! ### Below the bound on the nesting of rules -/

variable {depth : Nat} {first second : Pattern Rule}

theorem read_seq_ne_exhausted (left : ∀ here, g.read depth first here ≠ .exhausted)
    (right : ∀ here, g.read depth second here ≠ .exhausted) (here : Cursor) :
    g.read depth (.seq first second) here ≠ .exhausted := by
  rw [read_seq]
  cases eq : g.read depth first here with
  | failed => nofun
  | exhausted => exact absurd eq (left here)
  | matched middle before =>
    have ended := right middle
    dsimp only [Match.andThen]
    split
    · nofun
    · exact ended

theorem read_alt_ne_exhausted (left : ∀ here, g.read depth first here ≠ .exhausted)
    (right : ∀ here, g.read depth second here ≠ .exhausted) (here : Cursor) :
    g.read depth (.alt first second) here ≠ .exhausted := by
  have ended := left here
  rw [read_alt]
  split
  · exact right here
  · exact ended

theorem read_rule_ne_exhausted {name : Rule}
    (inside : ∀ here, g.read depth (g.pattern name) here ≠ .exhausted) (here : Cursor) :
    g.read (depth + 1) (.rule name) here ≠ .exhausted := by
  have ended := inside here
  rw [read_rule_succ]
  split
  · nofun
  · exact ended

theorem read_ne_exhausted_of_simple {p : Pattern Rule} (simple : p.simple = true) (here : Cursor) :
    g.read depth p here ≠ .exhausted := by
  induction p generalizing here with
  | one accepts =>
    intro met
    simp only [read, Pattern.run] at met
    split at met
    · split at met <;> cases met
    · cases met
  | text chars =>
    intro met
    simp only [read, Pattern.run] at met
    split at met <;> cases met
  | seq first second ihFirst ihSecond =>
    obtain ⟨left, right⟩ := Bool.and_eq_true_iff.1 simple
    exact read_seq_ne_exhausted (ihFirst left) (ihSecond right) here
  | alt first second ihFirst ihSecond =>
    obtain ⟨left, right⟩ := Bool.and_eq_true_iff.1 simple
    exact read_alt_ne_exhausted (ihFirst left) (ihSecond right) here
  | many item ih => exact read_many_ne_exhausted (ih (Bool.and_eq_true_iff.1 simple).2)
  | optional item ih =>
    have ended := ih simple here
    rw [read_optional]
    split
    · exact fun met => by cases met
    · exact ended
  | notAhead item ih =>
    have ended := ih simple here
    rw [read_notAhead]
    split
    · exact fun met => by cases met
    · exact fun met => by cases met
    next met => exact absurd met ended
  | ahead | rule => cases simple

/-! ### Two places -/

/-- The same text at two places: what is left of it is the same. -/
def extent (g : Grammar Rule) (depth depth' : Nat) : Comparison g where
  depth := depth
  depth' := depth'
  related _ here here' := here.rest = here'.rest
  alike _ _ := True
  alike_nil := trivial
  alike_append _ _ := trivial

theorem extent_of_simple {depth depth' : Nat} {p : Pattern Rule} (simple : p.simple = true) :
    (g.extent depth depth').Simulates p .even := by
  induction p with
  | one accepts =>
    rintro level here here' (same : here.rest = here'.rest)
    by_cases accepted : ∃ c rest, here.rest = c :: rest ∧ accepts c = true
    · obtain ⟨c, rest, eq, accepted⟩ := accepted
      have found : g.read depth (.one accepts) here = .matched ⟨rest, here.offset + c.utf8Size⟩ [] :=
        read_one_matched.2 ⟨c, eq, accepted, rfl, rfl⟩
      have found' : g.read depth' (.one accepts) here' =
          .matched ⟨rest, here'.offset + c.utf8Size⟩ [] :=
        read_one_matched.2 ⟨c, same ▸ eq, accepted, rfl, rfl⟩
      rw [extent, found, found']
      exact .matched rfl trivial
    · have refused : ∀ c ∈ here.rest.head?, accepts c = false := by
        intro c first
        obtain ⟨rest, eq⟩ := List.head?_eq_some_iff.1 first
        exact Bool.eq_false_iff.2 fun taken => accepted ⟨c, rest, eq, taken⟩
      have failed : g.read depth (.one accepts) here = .failed := read_one_failed.2 refused
      have failed' : g.read depth' (.one accepts) here' = .failed :=
        read_one_failed.2 (same ▸ refused)
      rw [extent, failed, failed']
      exact .failed
  | text chars =>
    rintro level here here' (same : here.rest = here'.rest)
    by_cases begins : chars <+: here.rest
    · obtain ⟨rest, eq⟩ := begins
      have found : g.read depth (.text chars) here =
          .matched ⟨rest, here.offset + byteLength chars⟩ [] :=
        read_text_matched.2 ⟨⟨eq.symm, rfl⟩, rfl⟩
      have found' : g.read depth' (.text chars) here' =
          .matched ⟨rest, here'.offset + byteLength chars⟩ [] :=
        read_text_matched.2 ⟨⟨same ▸ eq.symm, rfl⟩, rfl⟩
      rw [extent, found, found']
      exact .matched rfl trivial
    · have failed : g.read depth (.text chars) here = .failed := read_text_failed.2 begins
      have failed' : g.read depth' (.text chars) here' = .failed :=
        read_text_failed.2 (same ▸ begins)
      rw [extent, failed, failed']
      exact .failed
  | seq first second ihFirst ihSecond =>
    obtain ⟨left, right⟩ := Bool.and_eq_true_iff.1 simple
    exact (ihFirst left).seq (ihSecond right)
  | alt first second ihFirst ihSecond =>
    obtain ⟨left, right⟩ := Bool.and_eq_true_iff.1 simple
    exact (ihFirst left).alt (ihSecond right)
  | many item ih =>
    obtain ⟨moves, simple⟩ := Bool.and_eq_true_iff.1 simple
    exact (ih simple).many (moves_of_closed (fun _ (never : false = true) => nomatch never) moves)
  | optional item ih => exact (ih simple).optional
  | notAhead item ih => exact (ih simple).notAhead rfl
  | ahead | rule => cases simple

theorem extent_rule {depth depth' : Nat} {name : Rule}
    (inside : ∀ depth, (g.extent depth depth').Simulates (g.pattern name) .even) :
    (g.extent depth (depth' + 1)).Simulates (.rule name) .even := by
  intro level here here' same
  cases depth with
  | zero => exact .left _
  | succ depth =>
    have found := inside depth level here here' same
    dsimp only [extent] at found ⊢
    rw [read_rule_succ, read_rule_succ]
    generalize g.read depth (g.pattern name) here = result,
      g.read depth' (g.pattern name) here' = result' at found ⊢
    cases found with
    | matched stops => exact .matched stops trivial
    | failed => exact .failed
    | left => exact .left _
    | right => exact .right _

end Grammar

end

end ScriptEngine

namespace ScriptEngine.Script

/-! ## Texts as lexemes -/

/-! ### Dividing a text -/

/-- A string literal or a comment as a whole, or any other character on its own. -/
inductive Lexeme where
  | string (text : List Char)
  | lineComment (text : List Char)
  | blockComment (text : List Char)
  | char (c : Char)
deriving DecidableEq, Repr

def Lexeme.text : Lexeme → List Char
  | string text | lineComment text | blockComment text => text
  | char c => [c]

/-- What a pattern takes where a text begins. -/
def taken? (p : Part) (source : List Char) : Option (List Char) :=
  -- A string literal is a rule around the rule for its characters, so two levels are enough.
  match grammar.read 2 p ⟨source, 0⟩ with
  | .matched stop _ => some (takeBytes stop.offset source)
  | .failed | .exhausted => none

/-- The lexeme that a text begins with. -/
def lexeme? (source : List Char) : Option Lexeme :=
  (taken? (.rule .stringLiteral) source).map .string <|>
    (taken? lineComment source).map .lineComment <|>
    (taken? blockComment source).map .blockComment <|>
    source.head?.map .char

def lexemesWithin : (rounds : Nat) → List Char → List Lexeme
  | 0, _ => []
  | rounds + 1, source =>
    match lexeme? source with
    | some lexeme => lexeme :: lexemesWithin rounds (source.drop lexeme.text.length)
    | none => []

/-- The lexemes of a text. -/
def lexemes (source : List Char) : List Lexeme := lexemesWithin source.length source

example : lexemes "a(//b(".toList = [.char 'a', .char '(', .lineComment "//b(".toList] := by decide

/-! ### Brackets -/

def isOpening (c : Char) : Bool := c = '(' || c = '[' || c = '\x7b'

def isClosing (c : Char) : Bool := c = ')' || c = ']' || c = '\x7d'

namespace Lexeme

def opens : Lexeme → Bool
  | char c => isOpening c
  | string _ | lineComment _ | blockComment _ => false

def closes : Lexeme → Bool
  | char c => isClosing c
  | string _ | lineComment _ | blockComment _ => false

def effect (l : Lexeme) : Effect := ⟨if l.closes then 1 else 0, if l.opens then 1 else 0⟩

end Lexeme

/-- What lexemes do to the nesting of brackets. -/
def effect (ls : List Lexeme) : Effect := ls.foldr (fun l e => l.effect.andThen e) .even

@[simp]
theorem effect_nil : effect [] = .even := rfl

@[simp]
theorem effect_cons (l : Lexeme) (ls : List Lexeme) :
    effect (l :: ls) = l.effect.andThen (effect ls) := rfl

theorem effect_append (ls more : List Lexeme) :
    effect (ls ++ more) = (effect ls).andThen (effect more) := by
  induction ls with
  | nil => simp
  | cons l ls ih => simp [ih, Effect.andThen_assoc]

/-- How many brackets are open behind some lexemes. -/
def nesting (ls : List Lexeme) : Nat := ls.countP Lexeme.opens - ls.countP Lexeme.closes

/-- The deepest nesting of brackets anywhere in some lexemes. -/
def deepest (ls : List Lexeme) : Nat := (ls.inits.map nesting).foldr max 0

theorem deepest_le_iff (ls : List Lexeme) (bound : Nat) :
    deepest ls ≤ bound ↔
      ∀ front, front <+: ls →
        front.countP Lexeme.opens ≤ bound + front.countP Lexeme.closes := by
  have le_iff : ∀ depths : List Nat, depths.foldr max 0 ≤ bound ↔ ∀ depth ∈ depths, depth ≤ bound := by
    intro depths
    induction depths with
    | nil => simp
    | cons depth depths ih => simp [Nat.max_le, ih]
  unfold deepest
  rw [le_iff]
  simp [nesting]

/-! ### Texts read lexeme by lexeme -/

/-- A single character is no quote, and no slash that a comment could begin with. -/
def Lexeme.Regular (rest : List Char) : Lexeme → Prop
  | char c => c ≠ '"' ∧ c ≠ '\'' ∧ (c = '/' → rest.head? ≠ some '/' ∧ rest.head? ≠ some '*')
  | string _ | lineComment _ | blockComment _ => True

/-- Reading lexemes leads from one text to another. -/
inductive Lexed : List Char → List Lexeme → List Char → Prop where
  | nil (source : List Char) : Lexed source [] source
  | cons {l : Lexeme} {ls : List Lexeme} {rest stop : List Char}
    (first : lexeme? (l.text ++ rest) = some l) (regular : l.Regular rest)
    (later : Lexed rest ls stop) : Lexed (l.text ++ rest) (l :: ls) stop

namespace Lexed

variable {source middle stop : List Char} {ls more : List Lexeme}

theorem append (before : Lexed source ls middle) (after : Lexed middle more stop) :
    Lexed source (ls ++ more) stop := by
  induction before with
  | nil => exact after
  | cons first regular _ ih => exact .cons first regular (ih after)

theorem single {l : Lexeme} {rest : List Char} (first : lexeme? (l.text ++ rest) = some l)
    (regular : l.Regular rest) : Lexed (l.text ++ rest) [l] rest := .cons first regular (.nil rest)

end Lexed

/-! ### What the patterns of lexemes take -/

/-- A pattern that reads a text in the same way at any place. -/
structure Fixed (p : Part) : Prop where
  same (depth : Nat) : (grammar.extent depth 2).Simulates p .even
  ends (here : Cursor) : grammar.read 2 p here ≠ .exhausted

theorem Fixed.of_simple {p : Part} (simple : p.simple = true) : Fixed p :=
  ⟨fun _ => Grammar.extent_of_simple simple, Grammar.read_ne_exhausted_of_simple simple⟩

theorem fixed_lineComment : Fixed lineComment := .of_simple rfl

theorem fixed_blockComment : Fixed blockComment := .of_simple rfl

theorem fixed_stringLiteral : Fixed (.rule .stringLiteral) where
  same depth := by
    refine Grammar.extent_rule fun depth => ?_
    have double : (grammar.extent depth 1).Simulates (.rule .doubleStringChars) .even :=
      Grammar.extent_rule fun _ => Grammar.extent_of_simple rfl
    have single : (grammar.extent depth 1).Simulates (.rule .singleStringChars) .even :=
      Grammar.extent_rule fun _ => Grammar.extent_of_simple rfl
    have quote : (grammar.extent depth 1).Simulates (sign "\"") .even :=
      Grammar.extent_of_simple rfl
    have quote' : (grammar.extent depth 1).Simulates (sign "'") .even :=
      Grammar.extent_of_simple rfl
    exact ((quote.seq double).seq quote).alt ((quote'.seq single).seq quote')
  ends := by
    refine Grammar.read_rule_ne_exhausted ?_
    have chars (name : Rule) (simple : (pattern name).simple = true) (here : Cursor) :
        grammar.read 1 (.rule name) here ≠ .exhausted :=
      Grammar.read_rule_ne_exhausted (Grammar.read_ne_exhausted_of_simple simple) here
    have quote (source : String) : ∀ here, grammar.read 1 (sign source) here ≠ .exhausted :=
      Grammar.read_ne_exhausted_of_simple rfl
    refine Grammar.read_alt_ne_exhausted ?_ ?_
    · exact Grammar.read_seq_ne_exhausted
        (Grammar.read_seq_ne_exhausted (quote _) (chars .doubleStringChars rfl)) (quote _)
    · exact Grammar.read_seq_ne_exhausted
        (Grammar.read_seq_ne_exhausted (quote _) (chars .singleStringChars rfl)) (quote _)

namespace Fixed

variable {p : Part} {depth : Nat} {here stop : Cursor} {nodes : List (Node Rule)}

theorem taken?_of_matched (fixed : Fixed p) {text : List Char} (takes : here.Takes text stop)
    (found : grammar.read depth p here = .matched stop nodes) :
    taken? p here.rest = some text := by
  have same := fixed.same depth 0 here ⟨here.rest, 0⟩ rfl
  have ends := fixed.ends ⟨here.rest, 0⟩
  dsimp only [Grammar.extent] at same
  rw [found] at same
  unfold taken?
  cases eq : grammar.read 2 p ⟨here.rest, 0⟩ with
  | exhausted => exact absurd eq ends
  | failed =>
    rw [eq] at same
    cases same
  | matched stop' nodes' =>
    rw [eq] at same
    cases same with
    | matched stops =>
      obtain ⟨text', takes'⟩ := Grammar.read_takes eq
      have rests : text ++ stop.rest = text' ++ stop.rest :=
        takes.rest.symm.trans (takes'.rest.trans (congrArg _ stops.symm))
      cases List.append_cancel_right rests
      have bytes : stop'.offset = byteLength text := takes'.offset.trans (Nat.zero_add _)
      dsimp only
      rw [bytes, takes.rest, takeBytes_append]

end Fixed

/-- What a pattern has taken was matched there. -/
theorem read_of_taken? {p : Part} {source text : List Char} (taken : taken? p source = some text) :
    ∃ stop nodes, grammar.read 2 p ⟨source, 0⟩ = .matched stop nodes ∧
      Cursor.Takes ⟨source, 0⟩ text stop := by
  unfold taken? at taken
  cases eq : grammar.read 2 p ⟨source, 0⟩ with
  | failed | exhausted =>
    rw [eq] at taken
    cases taken
  | matched stop nodes =>
    obtain ⟨text', takes⟩ := Grammar.read_takes eq
    rw [eq] at taken
    have bytes : stop.offset = byteLength text' := takes.offset.trans (Nat.zero_add _)
    have same : source = text' ++ stop.rest := takes.rest
    dsimp only at taken
    rw [bytes, same, takeBytes_append] at taken
    cases taken
    exact ⟨stop, nodes, rfl, takes⟩

section

variable {depth : Nat} {here stop : Cursor} {nodes : List (Node Rule)}

theorem prefix_of_lineComment (found : grammar.read depth lineComment here = .matched stop nodes) :
    "//".toList <+: here.rest := by
  obtain ⟨middle, _, _, first, _⟩ := Grammar.read_seq_matched.1 found
  exact ⟨middle.rest, (Grammar.read_text_matched.1 first).1.rest.symm⟩

theorem prefix_of_blockComment (found : grammar.read depth blockComment here = .matched stop nodes) :
    "/*".toList <+: here.rest := by
  obtain ⟨_, _, _, front, _⟩ := Grammar.read_seq_matched.1 found
  obtain ⟨middle, _, _, first, _⟩ := Grammar.read_seq_matched.1 front
  exact ⟨middle.rest, (Grammar.read_text_matched.1 first).1.rest.symm⟩

theorem head?_of_stringLiteral
    (found : grammar.read depth (.rule .stringLiteral) here = .matched stop nodes) :
    here.rest.head? = some '"' ∨ here.rest.head? = some '\'' := by
  obtain ⟨_, _, _, found, _⟩ := Grammar.read_rule_matched.1 found
  rcases Grammar.read_alt_matched.1 found with found | ⟨_, found⟩
  all_goals
    obtain ⟨_, _, _, front, _⟩ := Grammar.read_seq_matched.1 found
    obtain ⟨_, _, _, first, _⟩ := Grammar.read_seq_matched.1 front
    rw [(Grammar.read_text_matched.1 first).1.rest]
  · exact .inl rfl
  · exact .inr rfl

end

/-! ### The lexeme that a text begins with -/

section

variable {source rest : List Char} {c : Char}

theorem taken?_stringLiteral_of_ne (double : source.head? ≠ some '"')
    (single : source.head? ≠ some '\'') : taken? (.rule .stringLiteral) source = none := by
  cases eq : taken? (.rule .stringLiteral) source with
  | none => rfl
  | some text =>
    obtain ⟨_, _, found, _⟩ := read_of_taken? eq
    rcases head?_of_stringLiteral found with quote | quote
    · exact absurd quote double
    · exact absurd quote single

theorem taken?_lineComment_of_not_prefix (other : ¬ "//".toList <+: source) :
    taken? lineComment source = none := by
  cases eq : taken? lineComment source with
  | none => rfl
  | some text =>
    obtain ⟨_, _, found, _⟩ := read_of_taken? eq
    exact absurd (prefix_of_lineComment found) other

theorem taken?_blockComment_of_not_prefix (other : ¬ "/*".toList <+: source) :
    taken? blockComment source = none := by
  cases eq : taken? blockComment source with
  | none => rfl
  | some text =>
    obtain ⟨_, _, found, _⟩ := read_of_taken? eq
    exact absurd (prefix_of_blockComment found) other

theorem lexeme?_char (regular : (Lexeme.char c).Regular rest) :
    lexeme? (c :: rest) = some (.char c) := by
  obtain ⟨double, single, slash⟩ := regular
  have noString : taken? (.rule .stringLiteral) (c :: rest) = none :=
    taken?_stringLiteral_of_ne (by simpa using double) (by simpa using single)
  have noLine : taken? lineComment (c :: rest) = none := by
    refine taken?_lineComment_of_not_prefix ?_
    rintro ⟨more, eq⟩
    cases eq
    exact (slash rfl).1 rfl
  have noBlock : taken? blockComment (c :: rest) = none := by
    refine taken?_blockComment_of_not_prefix ?_
    rintro ⟨more, eq⟩
    cases eq
    exact (slash rfl).2 rfl
  simp [lexeme?, noString, noLine, noBlock]

variable {depth : Nat} {here stop : Cursor} {nodes : List (Node Rule)} {text : List Char}

theorem lexeme?_string (takes : here.Takes text stop)
    (found : grammar.read depth (.rule .stringLiteral) here = .matched stop nodes) :
    lexeme? here.rest = some (.string text) := by
  simp [lexeme?, fixed_stringLiteral.taken?_of_matched takes found]

theorem lexeme?_lineComment (takes : here.Takes text stop)
    (found : grammar.read depth lineComment here = .matched stop nodes) :
    lexeme? here.rest = some (.lineComment text) := by
  obtain ⟨rest, eq⟩ := prefix_of_lineComment found
  have noString : taken? (.rule .stringLiteral) here.rest = none := by
    rw [← eq]
    exact taken?_stringLiteral_of_ne (by simp) (by simp)
  simp [lexeme?, noString, fixed_lineComment.taken?_of_matched takes found]

theorem lexeme?_blockComment (takes : here.Takes text stop)
    (found : grammar.read depth blockComment here = .matched stop nodes) :
    lexeme? here.rest = some (.blockComment text) := by
  obtain ⟨rest, eq⟩ := prefix_of_blockComment found
  have noString : taken? (.rule .stringLiteral) here.rest = none := by
    rw [← eq]
    exact taken?_stringLiteral_of_ne (by simp) (by simp)
  have noLine : taken? lineComment here.rest = none := by
    refine taken?_lineComment_of_not_prefix ?_
    rw [← eq]
    rintro ⟨more, eq⟩
    cases eq
  simp [lexeme?, noString, noLine, fixed_blockComment.taken?_of_matched takes found]

end

/-! ### The lexemes of a text that is read to its end -/

/-- Where a lexeme comes from. -/
theorem lexeme?_cases {source : List Char} {l : Lexeme} (first : lexeme? source = some l) :
    (∃ text, l = .string text ∧ taken? (.rule .stringLiteral) source = some text) ∨
      (∃ text, l = .lineComment text ∧ taken? lineComment source = some text) ∨
      (∃ text, l = .blockComment text ∧ taken? blockComment source = some text) ∨
      ∃ c, l = .char c ∧ source.head? = some c := by
  unfold lexeme? at first
  cases string : taken? (.rule .stringLiteral) source with
  | some text =>
    rw [string] at first
    cases first
    exact .inl ⟨text, rfl, rfl⟩
  | none =>
    cases line : taken? lineComment source with
    | some text =>
      rw [string, line] at first
      cases first
      exact .inr (.inl ⟨text, rfl, rfl⟩)
    | none =>
      cases block : taken? blockComment source with
      | some text =>
        rw [string, line, block] at first
        cases first
        exact .inr (.inr (.inl ⟨text, rfl, rfl⟩))
      | none =>
        rw [string, line, block] at first
        obtain ⟨c, next, rfl⟩ := Option.map_eq_some_iff.1 first
        exact .inr (.inr (.inr ⟨c, rfl, next⟩))

/-- What takes some text takes some characters. -/
theorem ne_nil_of_taken? {p : Part} (moves : grammar.Moves p) {source text : List Char}
    (taken : taken? p source = some text) : text ≠ [] := by
  obtain ⟨stop, nodes, found, takes⟩ := read_of_taken? taken
  exact fun none => moves _ _ _ _ found (takes.stays_iff.2 none)

theorem text_ne_nil {source : List Char} {l : Lexeme} (first : lexeme? source = some l) :
    l.text ≠ [] := by
  have moves {p : Part} (moves : p.moves (fun name => name = .stringLiteral) = true) :
      grammar.Moves p :=
    Grammar.moves_of_closed (fun name known => by rw [of_decide_eq_true known]; rfl) moves
  rcases lexeme?_cases first with ⟨_, rfl, taken⟩ | ⟨_, rfl, taken⟩ | ⟨_, rfl, taken⟩ | ⟨c, rfl, _⟩
  · exact ne_nil_of_taken? (moves rfl) taken
  · exact ne_nil_of_taken? (moves rfl) taken
  · exact ne_nil_of_taken? (moves rfl) taken
  · exact List.cons_ne_nil c []

theorem Lexed.lexemesWithin_eq {source : List Char} {ls : List Lexeme} (lexed : Lexed source ls [])
    {rounds : Nat} (enough : source.length ≤ rounds) : lexemesWithin rounds source = ls := by
  generalize eq : ([] : List Char) = stop at lexed
  induction lexed generalizing rounds with
  | nil source =>
    subst eq
    cases rounds <;> rfl
  | @cons l ls rest _ first _ _ ih =>
    have some : 0 < l.text.length := List.length_pos_iff.2 (text_ne_nil first)
    rw [List.length_append] at enough
    obtain ⟨rounds, rfl⟩ : ∃ n, rounds = n + 1 := Nat.exists_eq_add_one.2 (by omega)
    rw [lexemesWithin, first]
    dsimp only
    rw [List.drop_left, ih (by omega) eq]

theorem Lexed.lexemes_eq {source : List Char} {ls : List Lexeme} (lexed : Lexed source ls []) :
    lexemes source = ls := lexed.lexemesWithin_eq (Nat.le_refl _)

end ScriptEngine.Script
