import ScriptEngine.Source.Position

/-!
# Patterns

A grammar is data: each of its rules has a pattern, and one matcher gives all of them their
meaning. Choice is ordered, repetition takes as much as it can and never gives anything back, and
there is no white space but what a pattern spells out.

The matcher also keeps the *reach* of the run: the largest offset at which a rule was tried and
did not match. When the text as a whole does not match, this is the place to complain about.
What happens inside a negative lookahead does not count.

The matcher recurses on patterns and, through rules, on a natural number that bounds the nesting
of rules; `Grammar.parse` supplies a bound that the text cannot exceed.
-/
namespace ScriptEngine

/-- A pattern over rules of type `Rule`. -/
inductive Pattern (Rule : Type) where
  /-- One character of a class. -/
  | one (accepts : Char → Bool)
  /-- These characters. -/
  | text (chars : List Char)
  | seq (first second : Pattern Rule)
  /-- The second pattern is tried only if the first does not match. -/
  | alt (first second : Pattern Rule)
  /-- Any number of times, as often as it matches. -/
  | many (item : Pattern Rule)
  | optional (item : Pattern Rule)
  /-- Matches nothing, provided that the pattern matches here. -/
  | ahead (item : Pattern Rule)
  /-- Matches nothing, provided that the pattern does not match here. -/
  | notAhead (item : Pattern Rule)
  | rule (name : Rule)

/--
A node of the concrete tree. A token rule has its text and nothing below it; any other rule has
the nodes of the rules that matched inside.
-/
inductive Node (Rule : Type) where
  | token (rule : Rule) (span : Span) (text : String)
  | branch (rule : Rule) (span : Span) (children : List (Node Rule))

namespace Node

variable {Rule : Type}

def rule : Node Rule → Rule
  | token rule .. => rule
  | branch rule .. => rule

def span : Node Rule → Span
  | token _ span _ => span
  | branch _ span _ => span

def children : Node Rule → List (Node Rule)
  | token .. => []
  | branch _ _ children => children

/-- The text of a token. -/
def text : Node Rule → String
  | token _ _ text => text
  | branch .. => ""

end Node

/-- A place in the text: what is left of it, and how many bytes precede. -/
structure Cursor where
  rest : List Char
  offset : Nat

/-- How a match ends: at a cursor with the nodes it made, not at all, or because the bound on the
nesting of rules was met. -/
inductive Match (Rule : Type) where
  | matched (stop : Cursor) (nodes : List (Node Rule))
  | failed
  | exhausted

/-- A match together with the reach of the run so far. -/
abbrev Matched (Rule : Type) := Match Rule × Nat

/-- Something that can be matched at a cursor, given the reach so far. -/
abbrev Matcher (Rule : Type) := Cursor → Nat → Matched Rule

/-- What is left after the given characters, if the text begins with them. -/
def Cursor.skip? (c : Cursor) (chars : List Char) : Option Cursor :=
  match chars, c.rest with
  | [], _ => some c
  | x :: xs, y :: ys => if x = y then skip? ⟨ys, c.offset + y.utf8Size⟩ xs else none
  | _ :: _, [] => none
termination_by structural chars

/-- Repeats a matcher until it does not match or does not move; the nodes are collected in
reverse. -/
def Matcher.repeat {Rule : Type} (item : Matcher Rule) :
    (rounds : Nat) → (nodes : List (Node Rule)) → Matcher Rule
  | 0, _, _, reach => (.exhausted, reach)
  | rounds + 1, nodes, here, reach =>
    match item here reach with
    | (.matched stop new, reach) =>
      if stop.offset = here.offset then (.matched here nodes.reverse, reach)
      else Matcher.repeat item rounds (new.reverse ++ nodes) stop reach
    | (.failed, reach) => (.matched here nodes.reverse, reach)
    | (.exhausted, reach) => (.exhausted, reach)

/-- Matches a pattern, given how to match the rules in it. -/
def Pattern.run {Rule : Type} (call : Rule → Matcher Rule) : Pattern Rule → Matcher Rule
  | .one accepts, here, reach =>
    match here.rest with
    | c :: rest =>
      if accepts c then (.matched ⟨rest, here.offset + c.utf8Size⟩ [], reach) else (.failed, reach)
    | [] => (.failed, reach)
  | .text chars, here, reach =>
    match here.skip? chars with
    | some stop => (.matched stop [], reach)
    | none => (.failed, reach)
  | .seq first second, here, reach =>
    match first.run call here reach with
    | (.matched middle before, reach) =>
      match second.run call middle reach with
      | (.matched stop after, reach) => (.matched stop (before ++ after), reach)
      | result => result
    | result => result
  | .alt first second, here, reach =>
    match first.run call here reach with
    | (.failed, reach) => second.run call here reach
    | result => result
  | .many item, here, reach => Matcher.repeat (item.run call) (here.rest.length + 1) [] here reach
  | .optional item, here, reach =>
    match item.run call here reach with
    | (.failed, reach) => (.matched here [], reach)
    | result => result
  | .ahead item, here, reach =>
    match item.run call here reach with
    | (.matched _ _, reach) => (.matched here [], reach)
    | result => result
  | .notAhead item, here, reach =>
    match item.run call here reach with
    | (.matched _ _, _) => (.failed, reach)
    | (.failed, _) => (.matched here [], reach)
    | (.exhausted, _) => (.exhausted, reach)
  | .rule name, here, reach => call name here reach

/-- A grammar: a pattern for each rule, and which rules are tokens. -/
structure Grammar (Rule : Type) where
  pattern : Rule → Pattern Rule
  isToken : Rule → Bool
  /-- How deep rules can nest at one place in the text. -/
  height : Nat

namespace Grammar

variable {Rule : Type}

/-- The node of a rule that matched from one cursor to another. -/
def node (g : Grammar Rule) (name : Rule) (start stop : Cursor) (children : List (Node Rule)) :
    Node Rule :=
  let span : Span := ⟨start.offset, stop.offset⟩
  if g.isToken name then
    .token name span (String.ofList (takeBytes (stop.offset - start.offset) start.rest))
  else .branch name span children

/-- Matches a rule, with a bound on the nesting of rules. A rule that does not match extends the
reach up to the place where it was tried. -/
def matchRule (g : Grammar Rule) : (depth : Nat) → Rule → Matcher Rule
  | 0, _, _, reach => (.exhausted, reach)
  | depth + 1, name, here, reach =>
    match (g.pattern name).run (g.matchRule depth) here reach with
    | (.matched stop children, reach) => (.matched stop [g.node name here stop children], reach)
    | (.failed, reach) => (.failed, max reach here.offset)
    | (.exhausted, reach) => (.exhausted, reach)

/-- A bound on the nesting of rules: at most `height` of them start at any place of the text. -/
def depthBound (g : Grammar Rule) (source : List Char) : Nat := g.height * (source.length + 1)

/-- Matches a rule at the beginning of a text: its node, or the offset to complain about. -/
def parse (g : Grammar Rule) (name : Rule) (source : List Char) : Except Nat (Node Rule) :=
  match g.matchRule (g.depthBound source) name ⟨source, 0⟩ 0 with
  | (.matched _ [node], _) => .ok node
  | (_, reach) => .error reach

end Grammar

end ScriptEngine
