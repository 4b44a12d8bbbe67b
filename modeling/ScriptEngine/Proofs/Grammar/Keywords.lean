import Mathlib.Logic.Relation
import ScriptEngine.Proofs.Grammar.Bound
import ScriptEngine.Proofs.Grammar.Nesting
import ScriptEngine.Proofs.Grammar.Derivation
import ScriptEngine.Proofs.Grammar.Spelling
import ScriptEngine.Proofs.Grammar.Words

/-!
# The ends of keywords

Without a tokenizer, a keyword is a text of a pattern like any other, and that it does not go on has
to be said where it stands. `Grammar.Uses` says that a match has read a text of its pattern;
`wholeWords` looks through a pattern for words that nothing keeps from going on, and finds none in
the rules of scripts but the `get` and the `set` that accessor properties begin with
(`wholeWords_pattern`).

Main result: in a script that was parsed every keyword is a whole word, except exactly in those
accessor properties that have a name written right behind the word, as in `getx() { }`, which is an
accessor of `x` (`whole_words_iff`).
-/
namespace ScriptEngine

section

variable {Rule : Type}

/-! ## The parts of a tree -/

mutual

/-- The node and all that is below it. -/
def Node.parts : Node Rule → List (Node Rule)
  | .token rule span text => [.token rule span text]
  | .branch rule span children => .branch rule span children :: Node.allParts children

def Node.allParts : List (Node Rule) → List (Node Rule)
  | [] => []
  | node :: rest => node.parts ++ Node.allParts rest

end

theorem Node.mem_allParts {part : Node Rule} {nodes : List (Node Rule)} :
    part ∈ Node.allParts nodes ↔ ∃ node ∈ nodes, part ∈ node.parts := by
  induction nodes with
  | nil => simp [Node.allParts]
  | cons node rest ih => simp [Node.allParts, ih]

namespace Grammar

variable {g : Grammar Rule} {source : List Char} {p q item : Pattern Rule} {here stop : Cursor}
  {nodes : List (Node Rule)}

theorem Derived.parts {node : Node Rule} (derived : g.Derived source node) :
    ∀ part ∈ node.parts, g.Derived source part := by
  induction derived with
  | @node depth name start stop children within found inside ih =>
    have whole := Derived.node within found inside
    cases token : g.isToken name with
    | true =>
      obtain ⟨text, eq⟩ : ∃ text, g.node name start stop children =
          .token name ⟨start.offset, stop.offset⟩ text := ⟨_, if_pos token⟩
      rw [eq] at whole ⊢
      exact List.forall_mem_singleton.2 whole
    | false =>
      rw [node_of_branch token] at whole ⊢
      refine List.forall_mem_cons.2 (And.intro whole fun part mem => ?_)
      obtain ⟨child, isChild, mem⟩ := Node.mem_allParts.1 mem
      exact ih child isChild part mem

/-! ## The texts that a match reads -/

/-- In the course of a match of the pattern at a cursor, the text between the first two cursors is
read as a text of the pattern. What lookaheads read does not count, nor what is read for the rules
in the pattern. -/
inductive Uses (g : Grammar Rule) (chars : List Char) (first last : Cursor) :
    Pattern Rule → Cursor → Prop where
  | text (takes : first.Takes chars last) : Uses g chars first last (.text chars) first
  | front {p q : Pattern Rule} {here : Cursor} (used : Uses g chars first last p here) :
    Uses g chars first last (.seq p q) here
  | back {p q : Pattern Rule} {here middle : Cursor} {nodes : List (Node Rule)}
    (found : g.Matches p here middle nodes) (used : Uses g chars first last q middle) :
    Uses g chars first last (.seq p q) here
  | left {p q : Pattern Rule} {here middle : Cursor} {nodes : List (Node Rule)}
    (found : g.Matches p here middle nodes) (used : Uses g chars first last p here) :
    Uses g chars first last (.alt p q) here
  | right {p q : Pattern Rule} {here : Cursor} (failed : g.Fails p here)
    (used : Uses g chars first last q here) : Uses g chars first last (.alt p q) here
  | round {item : Pattern Rule} {here start stop : Cursor} {nodes : List (Node Rule)}
    (before : Relation.ReflTransGen (fun a b => ∃ nodes, g.Matches item a b nodes) here start)
    (found : g.Matches item start stop nodes) (used : Uses g chars first last item start) :
    Uses g chars first last (.many item) here
  | given {item : Pattern Rule} {here stop : Cursor} {nodes : List (Node Rule)}
    (found : g.Matches item here stop nodes) (used : Uses g chars first last item here) :
    Uses g chars first last (.optional item) here

theorem Uses.takes {chars : List Char} {first last : Cursor}
    (used : g.Uses chars first last p here) : first.Takes chars last := by
  induction used with
  | text takes => exact takes
  | front _ ih | back _ _ ih | left _ _ ih | right _ _ ih | round _ _ _ ih | given _ _ ih =>
    exact ih

end Grammar

/-- The second pattern is the first one, and then some more. -/
inductive Pattern.Opens (p : Pattern Rule) : Pattern Rule → Prop where
  | refl : Opens p p
  | seq {q r : Pattern Rule} (opens : Opens p q) : Opens p (.seq q r)

namespace Pattern.Opens

variable {g : Grammar Rule} {p q : Pattern Rule} {here stop : Cursor}

theorem of_matches {nodes : List (Node Rule)} (opens : p.Opens q)
    (whole : g.Matches q here stop nodes) :
    ∃ middle before after, g.Matches p here middle before ∧ nodes = before ++ after := by
  induction opens generalizing stop nodes with
  | refl => exact ⟨stop, nodes, [], whole, (List.append_nil _).symm⟩
  | seq _ ih =>
    obtain ⟨_, _, after, first, -, eq⟩ := whole.of_seq
    obtain ⟨middle, before, between, found, eq'⟩ := ih first
    exact ⟨middle, before, between ++ after, found, by rw [eq, eq', List.append_assoc]⟩

theorem uses {chars : List Char} {first last : Cursor} (opens : p.Opens q)
    (used : g.Uses chars first last p here) : g.Uses chars first last q here := by
  induction opens with
  | refl => exact used
  | seq _ ih => exact ih.front

end Pattern.Opens

/-- The node was made of its place in the source by matching the pattern of its rule, and the match
has read the text between the two cursors as a text of the pattern. -/
def Node.Uses (g : Grammar Rule) (source : List Char) (node : Node Rule) (chars : List Char)
    (first last : Cursor) : Prop :=
  ∃ here stop children, here.Within source ∧ node = g.node node.rule here stop children ∧
    g.Matches (g.pattern node.rule) here stop children ∧
      g.Uses chars first last (g.pattern node.rule) here

end

namespace Script

/-! ## Words that cannot go on -/

/-- A name of more than one letter; the marks of exponents are no words. -/
def isWord (chars : List Char) : Bool := isName chars && 1 < chars.length

/-- Whether the pattern fails in front of everything that a name can go on with. -/
def refusesNames (p : Part) : Bool :=
  nameParts.all fun c => grammar.foresee false 200 p [c] = .fails

/-- Whether the words that a match of the pattern reads cannot go on. That no name goes on behind
the match is known if the pattern is `guarded`; a word that is `exempt` may begin the pattern. -/
def wholeWords : (exempt : Option (List Char)) → (guarded : Bool) → Part → Bool
  | exempt, guarded, .text chars => guarded || !isWord chars || exempt == some chars
  | exempt, guarded, .seq first second =>
    (wholeWords exempt false first || refusesNames second && wholeWords exempt true first) &&
      wholeWords none guarded second
  | exempt, guarded, .alt first second =>
    wholeWords exempt guarded first && wholeWords exempt guarded second
  | exempt, guarded, .optional item => wholeWords exempt guarded item
  | _, _, .many item => wholeWords none false item
  | _, _, .one _ | _, _, .ahead _ | _, _, .notAhead _ | _, _, .rule _ => true

section

variable {p : Part} {here stop first last : Cursor} {nodes : List (Node Rule)} {chars : List Char}

theorem endsName_of_refusesNames (refuses : refusesNames p = true)
    (found : grammar.Matches p here stop nodes) : EndsName here.rest := by
  intro c begins
  obtain ⟨rest, eq⟩ := List.head?_eq_some_iff.1 begins
  -- In front of a character that names go on with, the pattern would fail.
  by_contra goesOn
  have part : isNamePart c = true := by simpa using goesOn
  have fails := of_decide_eq_true (List.all_eq_true.1 refuses c (mem_nameParts part))
  have refused : grammar.Refuses p ([c] ++ rest) := Grammar.refuses_of_foresee [c] fails
  exact found.not_fails (refused here eq)

/-- The words that a match reads are whole, but for the exempted word at its beginning. -/
theorem endsName_of_uses {exempt : Option (List Char)} {guarded : Bool}
    (used : grammar.Uses chars first last p here) (word : isWord chars = true)
    (found : grammar.Matches p here stop nodes) (whole : wholeWords exempt guarded p = true)
    (behind : guarded = true → EndsName stop.rest) :
    EndsName last.rest ∨ exempt = some chars ∧ first = here := by
  induction used generalizing exempt guarded stop nodes with
  | text takes =>
    obtain rfl := takes.unique found.of_text
    simp only [wholeWords, word, Bool.not_true, Bool.or_false, Bool.or_eq_true, beq_iff_eq] at whole
    rcases whole with known | free
    · exact .inl (behind known)
    · exact .inr ⟨free, rfl⟩
  | front _ ih =>
    obtain ⟨middle, _, _, found, next, -⟩ := found.of_seq
    simp only [wholeWords, Bool.and_eq_true, Bool.or_eq_true] at whole
    obtain ⟨alone | ⟨refuses, guarded⟩, -⟩ := whole
    · exact ih found alone nofun
    -- What follows has matched, so it stands in front of nothing that a name goes on with.
    · exact ih found guarded fun _ => endsName_of_refusesNames refuses next
  | back found' _ ih =>
    obtain ⟨middle, _, _, found, next, -⟩ := found.of_seq
    obtain ⟨rfl, -⟩ := found'.unique found
    obtain ⟨-, later⟩ := Bool.and_eq_true_iff.1 whole
    rcases ih next later behind with ends | ⟨never, -⟩
    · exact .inl ends
    · cases never
  | left found' _ ih =>
    obtain ⟨left, -⟩ := Bool.and_eq_true_iff.1 whole
    obtain ⟨rfl, -⟩ := found.unique found'.alt_left
    exact ih found' left behind
  | right failed _ ih =>
    obtain ⟨-, right⟩ := Bool.and_eq_true_iff.1 whole
    exact ih (found.of_alt failed) right behind
  | round _ found' _ ih =>
    rcases ih found' whole nofun with ends | ⟨never, -⟩
    · exact .inl ends
    · cases never
  | given found' _ ih =>
    obtain ⟨rfl, -⟩ := found.unique found'.optional
    exact ih found' whole behind

end

/-! ## Accessor properties -/

/-- The word that the properties of a rule begin with, if they are accessors. -/
def accessorWord : Rule → Option (List Char)
  | .getterProperty => some "get".toList
  | .setterProperty => some "set".toList
  | _ => none

/-- No word of a rule can go on but the one that an accessor begins with. -/
theorem wholeWords_pattern (rule : Rule) :
    wholeWords (accessorWord rule) false (pattern rule) = true := by
  cases rule with
  | binary level | operator level => cases level <;> decide
  | _ => decide

/-- Whether the node is an accessor property whose word is followed at once by a name, or by a
number that begins with a digit. -/
def runsOn (source : List Char) (node : Node Rule) : Bool :=
  match accessorWord node.rule, node.children.head? with
  | some word, some name =>
    name.span.start == node.span.start + byteLength word &&
      (name.span.slice source).head?.any isNamePart
  | _, _ => false

section

variable {source word : List Char} {rule : Rule} {here stop after : Cursor}
  {children : List (Node Rule)}

theorem opens_accessor (accessor : accessorWord rule = some word) :
    (Pattern.text word ++ gap ++ .rule .propertyName : Part).Opens (pattern rule) := by
  cases rule with
  | getterProperty =>
    cases accessor
    exact .seq (.seq (.seq (.seq (.seq (.seq .refl)))))
  | setterProperty =>
    cases accessor
    exact .seq (.seq (.seq (.seq .refl)))
  | _ => cases accessor

/-- In front of what a name goes on with there is no gap. -/
theorem eq_of_matches_gap {start : Cursor} {nodes : List (Node Rule)} {c : Char}
    (begins : after.rest.head? = some c) (part : isNamePart c = true)
    (blank : grammar.Matches gap after start nodes) : start = after := by
  have nothing :
      (nameParts.all fun c => grammar.foresee false 200 gap [c] = .leaves [c] true) = true := by
    decide
  have leaves := of_decide_eq_true (List.all_eq_true.1 nothing c (mem_nameParts part))
  obtain ⟨rest, eq⟩ := List.head?_eq_some_iff.1 begins
  have skips : grammar.Skips gap (c :: rest) (c :: rest) := Grammar.skips_of_foresee [c] [c] leaves
  obtain ⟨start', _, stays, blank', -⟩ := skips after eq
  obtain ⟨rfl, -⟩ := blank.unique blank'
  -- What is left of the text is the same, so nothing was taken.
  obtain ⟨taken, takes⟩ := blank.takes
  have empty : taken = [] := by
    have lengths := congrArg List.length takes.rest
    rw [eq, stays, List.length_append] at lengths
    exact List.length_eq_zero_iff.1 (by omega)
  rw [empty] at takes
  exact takes.unique (.refl after)

theorem isToken_of_accessor (accessor : accessorWord rule = some word) : isToken rule = false := by
  cases rule with
  | getterProperty | setterProperty => rfl
  | _ => cases accessor

/-- An accessor property begins with its word, a gap and a name, which is its first part. -/
theorem front_of_accessor (accessor : accessorWord rule = some word)
    (found : grammar.Matches (pattern rule) here stop children) (takes : here.Takes word after) :
    ∃ start last inside, grammar.Matches gap after start [] ∧
      grammar.Matches (.rule .propertyName) start last
        [.branch .propertyName ⟨start.offset, last.offset⟩ inside] ∧
          children.head? = some (.branch .propertyName ⟨start.offset, last.offset⟩ inside) := by
  obtain ⟨last, _, others, front, rfl⟩ := (opens_accessor accessor).of_matches found
  obtain ⟨start, _, _, before, named, rfl⟩ := front.of_seq
  obtain ⟨middle, made, made', text, blank, rfl⟩ := before.of_seq
  obtain rfl := takes.unique text.of_text
  -- Neither the word nor the gap makes nodes.
  obtain rfl : made = [] := text.elim fun _ text => Grammar.nil_of_rules rfl text
  obtain rfl : made' = [] := blank.elim fun _ blank => Grammar.nil_of_rules rfl blank
  obtain ⟨depth, read⟩ := named
  obtain ⟨_, inside, rfl, inner, rfl⟩ := Grammar.read_rule_matched.1 read
  rw [Grammar.node_of_branch rfl] at read ⊢
  exact ⟨start, last, inside, blank, ⟨_, read⟩, rfl⟩

/-- The word of an accessor is whole, unless it runs on into the name. -/
theorem endsName_iff_of_accessor (accessor : accessorWord rule = some word)
    (within : here.Within source) (found : grammar.Matches (pattern rule) here stop children)
    (takes : here.Takes word after) :
    EndsName after.rest ↔ runsOn source (grammar.node rule here stop children) = false := by
  obtain ⟨start, last, inside, blank, named, first⟩ := front_of_accessor accessor found takes
  obtain ⟨skipped, skips⟩ := blank.takes
  obtain ⟨name, spelled⟩ := named.takes
  have slice := ((within.takes takes).takes skips).slice spelled
  rw [Grammar.node_of_branch (isToken_of_accessor accessor)]
  simp only [runsOn, Node.rule, Node.children, Node.span, accessor, first]
  rw [slice, ← takes.offset]
  obtain ⟨c, more, rfl⟩ : ∃ c more, name = c :: more := by
    obtain ⟨depth, read⟩ := named
    have moves : grammar.Moves (.rule .propertyName) := Grammar.moves_of_closed moves_pattern rfl
    exact List.exists_cons_of_ne_nil fun none => moves _ _ _ _ read (spelled.stays_iff.2 none)
  have begins : start.rest.head? = some c := by rw [spelled.rest]; rfl
  by_cases joined : start.offset = after.offset
  · have none : skipped = [] := skips.stays_iff.1 joined
    rw [none] at skips
    obtain rfl := skips.unique (.refl after)
    simp [EndsName, begins]
  -- Behind a gap that is not empty nothing is left to run on into.
  · refine iff_of_true (fun c begins => ?_) (by simp [joined])
    by_contra goesOn
    have part : isNamePart c = true := by simpa using goesOn
    exact joined (congrArg Cursor.offset (eq_of_matches_gap begins part blank))

theorem isWord_of_accessor (accessor : accessorWord rule = some word) : isWord word = true := by
  cases rule with
  | getterProperty | setterProperty =>
    cases accessor
    decide
  | _ => cases accessor

/-- An accessor property reads its word. -/
theorem uses_of_accessor {node : Node Rule} (derived : grammar.Derived source node)
    (accessor : accessorWord node.rule = some word) :
    ∃ first last, node.Uses grammar source word first last ∧
      (EndsName last.rest ↔ runsOn source node = false) := by
  cases derived with
  | @node depth name start stop children within read inside =>
    rw [Grammar.rule_node] at accessor
    have found : grammar.Matches (pattern name) start stop children := ⟨depth, read⟩
    have opens := opens_accessor accessor
    obtain ⟨_, _, _, front, -⟩ := opens.of_matches found
    obtain ⟨_, _, _, before, -, -⟩ := front.of_seq
    obtain ⟨last, _, _, text, -, -⟩ := before.of_seq
    refine ⟨start, last, ⟨start, stop, children, within, ?_, ?_, ?_⟩, ?_⟩
    · rw [Grammar.rule_node]
    · rwa [Grammar.rule_node]
    · rw [Grammar.rule_node]
      exact opens.uses (.front (.front (.text text.of_text)))
    · exact endsName_iff_of_accessor accessor within found text.of_text

/-! ## The words of a script -/

/-- In a script that was parsed, the words that a node was read with are whole, unless the node is
an accessor property whose word runs on into its name. -/
theorem whole_words_iff {script node : Node Rule} (parsed : parse source = .ok script)
    (part : node ∈ script.parts) :
    (∀ chars first last, isWord chars = true → node.Uses grammar source chars first last →
      EndsName last.rest) ↔ runsOn source node = false := by
  constructor
  · intro whole
    cases accessor : accessorWord node.rule with
    | none => simp [runsOn, accessor]
    | some word =>
      have derived := (Grammar.parse_derived parsed).parts node part
      obtain ⟨first, last, uses, ends⟩ := uses_of_accessor derived accessor
      exact ends.1 (whole word first last (isWord_of_accessor accessor) uses)
  · rintro apart chars first last word ⟨here, stop, children, within, eq, found, used⟩
    rcases endsName_of_uses used word found (wholeWords_pattern node.rule) nofun with
      ends | ⟨accessor, rfl⟩
    · exact ends
    · rw [eq] at apart
      exact (endsName_iff_of_accessor accessor within found used.takes).2 apart

/-- A script with words of statements, operators and accessors, none of which runs on. -/
def spacedWords : List Char :=
  "if (typeof x) (\x7bget x() \x7b \x7d, set 'y'(v) \x7b \x7d, getx: 1\x7d)".toList

/-- The script parses, and each of its parts has been read with whole words if and only if it is no
accessor whose word runs on. -/
theorem whole_words_iff_spaced :
    ∃ script, parse spacedWords = .ok script ∧ ∀ node ∈ script.parts,
      (∀ chars first last, isWord chars = true → node.Uses grammar spacedWords chars first last →
        EndsName last.rest) ↔ runsOn spacedWords node = false := by
  obtain ⟨script, parsed⟩ := exists_parsed spacedWords (by decide +kernel)
  exact ⟨script, parsed, fun node part => whole_words_iff parsed part⟩

/-- A property that is written with one identifier. -/
def gluedGetter : List Char := "(\x7bgetx()\x7b return 1 \x7d\x7d)".toList

/-- What is written `getx` is read as the word `get` and the name `x`. -/
theorem get_runs_on :
    ∃ script, parse gluedGetter = .ok script ∧ ∃ node ∈ script.parts, node.rule = .getterProperty ∧
      ∃ first last, node.Uses grammar gluedGetter "get".toList first last ∧
        ¬ EndsName last.rest := by
  have found : (match parse gluedGetter with
      | .ok script => script.parts.any fun node =>
          node.rule = .getterProperty && runsOn gluedGetter node
      | .error _ => false) = true := by decide +kernel
  split at found
  · next script parsed =>
    obtain ⟨node, part, getter⟩ := List.any_eq_true.1 found
    obtain ⟨getter, runs⟩ := Bool.and_eq_true_iff.1 getter
    have getter := of_decide_eq_true getter
    have derived := (Grammar.parse_derived parsed).parts node part
    have accessor : accessorWord node.rule = some "get".toList := by rw [getter]; rfl
    obtain ⟨first, last, uses, ends⟩ := uses_of_accessor derived accessor
    refine ⟨script, parsed, node, part, getter, first, last, uses, fun whole => ?_⟩
    rw [ends.1 whole] at runs
    cases runs
  · cases found

end

end Script

end ScriptEngine
