import ScriptEngine.Proofs.Grammar.Bound
import ScriptEngine.Proofs.Grammar.Spelling
import ScriptEngine.Proofs.Grammar.Words

/-!
# Identifiers

An identifier is a name that is no reserved word, and the rule asks for that in front of the name: a
choice between the reserved words, the first of which that the text begins with counts, and that the
word does not go on. The choice does not come back for a second word, so a reserved word is only
recognized if no shorter one that it begins with is tried before it. Of the reserved words, `in` and
`instanceof` are the only such pair (`eq_of_begins`).

Main result: the rule matches all of a text exactly if the text is a name and no reserved word, and
any order of the words that has `instanceof` before `in` would do as well (`identifiers_iff`).
-/
namespace ScriptEngine.Script

/-- The text is a letter, a dollar sign or an underscore with any number of these and of digits
behind it. Letters and digits are those of ASCII. -/
def IsName (text : String) : Prop :=
  ∃ c rest, text.toList = c :: rest ∧ (c.isAlpha ∨ c = '$' ∨ c = '_') ∧
    ∀ d ∈ rest, d.isAlphanum ∨ d = '$' ∨ d = '_'

/-- The pattern of identifiers, if these are the reserved words, in this order. -/
def identifierAmong (words : List String) : Part := .notAhead (anyOf words ++ wordEnd) ++ name

theorem pattern_identifier : pattern .identifier = identifierAmong reservedWords := rfl

/-- The pattern matches all of a text. -/
def MatchesAll (p : Part) (text : String) : Prop :=
  ∃ stop nodes, grammar.Matches p ⟨text.toList, 0⟩ stop nodes ∧ stop.rest = []

/-! ## Names -/

theorem isLetter_eq_isAlpha (c : Char) : isLetter c = c.isAlpha := by
  have lower : ('a' ≤ c && c ≤ 'z') = c.isLower := rfl
  have upper : ('A' ≤ c && c ≤ 'Z') = c.isUpper := (Bool.decide_and _ _).symm
  rw [isLetter, lower, upper]
  exact Bool.or_comm _ _

theorem isNameStart_iff {c : Char} :
    isNameStart c = true ↔ c.isAlpha ∨ c = '$' ∨ c = '_' := by
  rw [isNameStart, isLetter_eq_isAlpha, Bool.or_eq_true, Bool.or_eq_true, beq_iff_eq, beq_iff_eq,
    or_assoc]

theorem isNamePart_iff {c : Char} :
    isNamePart c = true ↔ c.isAlphanum ∨ c = '$' ∨ c = '_' := by
  rw [isNamePart, Bool.or_eq_true, isNameStart_iff, Char.isAlphanum, Bool.or_eq_true]
  exact or_right_comm

theorem isName_iff {text : String} : isName text.toList = true ↔ IsName text := by
  unfold isName IsName
  cases text.toList with
  | nil => simp
  | cons c rest => simp [isNameStart_iff, isNamePart_iff]

/-- What the pattern of names takes is a name. -/
theorem isName_of_writes {taken : List Char} (writes : name.Writes taken) : isName taken = true := by
  obtain ⟨_, parts, rfl, ⟨c, start, rfl⟩, writes⟩ := writes
  exact Bool.and_eq_true_iff.2
    ⟨start, List.all_eq_true.2 (Pattern.forall_of_writes_many writes)⟩

section

variable {text : String} {words : List String}

/-- A token has all of a text as its own if its pattern matches all of it. -/
theorem parse_token_iff {rule : Rule} (token : grammar.isToken rule = true) :
    (∃ node, grammar.parse rule text.toList = .ok node ∧ node.text = text) ↔
      MatchesAll (pattern rule) text := by
  constructor
  · rintro ⟨node, parsed, whole⟩
    obtain ⟨stop, depth, found⟩ := (parse_rule_eq_ok_iff rule text.toList node).1 parsed
    obtain ⟨below, children, rfl, found, eq⟩ := Grammar.read_rule_matched.1 found
    obtain ⟨taken, takes⟩ := Grammar.read_takes found
    refine ⟨stop, children, ⟨below, found⟩, ?_⟩
    rw [List.singleton_inj.1 eq, Grammar.node_of_token token takes] at whole
    -- The token has taken the text to its end.
    have all : text.toList = taken ++ stop.rest := takes.rest
    rw [← whole, Node.text, String.toList_ofList] at all
    exact List.self_eq_append_right.1 all
  · rintro ⟨stop, children, found, ends⟩
    obtain ⟨taken, takes⟩ := found.takes
    have all : text.toList = taken ++ stop.rest := takes.rest
    rw [ends, List.append_nil] at all
    refine ⟨_, (parse_rule_eq_ok_iff rule text.toList _).2 ⟨stop, found.rule⟩, ?_⟩
    rw [Grammar.node_of_token token takes, ← all, Node.text, String.ofList_toList]

/-! ## Reserved words -/

/-- Where the choice comes to a word at the end of the text, the word is recognized as reserved. -/
theorem skips_reserved (first : firstWord? words text.toList = some text) :
    grammar.Skips (anyOf words ++ wordEnd) text.toList [] := by
  obtain ⟨after, eq, skips⟩ := skips_anyOf first
  obtain rfl := List.self_eq_append_right.1 eq
  exact skips.seq (skips_wordEnd .nil)

/-- All of a text is matched if it is a name that the choice does not come to. -/
theorem matchesAll_identifierAmong_iff
    (parts : (words.all fun word => word.toList.all isNamePart) = true) :
    MatchesAll (identifierAmong words) text ↔
      IsName text ∧ firstWord? words text.toList ≠ some text := by
  rw [← isName_iff]
  constructor
  · rintro ⟨stop, nodes, found, ends⟩
    obtain ⟨middle, _, _, before, ⟨depth, after⟩, -⟩ := Grammar.Matches.of_seq found
    obtain ⟨rfl, failed⟩ := before.of_notAhead
    obtain ⟨taken, takes, writes⟩ := Grammar.writes_of_read after
    have all : text.toList = taken ++ stop.rest := takes.rest
    rw [ends, List.append_nil] at all
    refine ⟨all ▸ isName_of_writes writes, fun first => ?_⟩
    -- The lookahead has failed, so the text is none of the words.
    obtain ⟨_, _, -, found, -⟩ := skips_reserved first ⟨text.toList, 0⟩ rfl
    exact found.not_fails failed
  · rintro ⟨isName, other⟩
    have refuses := refuses_words_of_first words parts isName EndsName.nil
      (by rwa [List.append_nil, String.ofList_toList])
    obtain ⟨stop, nodes, ends, found, -⟩ :=
      refuses.notAhead.seq (skips_name isName .nil) ⟨text.toList, 0⟩ (List.append_nil _).symm
    exact ⟨stop, nodes, found, ends⟩

/-- No reserved word begins another one, except for `in` and `instanceof`. -/
theorem eq_of_begins : ∀ shorter ∈ reservedWords, ∀ word ∈ reservedWords,
    shorter.toList.isPrefixOf word.toList = true →
      shorter = word ∨ shorter = "in" ∧ word = "instanceof" := by
  decide +kernel

/-- What is found in a list stands before everything else that could have been found. -/
theorem idxOf_lt_of_find? {p : String → Bool} {first other : String}
    (found : words.find? p = some first) (fits : p other = true) (differ : other ≠ first) :
    words.idxOf first < words.idxOf other := by
  obtain ⟨-, before, after, rfl, none⟩ := List.find?_eq_some_iff_append.1 found
  have absent {word : String} (fits : p word = true) : word ∉ before := fun mem => by
    simpa [fits] using none word mem
  have itself := absent (List.find?_some found)
  rw [List.idxOf_append, List.idxOf_append, if_neg itself, if_neg (absent fits),
    List.idxOf_cons_self, List.idxOf_cons_ne _ differ.symm]
  omega

/-- In any order of the reserved words, the choice comes to each of them, but for `instanceof`
behind `in`. -/
theorem firstWord?_eq_some_iff (order : words.Perm reservedWords) :
    firstWord? words text.toList = some text ↔
      text ∈ reservedWords ∧
        ¬ (text = "instanceof" ∧ words.idxOf "in" < words.idxOf "instanceof") := by
  constructor
  · intro first
    refine ⟨order.mem_iff.1 (List.mem_of_find?_eq_some first), ?_⟩
    rintro ⟨rfl, before⟩
    have begins : "in".toList.isPrefixOf "instanceof".toList = true := by decide
    have := idxOf_lt_of_find? first begins (by decide)
    omega
  · rintro ⟨reserved, ordered⟩
    have begins : text.toList.isPrefixOf text.toList = true :=
      List.isPrefixOf_iff_prefix.2 (List.prefix_refl _)
    cases first : firstWord? words text.toList with
    | none => exact absurd begins (List.find?_eq_none.1 first text (order.mem_iff.2 reserved))
    | some shorter =>
      obtain ⟨after, eq, -⟩ := skips_anyOf first
      rcases eq_of_begins shorter (order.mem_iff.1 (List.mem_of_find?_eq_some first)) text reserved
        (List.isPrefixOf_iff_prefix.2 ⟨after, eq.symm⟩) with rfl | ⟨rfl, rfl⟩
      · rfl
      · exact absurd ⟨rfl, idxOf_lt_of_find? first begins (by decide)⟩ ordered

end

/-- The rule of identifiers matches all of a text exactly if the text is a name, with letters and
digits of ASCII, and none of the reserved words. With the reserved words in any other order it would
be the same, and only `instanceof` would become an identifier, if `in` came before it. -/
theorem identifiers_iff :
    (∀ text : String,
      (∃ node, grammar.parse .identifier text.toList = .ok node ∧ node.text = text) ↔
        IsName text ∧ text ∉ reservedWords) ∧
    ∀ order : List String, order.Perm reservedWords → ∀ text : String,
      MatchesAll (identifierAmong order) text ↔
        IsName text ∧ (text ∈ reservedWords →
          text = "instanceof" ∧ order.idxOf "in" < order.idxOf "instanceof") := by
  have among (order : List String) (perm : order.Perm reservedWords) (text : String) :
      MatchesAll (identifierAmong order) text ↔
        IsName text ∧ (text ∈ reservedWords →
          text = "instanceof" ∧ order.idxOf "in" < order.idxOf "instanceof") := by
    have parts : (order.all fun word => word.toList.all isNamePart) = true := by
      rw [perm.all_eq]
      decide
    rw [matchesAll_identifierAmong_iff parts, Ne, firstWord?_eq_some_iff perm, not_and, not_not]
  refine ⟨fun text => ?_, among⟩
  -- The rule has `instanceof` before `in`.
  have ordered : ¬ reservedWords.idxOf "in" < reservedWords.idxOf "instanceof" := by decide
  rw [parse_token_iff rfl, pattern_identifier]
  exact (among reservedWords (.refl _) text).trans (by simp only [ordered, and_false, imp_false])

/-- What goes on behind a reserved word is an identifier, even if the words are tried in reverse. -/
theorem identifiers_iff_longer :
    reservedWords.reverse.Perm reservedWords ∧
      ∀ text ∈ ["inx", "dot", "newer", "instanceofx", "thisIsIt"],
        (∃ node, grammar.parse .identifier text.toList = .ok node ∧ node.text = text) ∧
          MatchesAll (identifierAmong reservedWords.reverse) text := by
  have reversed := List.reverse_perm reservedWords
  obtain ⟨rule, among⟩ := identifiers_iff
  refine ⟨reversed, fun text mem => ?_⟩
  have free : text ∉ reservedWords := by
    revert text
    decide +kernel
  have named : isName text.toList = true := by
    revert text
    decide
  rw [rule, among _ reversed, ← isName_iff]
  exact ⟨⟨named, free⟩, named, fun reserved => absurd reserved free⟩

end ScriptEngine.Script
