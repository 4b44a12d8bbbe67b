import ScriptEngine.Grammar.Script
import ScriptEngine.Proofs.Grammar.Foresight

/-!
# Names and words

A name is told from the words of the language by its end: a word is matched only if it does not go
on, so a text that begins with a name begins with no word but that name (`refuses_words`), and a
name that is not reserved is read as an identifier (`yields_identifier`). What a name does in front
of other patterns shows from its first character, of which there are few
(`refuses_of_nameStarts`).
-/
namespace ScriptEngine.Script

/-- Whether the characters are a name. -/
def isName : List Char → Bool
  | [] => false
  | c :: rest => isNameStart c && rest.all isNamePart

/-- Whether the text may stand for a variable: a name that is no reserved word. -/
def isIdentifier (text : String) : Bool := isName text.toList && !reservedWords.contains text

/-- No name goes on at the text. -/
def EndsName (text : List Char) : Prop := ∀ c ∈ text.head?, isNamePart c = false

theorem EndsName.nil : EndsName [] := nofun

theorem EndsName.cons {c : Char} {rest : List Char} (ends : isNamePart c = false) :
    EndsName (c :: rest) := by
  rintro _ ⟨⟩
  exact ends

theorem isNamePart_of_isNameStart {c : Char} (start : isNameStart c = true) :
    isNamePart c = true := by simp [isNamePart, start]

theorem isName_all {chars : List Char} (isName : isName chars = true) :
    ∀ c ∈ chars, isNamePart c = true := by
  cases chars with
  | nil => nofun
  | cons c rest =>
    obtain ⟨start, parts⟩ := Bool.and_eq_true_iff.1 isName
    exact List.forall_mem_cons.2 ⟨isNamePart_of_isNameStart start, List.all_eq_true.1 parts⟩

section

variable {chars rest : List Char} {p : Part}

/-! ## Names -/

theorem skips_many_one {accepts : Char → Bool} (all : ∀ c ∈ chars, accepts c = true)
    (ends : ∀ c ∈ rest.head?, accepts c = false) :
    grammar.Skips (.many (.one accepts)) (chars ++ rest) rest := by
  induction chars with
  | nil => exact (Grammar.refuses_one ends).many
  | cons c chars ih =>
    obtain ⟨accepted, all⟩ := List.forall_mem_cons.1 all
    refine ((Grammar.skips_one accepted (chars ++ rest)).many (by simp) (ih all)).mono ?_
    rintro _ ⟨_, _, rfl, rfl, rfl⟩
    rfl

theorem skips_name (isName : isName chars = true) (ends : EndsName rest) :
    grammar.Skips name (chars ++ rest) rest := by
  cases chars with
  | nil => cases isName
  | cons c chars =>
    obtain ⟨start, parts⟩ := Bool.and_eq_true_iff.1 isName
    exact (Grammar.skips_one start (chars ++ rest)).seq
      (skips_many_one (List.all_eq_true.1 parts) ends)

theorem yields_identifierName (isName : isName chars = true) (ends : EndsName rest) :
    grammar.Yields (.rule .identifierName) (chars ++ rest) rest fun nodes =>
      ∃ span, nodes = [.token .identifierName span (String.ofList chars)] :=
  .token _ rfl (skips_name isName ends)

/-! ## Words -/

theorem refuses_wordEnd {c : Char} (goesOn : isNamePart c = true) :
    grammar.Refuses wordEnd (c :: rest) := (Grammar.skips_one goesOn rest).notAhead

theorem skips_wordEnd (ends : EndsName rest) : grammar.Skips wordEnd rest rest :=
  (Grammar.refuses_one ends).notAhead

/-- The first of several words that the text begins with. -/
def firstWord? (words : List String) (text : List Char) : Option String :=
  words.find? fun word => word.toList.isPrefixOf text

private theorem refuses_sign {word : String} {text : List Char}
    (other : word.toList.isPrefixOf text = false) : grammar.Refuses (sign word) text := by
  intro here eq
  refine .text fun begins => ?_
  rw [eq, ← List.isPrefixOf_iff_prefix, other] at begins
  cases begins

private theorem skips_sign {word : String} {text : List Char}
    (begins : word.toList.isPrefixOf text = true) :
    ∃ after, text = word.toList ++ after ∧ grammar.Skips (sign word) text after := by
  obtain ⟨after, rfl⟩ := List.isPrefixOf_iff_prefix.1 begins
  exact ⟨after, rfl, Grammar.skips_text _ _⟩

/-- A choice of words fails where the text begins with none of them. -/
theorem refuses_anyOf {words : List String} {text : List Char}
    (none : firstWord? words text = none) : grammar.Refuses (anyOf words) text := by
  induction words with
  | nil => exact Grammar.refuses_one fun _ _ => rfl
  | cons word words ih =>
    rw [firstWord?, List.find?_cons] at none
    split at none
    · cases none
    next other =>
      cases words with
      | nil => exact refuses_sign other
      | cons => exact (refuses_sign other).alt (ih none)

/-- A choice of words takes the first one that the text begins with, be it as short as it may. -/
theorem skips_anyOf {words : List String} {text : List Char} {word : String}
    (first : firstWord? words text = some word) :
    ∃ after, text = word.toList ++ after ∧ grammar.Skips (anyOf words) text after := by
  induction words with
  | nil => cases first
  | cons word' words ih =>
    rw [firstWord?, List.find?_cons] at first
    split at first
    next begins =>
      cases first
      obtain ⟨after, eq, skips⟩ := skips_sign begins
      cases words with
      | nil => exact ⟨after, eq, skips⟩
      | cons => exact ⟨after, eq, skips.alt_left⟩
    next other =>
      cases words with
      | nil => cases first
      | cons =>
        obtain ⟨after, eq, skips⟩ := ih first
        exact ⟨after, eq, skips.alt_right (refuses_sign other)⟩

/-- Where a name ends, a beginning of the text that is made of the characters of names is the name
itself, or the name goes on behind it. -/
private theorem goesOn_of_append {word after : List Char} (parts : ∀ c ∈ word, isNamePart c = true)
    (ends : EndsName rest) (isName : ∀ c ∈ chars, isNamePart c = true)
    (eq : chars ++ rest = word ++ after) :
    word = chars ∨ ∃ c more, isNamePart c = true ∧ after = c :: more := by
  induction chars generalizing word with
  | nil =>
    cases word with
    | nil => exact .inl rfl
    | cons c word =>
      -- The word would begin where names end.
      have begins : c ∈ rest.head? := by
        rw [show rest = c :: (word ++ after) from eq]
        rfl
      have := ends c begins
      rw [parts c List.mem_cons_self] at this
      cases this
  | cons c chars ih =>
    cases word with
    | nil => exact .inr ⟨c, chars ++ rest, isName c List.mem_cons_self, eq.symm⟩
    | cons d word =>
      obtain ⟨rfl, later⟩ := List.cons.inj eq
      rcases ih (List.forall_mem_cons.1 parts).2 (List.forall_mem_cons.1 isName).2 later with
        rfl | goesOn
      · exact .inl rfl
      · exact .inr goesOn

/-- In front of a name a choice of words does not match, unless the first of them that the text
begins with is the name itself. -/
theorem refuses_words_of_first (words : List String)
    (parts : (words.all fun word => word.toList.all isNamePart) = true)
    (isName : isName chars = true) (ends : EndsName rest)
    (other : firstWord? words (chars ++ rest) ≠ some (String.ofList chars)) :
    grammar.Refuses (anyOf words ++ wordEnd) (chars ++ rest) := by
  cases first : firstWord? words (chars ++ rest) with
  | none => exact (refuses_anyOf first).seq
  | some word =>
    obtain ⟨after, eq, skips⟩ := skips_anyOf first
    have mem := List.mem_of_find?_eq_some first
    have wordParts := List.all_eq_true.1 (List.all_eq_true.1 parts word mem)
    rcases goesOn_of_append wordParts ends (isName_all isName) eq with same | ⟨c, more, goesOn, rfl⟩
    · exact absurd (first.trans (by rw [← same, String.ofList_toList])) other
    · exact skips.refuses_seq (refuses_wordEnd goesOn)

/-- A text that begins with a name begins with none of some other words. -/
theorem refuses_words (words : List String)
    (parts : (words.all fun word => word.toList.all isNamePart) = true)
    (isName : isName chars = true) (ends : EndsName rest)
    (other : String.ofList chars ∉ words) :
    grammar.Refuses (anyOf words ++ wordEnd) (chars ++ rest) :=
  refuses_words_of_first words parts isName ends fun first =>
    other (List.mem_of_find?_eq_some first)

/-- A name that is not reserved is read as an identifier. -/
theorem yields_identifier {text : String} (isIdentifier : isIdentifier text = true)
    (ends : EndsName rest) :
    grammar.Yields identifier (text.toList ++ rest) rest fun nodes =>
      ∃ span, nodes = [.token .identifier span text] := by
  obtain ⟨isName, other⟩ := Bool.and_eq_true_iff.1 isIdentifier
  have free : text ∉ reservedWords := by simpa using other
  have refuses : grammar.Refuses reserved (text.toList ++ rest) :=
    refuses_words _ (by decide) isName ends (by rwa [String.ofList_toList])
  have reads := Grammar.Yields.token .identifier (g := grammar) rfl
    (refuses.notAhead.seq (skips_name isName ends))
  rwa [String.ofList_toList] at reads

/-! ## The first character of a name -/

theorem toNat_lt_of_isNamePart {c : Char} (part : isNamePart c = true) : c.toNat < 128 := by
  simp only [isNamePart, isNameStart, isLetter, Char.isDigit, Bool.or_eq_true, Bool.and_eq_true,
    decide_eq_true_eq, beq_iff_eq, Char.le_def, UInt32.le_iff_toNat_le] at part
  show c.val.toNat < 128
  rcases part with (((⟨_, le⟩ | ⟨_, le⟩) | rfl) | rfl) | ⟨_, le⟩
  · exact Nat.lt_of_le_of_lt le (by decide)
  · exact Nat.lt_of_le_of_lt le (by decide)
  · decide
  · decide
  · exact Nat.lt_of_le_of_lt le (by decide)

/-- The characters that names begin with. -/
def nameStarts : List Char := ((List.range 128).map Char.ofNat).filter isNameStart

/-- The characters that names go on with. -/
def nameParts : List Char := ((List.range 128).map Char.ofNat).filter isNamePart

private theorem mem_ascii {c : Char} (small : c.toNat < 128) :
    c ∈ (List.range 128).map Char.ofNat :=
  List.mem_map.2 ⟨c.toNat, List.mem_range.2 small, Char.ofNat_toNat c⟩

theorem mem_nameStarts {c : Char} (start : isNameStart c = true) : c ∈ nameStarts :=
  List.mem_filter.2
    ⟨mem_ascii (toNat_lt_of_isNamePart (isNamePart_of_isNameStart start)), start⟩

theorem mem_nameParts {c : Char} (part : isNamePart c = true) : c ∈ nameParts :=
  List.mem_filter.2 ⟨mem_ascii (toNat_lt_of_isNamePart part), part⟩

/-- What fails in front of every character that a name begins with fails in front of names. -/
theorem refuses_of_nameStarts
    (sees : (nameStarts.all fun c => grammar.foresee false 200 p [c] = .fails) = true)
    (isName : isName chars = true) : grammar.Refuses p (chars ++ rest) := by
  cases chars with
  | nil => cases isName
  | cons c chars =>
    have start := (Bool.and_eq_true_iff.1 isName).1
    have fails := of_decide_eq_true (List.all_eq_true.1 sees c (mem_nameStarts start))
    exact Grammar.refuses_of_foresee [c] fails

/-- What takes nothing in front of every character that a name begins with takes nothing in front of
names. -/
theorem skips_of_nameStarts
    (sees : (nameStarts.all fun c => grammar.foresee false 200 p [c] = .leaves [c] true) = true)
    (isName : isName chars = true) : grammar.Skips p (chars ++ rest) (chars ++ rest) := by
  cases chars with
  | nil => cases isName
  | cons c chars =>
    have start := (Bool.and_eq_true_iff.1 isName).1
    have nothing := of_decide_eq_true (List.all_eq_true.1 sees c (mem_nameStarts start))
    exact Grammar.skips_of_foresee [c] [c] nothing

end

end ScriptEngine.Script
