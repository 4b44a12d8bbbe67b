import ScriptEngine.Proofs.Tree.Connectives
import ScriptEngine.Proofs.Tree.SoleExpression

/-!
# Operator precedence

The grammar has a level for each precedence, and a list of operands with operators between them is
read through all of the levels. The reference is precedence climbing (`climbLinks`): one loop over the flat
list that takes an operator if it binds at least as tightly as asked for, and lets what binds more
tightly come first. What a level of the grammar reads is what the reference takes with the bound of
that level (`parses_level`), so a script that is such a list has the tree that the reference builds
(`read_joined`).
-/
namespace ScriptEngine.Script

/-! ## The reference -/

/-- Operators, each with the name that follows it. -/
abbrev Links := List (Connective × String)

def variableOf (name : String) : Expression := .identifier ⟨name, .nowhere⟩

/-- What climbing along some operators has come to: an expression, and the operators that are left. -/
structure Climbed (rest : Links) where
  value : Expression
  after : Links
  le : after.length ≤ rest.length

/-- Precedence climbing: joins to the left operand what follows it, as long as it binds at least as
tightly as the bound; the right operand of an operator is all that binds more tightly. -/
def climbLinks (bound : Nat) (left : Expression) : (rest : Links) → Climbed rest
  | [] => ⟨left, [], Nat.le_refl _⟩
  | (op, name) :: rest =>
    if bound ≤ op.tightness then
      match climbLinks (op.tightness + 1) (variableOf name) rest with
      | ⟨right, after, le⟩ =>
        match climbLinks bound (op.join left right) after with
        | ⟨whole, last, le'⟩ => ⟨whole, last, by rw [List.length_cons]; omega⟩
    else ⟨left, (op, name) :: rest, Nat.le_refl _⟩
termination_by rest => rest.length
decreasing_by
  · exact Nat.lt_succ_self _
  · exact Nat.lt_succ_of_le le

/-- The operands and operators with single spaces between them. -/
def joined (first : String) (rest : Links) : String :=
  first ++ String.join (rest.map fun (op, name) => " " ++ op.text ++ " " ++ name)

section

variable {bound : Nat} {left : Expression} {op : Connective} {name : String} {rest : Links}

theorem climb_nil (bound : Nat) (left : Expression) :
    (climbLinks bound left []).value = left ∧ (climbLinks bound left []).after = [] := by
  rw [climbLinks]
  exact ⟨rfl, rfl⟩

theorem climb_of_lt (left : Expression) (name : String) (rest : Links) (looser : op.tightness < bound) :
    (climbLinks bound left ((op, name) :: rest)).value = left ∧
      (climbLinks bound left ((op, name) :: rest)).after = (op, name) :: rest := by
  rw [climbLinks, if_neg (Nat.not_le.2 looser)]
  exact ⟨rfl, rfl⟩

theorem climb_of_le (left : Expression) (name : String) (rest : Links) (tight : bound ≤ op.tightness) :
    let right := climbLinks (op.tightness + 1) (variableOf name) rest
    let whole := climbLinks bound (op.join left right.value) right.after
    (climbLinks bound left ((op, name) :: rest)).value = whole.value ∧
      (climbLinks bound left ((op, name) :: rest)).after = whole.after := by
  rw [climbLinks, if_pos tight]
  exact ⟨rfl, rfl⟩

/-- The first operator binds less tightly than the bound, if there is one. -/
def Looser (bound : Nat) (rest : Links) : Prop := ∀ link ∈ rest.head?, link.1.tightness < bound

/-- Where climbing stops, the next operator binds too loosely, and what is left is the end of the
list. -/
theorem climb_after (bound : Nat) (left : Expression) (rest : Links) :
    Looser bound (climbLinks bound left rest).after ∧ (climbLinks bound left rest).after <:+ rest := by
  induction len : rest.length using Nat.strongRecOn generalizing bound left rest with
  | ind length ih =>
    cases rest with
    | nil =>
      rw [(climb_nil _ _).2]
      exact ⟨nofun, List.suffix_refl _⟩
    | cons link rest =>
      obtain ⟨op, name⟩ := link
      by_cases tight : bound ≤ op.tightness
      · rw [(climb_of_le _ _ _ tight).2]
        have short := (climbLinks (op.tightness + 1) (variableOf name) rest).le
        rw [List.length_cons] at len
        have right := ih rest.length (by omega) (op.tightness + 1) (variableOf name) rest rfl
        have whole := ih _ (Nat.lt_of_le_of_lt short (by omega)) bound
          (op.join left (climbLinks (op.tightness + 1) (variableOf name) rest).value) _ rfl
        exact ⟨whole.1, (whole.2.trans right.2).trans (List.suffix_cons ..)⟩
      · have looser := Nat.not_le.1 tight
        rw [(climb_of_lt _ _ _ looser).2]
        refine ⟨?_, List.suffix_refl _⟩
        rintro _ ⟨⟩
        exact looser

/-- Climbing with a bound is climbing with the next higher one first, and then going on from
there. -/
theorem climb_succ (bound : Nat) (left : Expression) (rest : Links) :
    let first := climbLinks (bound + 1) left rest
    (climbLinks bound left rest).value = (climbLinks bound first.value first.after).value ∧
      (climbLinks bound left rest).after = (climbLinks bound first.value first.after).after := by
  induction len : rest.length using Nat.strongRecOn generalizing left rest with
  | ind length ih =>
    cases rest with
    | nil =>
      have none := climb_nil (bound + 1) left
      dsimp only
      rw [none.1, none.2]
      exact ⟨rfl, rfl⟩
    | cons link rest =>
      obtain ⟨op, name⟩ := link
      by_cases tighter : bound + 1 ≤ op.tightness
      · -- The first operator is taken in either case, with the same right operand.
        have short := (climbLinks (op.tightness + 1) (variableOf name) rest).le
        rw [List.length_cons] at len
        have later := ih _ (Nat.lt_of_le_of_lt short (by omega))
          (op.join left (climbLinks (op.tightness + 1) (variableOf name) rest).value) _ rfl
        have taken := climb_of_le left name rest (by omega : bound ≤ op.tightness)
        have taken' := climb_of_le left name rest tighter
        dsimp only at taken taken' later ⊢
        rw [taken.1, taken.2, taken'.1, taken'.2]
        exact later
      · have stops := climb_of_lt left name rest (Nat.not_le.1 tighter)
        dsimp only
        rw [stops.1, stops.2]
        exact ⟨rfl, rfl⟩

/-- All operators bind at least as tightly as the lowest bound, so it leaves none. -/
theorem climb_one (left : Expression) (rest : Links) : (climbLinks 1 left rest).after = [] := by
  have looser := (climb_after 1 left rest).1
  cases eq : (climbLinks 1 left rest).after with
  | nil => rfl
  | cons link after =>
    rw [eq] at looser
    have never := looser link rfl
    have := link.1.tightness_pos
    omega

end

/-! ## Texts -/

/-- The operator with a space on either side. -/
def Connective.spaced (op : Connective) : List Char := ' ' :: (op.text.toList ++ [' '])

/-- What follows the first operand. -/
def remaining : Links → List Char
  | [] => []
  | (op, name) :: rest => op.spaced ++ (name.toList ++ remaining rest)

theorem toList_joined (first : String) (rest : Links) :
    (joined first rest).toList = first.toList ++ remaining rest := by
  have links : (String.join (rest.map fun (op, name) => " " ++ op.text ++ " " ++ name)).toList =
      remaining rest := by
    induction rest with
    | nil => rfl
    | cons link rest ih =>
      obtain ⟨op, name⟩ := link
      rw [List.map_cons, String.join_cons, String.toList_append, ih]
      simp [remaining, Connective.spaced, String.toList_append]
  rw [joined, String.toList_append, links]

theorem length_remaining_le {after rest : Links} (suffix : after <:+ rest) :
    (remaining after).length ≤ (remaining rest).length := by
  obtain ⟨front, rfl⟩ := suffix
  induction front with
  | nil => exact Nat.le_refl _
  | cons link front ih =>
    simp only [List.cons_append, remaining, List.length_append]
    omega

/-- All operands are identifiers. -/
def Named (rest : Links) : Prop := ∀ link ∈ rest, isIdentifier link.2 = true

theorem endsName_remaining (rest : Links) : EndsName (remaining rest) := by
  cases rest with
  | nil => exact .nil
  | cons link rest => exact .cons rfl

section

variable {d : Nat} {op : Connective} {name : String} {more : List Char}

/-- An operator that binds less tightly than those of a level, or the end of the text, is nothing to
the level. -/
theorem refuses_separator (low : d < 10) (loose : op.tightness < 10 - d) :
    grammar.Refuses (gap ++ separator d) (op.spaced ++ more) := by
  have sees : ∀ d < 10, op.tightness < 10 - d →
      grammar.foresee false 200 (gap ++ separator d) op.spaced = .fails := by
    cases op with
    | binary operator => cases operator <;> decide
    | logical operator => cases operator <;> decide
  exact Grammar.refuses_of_foresee _ (sees d low loose)

theorem refuses_separator_nil (low : d < 10) : grammar.Refuses (gap ++ separator d) [] := by
  have sees : ∀ d < 10, grammar.foresee true 200 (gap ++ separator d) [] = .fails := by decide
  exact Grammar.refuses_of_foresee_whole (sees d low)

theorem skips_gap_spaced (op : Connective) (more : List Char) :
    grammar.Skips gap (op.spaced ++ more) (op.text.toList ++ [' '] ++ more) := by
  have sees : grammar.foresee false 200 gap op.spaced = .leaves (op.text.toList ++ [' ']) true := by
    cases op with
    | binary operator => cases operator <;> decide
    | logical operator => cases operator <;> decide
  exact Grammar.skips_of_foresee _ _ sees

theorem skips_gap_name (isIdentifier : isIdentifier name = true) :
    grammar.Skips gap (' ' :: (name.toList ++ more)) (name.toList ++ more) := by
  have isName := (Bool.and_eq_true_iff.1 isIdentifier).1
  have nothing : grammar.Skips gap (name.toList ++ more) (name.toList ++ more) :=
    skips_of_nameStarts (by decide) isName
  have round : grammar.Skips (space ||| lineTerminator ||| blockComment ||| lineComment)
      (' ' :: (name.toList ++ more)) (name.toList ++ more) :=
    Grammar.skips_of_foresee [' '] [] (by decide)
  refine (round.many (by simp) nothing).mono ?_
  rintro _ ⟨_, _, rfl, rfl, rfl⟩
  rfl

end

/-! ## The grammar climbs -/

section

variable {source : List Char} {d : Nat}

/-- The level reads what climbing with the bound of the level takes. -/
def Climbs (source : List Char) (d : Nat) : Prop :=
  ∀ (name : String) (rest : Links), isIdentifier name = true → Named rest →
    Parses source (levelAt d) (name.toList ++ remaining rest)
      (remaining (climbLinks (11 - d) (variableOf name) rest).after)
      (climbLinks (11 - d) (variableOf name) rest).value

/-- An operand is a name and nothing more, whatever operator follows it. -/
theorem climbs_operand : Climbs source 0 := by
  intro name rest isIdentifier named
  have first := refuses_prefixOperator isIdentifier (endsName_remaining rest)
  have primary : Parses source .primaryExpression _ _ _ :=
    parses_identifier isIdentifier (endsName_remaining rest)
  cases rest with
  | nil =>
    rw [(climb_nil _ _).1, (climb_nil _ _).2]
    exact primary.climb_whole true (fun _ => first) (by decide)
  | cons link rest =>
    obtain ⟨op, next⟩ := link
    have stops := climb_of_lt (variableOf name) next rest
      (Nat.lt_succ_of_le op.tightness_le)
    rw [stops.1, stops.2]
    have passed : passes true false op.spaced .primaryExpression 30 .unaryExpression = true := by
      cases op with
      | binary operator => cases operator <;> decide
      | logical operator => cases operator <;> decide
    exact primary.climb true _ (fun _ => first) passed

/-- Behind an operand of a level, the level adds what climbing takes. -/
theorem extends_links (low : d < 10) (operands : Climbs source d) (left : Expression) (rest : Links)
    (named : Named rest) (looser : Looser (11 - d) rest) :
    Extends source d left (remaining rest) (remaining (climbLinks (10 - d) left rest).after)
      (climbLinks (10 - d) left rest).value := by
  induction len : rest.length using Nat.strongRecOn generalizing left rest with
  | ind length ih =>
    cases rest with
    | nil =>
      rw [(climb_nil _ _).1, (climb_nil _ _).2]
      exact .none (refuses_separator_nil low)
    | cons link rest =>
      obtain ⟨op, name⟩ := link
      obtain ⟨isIdentifier, named⟩ := List.forall_mem_cons.1 named
      by_cases loose : op.tightness < 10 - d
      · -- The operator belongs to a level farther out, so this one ends here.
        rw [(climb_of_lt _ _ _ loose).1, (climb_of_lt _ _ _ loose).2]
        exact .none (refuses_separator low loose)
      · have level : op.tightness = 10 - d := by
          have := looser _ rfl
          dsimp only at this
          omega
        have bound : op.tightness + 1 = 11 - d := by omega
        have taken := climb_of_le left name rest (Nat.le_of_eq level.symm)
        rw [bound] at taken
        rw [taken.1, taken.2]
        generalize right : climbLinks (11 - d) (variableOf name) rest = climbed at taken ⊢
        have operand := operands name rest isIdentifier named
        have stops := climb_after (11 - d) (variableOf name) rest
        rw [right] at operand stops
        have short := climbed.le
        rw [List.length_cons] at len
        have later := ih climbed.after.length (by omega) (op.join left climbed.value) climbed.after
          (fun link mem => named link (stops.2.subset mem)) stops.1 rfl
        have before := skips_gap_spaced op (name.toList ++ remaining rest)
        rw [List.append_assoc] at before
        have shorter := length_remaining_le stops.2
        refine .link (by decide) low level before (skips_gap_name isIdentifier) operand ?_ later
        simp only [remaining, Connective.spaced, List.length_append, List.length_cons]
        omega

/-- Every level of operators reads what climbing with its bound takes. -/
theorem parses_level (le : d ≤ 10) : Climbs source d := by
  induction d with
  | zero => exact climbs_operand
  | succ d ih =>
    intro name rest isIdentifier named
    have low : d < 10 := le
    have operands := ih (Nat.le_of_lt low)
    have bound : 11 - d = (11 - (d + 1)) + 1 := by omega
    have bound' : 11 - (d + 1) = 10 - d := by omega
    have first := operands name rest isIdentifier named
    have stops := climb_after (11 - d) (variableOf name) rest
    have steps := climb_succ (11 - (d + 1)) (variableOf name) rest
    dsimp only at steps
    rw [← bound] at steps
    rw [steps.1, steps.2, bound']
    exact first.extend low (extends_links low operands _ _
      (fun link mem => named link (stops.2.subset mem)) stops.1)

end

/-! ## Scripts -/

section

variable {first : String} {rest : Links}

/-- The gap behind a name is the space in front of the next operator. -/
theorem skips_gap_remaining (rest : Links) :
    grammar.Skips gap (remaining rest) (remaining rest).tail := by
  cases rest with
  | nil => exact Grammar.skips_of_foresee_whole (by decide)
  | cons link rest => exact skips_gap_spaced link.1 _

/-- What fails in front of every operator and at the end of the text fails behind a name. -/
theorem refuses_behind_name {p : Part} (rest : Links)
    (whole : grammar.foresee true 200 p [] = .fails)
    (behind : ∀ op : Connective, grammar.foresee false 200 p (op.text.toList ++ [' ']) = .fails) :
    grammar.Refuses p (remaining rest).tail := by
  cases rest with
  | nil => exact Grammar.refuses_of_foresee_whole whole
  | cons link rest => exact Grammar.refuses_of_foresee _ (behind link.1)

/-- A text that begins with an identifier, and then goes on with an operator or ends, is no other
statement than an expression. -/
theorem refuses_otherItems (isIdentifier : isIdentifier first = true) :
    ∀ r ∈ otherItems, grammar.Refuses (.rule r) (first.toList ++ remaining rest) := by
  have isName := (Bool.and_eq_true_iff.1 isIdentifier).1
  have ends := endsName_remaining rest
  have starts {p : Part}
      (sees : (nameStarts.all fun c => grammar.foresee false 200 p [c] = .fails) = true) :
      grammar.Refuses p (first.toList ++ remaining rest) := refuses_of_nameStarts sees isName
  have words {words : List String} (reserved : (words.all reservedWords.contains) = true) :
      grammar.Refuses (anyOf words ++ wordEnd) (first.toList ++ remaining rest) :=
    refuses_reserved _ isIdentifier ends reserved
  have word (source : String) (reserved : ([source].all reservedWords.contains) = true) :
      grammar.Refuses (word source) (first.toList ++ remaining rest) := words reserved
  have lexical : grammar.Refuses (.rule .lexicalDeclaration) (first.toList ++ remaining rest) := by
    refine Grammar.Refuses.rule (Grammar.Refuses.seq ?_)
    by_cases isLet : first = "let"
    · subst isLet
      -- What follows the word is an operator or nothing, but no name that it could declare.
      have kind := Grammar.Yields.token .lexicalKind (g := grammar) rfl
        (Grammar.Skips.seq (g := grammar) (Grammar.Yields.alt_left (Grammar.skips_text _ _))
          (skips_wordEnd ends))
      refine (kind.skip (skips_gap_remaining rest)).refuses_seq ?_
      refine Grammar.Refuses.seq (refuses_behind_name rest (by decide) fun op => ?_)
      cases op with
      | binary operator => cases operator <;> decide
      | logical operator => cases operator <;> decide
    · have free : first ∉ ["let", "const"] := by
        obtain ⟨-, other⟩ := Bool.and_eq_true_iff.1 isIdentifier
        have free : first ∉ reservedWords := by simpa using other
        simp only [List.mem_cons, List.not_mem_nil, or_false, not_or]
        exact ⟨isLet, fun isConst => free (isConst ▸ by decide)⟩
      have kind := refuses_words ["let", "const"] (by decide) isName ends
        (by rwa [String.ofList_toList])
      exact kind.rule.seq.seq
  have labelled : grammar.Refuses (.rule .labelledStatement) (first.toList ++ remaining rest) := by
    have label := (yields_identifier isIdentifier ends).skip (skips_gap_remaining rest)
    have colon : grammar.Refuses (sign ":") (remaining rest).tail :=
      refuses_behind_name rest (by decide) fun op => by
        cases op with
        | binary operator => cases operator <;> decide
        | logical operator => cases operator <;> decide
    exact (label.refuses_seq colon).seq.seq.rule
  intro r mem
  simp only [otherItems, List.mem_cons, List.not_mem_nil, or_false] at mem
  rcases mem with rfl | rfl | rfl | rfl | rfl | rfl | rfl | rfl | rfl | rfl | rfl | rfl | rfl | rfl |
    rfl | rfl | rfl | rfl
  · exact (word "function" (by decide)).seq.seq.seq.seq.seq.seq.rule
  · exact lexical
  · exact starts (by decide)
  · exact (word "var" (by decide)).seq.seq.seq.rule
  · exact starts (by decide)
  · exact (word "if" (by decide)).seq.seq.seq.seq.seq.rule
  · exact (word "for" (by decide)).seq.seq.seq.seq.rule
  · exact (word "for" (by decide)).seq.seq.seq.seq.rule
  · exact (word "while" (by decide)).seq.seq.seq.seq.rule
  · exact (word "do" (by decide)).seq.seq.seq.seq.seq.seq.seq.rule
  · exact (word "continue" (by decide)).seq.seq.rule
  · exact (word "break" (by decide)).seq.seq.rule
  · exact (word "return" (by decide)).seq.seq.rule
  · exact (word "switch" (by decide)).seq.seq.seq.seq.rule
  · exact (word "throw" (by decide)).seq.seq.seq.rule
  · exact (word "try" (by decide)).seq.seq.seq.seq.rule
  · exact (word "debugger" (by decide)).seq.rule
  · exact labelled

/-- A text without opening brackets does not nest any. -/
theorem search_of_no_opening {text : List Char} (flat : ∀ c ∈ text, isOpening c = false)
    (offset depth : Nat) (region : Nesting.Region) :
    Nesting.search text offset depth region = none := by
  induction text generalizing offset depth region with
  | nil => rfl
  | cons c text ih =>
    obtain ⟨closed, flat⟩ := List.forall_mem_cons.1 flat
    have later := ih flat
    have bracket : ∃ deep, Nesting.bracket? depth c = some deep := by
      have closed : ¬ (c = '(' ∨ c = '[' ∨ c = '\x7b') := by
        simpa [isOpening, and_assoc] using closed
      unfold Nesting.bracket?
      rw [if_neg closed]
      split <;> exact ⟨_, rfl⟩
    obtain ⟨deep, bracket⟩ := bracket
    cases region with
    | code => simp [Nesting.search, bracket, later]
    | slash =>
      simp only [Nesting.search, bracket]
      split
      · exact later _ _ _
      · split <;> exact later _ _ _
    | string | escaped | lineComment | blockComment => exact later _ _ _

theorem not_opening_of_isName {chars : List Char} (isName : isName chars = true) :
    ∀ c ∈ chars, isOpening c = false := by
  intro c mem
  have part := isName_all isName c mem
  refine Bool.eq_false_iff.2 fun opening => ?_
  simp only [isOpening, Bool.or_eq_true, decide_eq_true_eq] at opening
  rcases opening with (rfl | rfl) | rfl <;> cases part

theorem not_opening_remaining (named : Named rest) : ∀ c ∈ remaining rest, isOpening c = false := by
  induction rest with
  | nil => nofun
  | cons link rest ih =>
    obtain ⟨op, name⟩ := link
    obtain ⟨isIdentifier, named⟩ := List.forall_mem_cons.1 named
    have operator : ∀ c ∈ op.spaced, isOpening c = false := by
      refine List.all_iff_forall_prop.1 ?_
      cases op with
      | binary operator => cases operator <;> decide
      | logical operator => cases operator <;> decide
    have isName := (Bool.and_eq_true_iff.1 isIdentifier).1
    exact List.forall_mem_append.2
      ⟨operator, List.forall_mem_append.2 ⟨not_opening_of_isName isName, ih named⟩⟩

/-- Identifiers with operators between them are read as the expression that precedence climbing
makes of the list. -/
theorem read_joined (isIdentifier : isIdentifier first = true) (named : Named rest)
    (forceStrict : Bool) :
    ∃ tree span value, read (joined first rest) forceStrict = .ok tree ∧
      tree.body = [.expression span value] ∧
        value.shape = (climbLinks 1 (variableOf first) rest).value := by
  have isName := (Bool.and_eq_true_iff.1 isIdentifier).1
  have text := toList_joined first rest
  have parses : Parses (joined first rest).toList _ _ _ _ :=
    parses_level (Nat.le_refl 10) first rest isIdentifier named
  rw [climb_one, ← text] at parses
  have whole := parses.climb_whole (r := .expression) false nofun (by decide)
  refine read_of_expression _ forceStrict ?_ ?_ ?_ ?_ whole ?_
  · rintro _ -
    rw [text]
    exact search_of_no_opening (List.forall_mem_append.2
      ⟨not_opening_of_isName isName, not_opening_remaining named⟩) _ _ _
  · rw [text]
    exact skips_of_nameStarts (by decide) isName
  · rw [text]
    exact refuses_otherItems isIdentifier
  · rw [text]
    exact Grammar.Refuses.alt (refuses_of_nameStarts (by decide) isName)
      (refuses_reserved ["function"] isIdentifier (endsName_remaining rest) (by decide))
  · exact Grammar.skips_of_foresee_whole (by decide)

/-- A product binds more tightly than a sum, on either side of it. -/
theorem read_joined_sum_of_products :
    ∃ tree span value, read "a * b + c % d" false = .ok tree ∧ tree.body = [.expression span value] ∧
      value.shape = .binary .nowhere .add
        (.binary .nowhere .multiply (variableOf "a") (variableOf "b"))
        (.binary .nowhere .modulo (variableOf "c") (variableOf "d")) := by
  let rest : Links := [(.binary .multiply, "b"), (.binary .add, "c"), (.binary .modulo, "d")]
  have isIdentifier : isIdentifier "a" = true := by decide
  have named : Named rest := by
    simp only [rest, Named, List.forall_mem_cons]
    decide
  obtain ⟨tree, span, value, read, body, shape⟩ := read_joined isIdentifier named false
  refine ⟨tree, span, value, read, body, shape.trans ?_⟩
  cbv

end

end ScriptEngine.Script
