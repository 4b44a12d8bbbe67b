import ScriptEngine.Proofs.Grammar.Foresight
import ScriptEngine.Proofs.Grammar.Nesting

/-!
# The nesting limit on one line

In a text without line breaks nothing can continue on a next line, and a line comment takes all that
follows it. So the check of the nesting limit ends every lexeme where the grammar does, and accepts
a script on one line whose brackets nest within the limit (`firstTooDeep?_eq_none_of_oneLine`).
-/
namespace ScriptEngine.Script

/-- There is no line break in the text. -/
def OneLine (text : List Char) : Prop := ∀ c ∈ text, isLineBreak c = false

instance (text : List Char) : Decidable (OneLine text) :=
  List.decidableBAll _ _

@[simp]
theorem oneLine_nil : OneLine [] := List.forall_mem_nil _

@[simp]
theorem oneLine_cons {c : Char} {text : List Char} :
    OneLine (c :: text) ↔ isLineBreak c = false ∧ OneLine text := List.forall_mem_cons

@[simp]
theorem oneLine_append {text more : List Char} :
    OneLine (text ++ more) ↔ OneLine text ∧ OneLine more := List.forall_mem_append

section

variable {source text rest inside : List Char}

theorem skips_anyChar (c : Char) (rest : List Char) : grammar.Skips anyChar (c :: rest) rest :=
  Grammar.skips_one rfl rest

/-- A line comment takes whatever stands behind it on the line. -/
theorem skips_lineComment (free : OneLine inside) :
    grammar.Skips lineComment ("//".toList ++ inside) [] := by
  refine Grammar.Skips.seq (Grammar.skips_text "//".toList inside) ?_
  induction inside with
  | nil =>
    exact Grammar.Refuses.many (Grammar.refuses_of_foresee_whole (by decide))
  | cons c inside ih =>
    obtain ⟨first, free⟩ := oneLine_cons.1 free
    have noReturn : grammar.Refuses (sign "\r\n") (c :: inside) := fun here eq => .text (by
      rw [eq]
      rintro ⟨more, same⟩
      cases (List.cons.inj same).1
      cases first)
    have noBreak : grammar.Refuses (one isLineBreak) (c :: inside) :=
      Grammar.refuses_one (by simpa using first)
    have round := Grammar.Skips.seq (noReturn.alt noBreak).notAhead
      (skips_anyChar c inside)
    refine (round.many (Nat.lt_succ_self _) (ih free)).mono ?_
    rintro _ ⟨_, _, rfl, rfl, rfl⟩
    rfl

theorem rest_of_lineComment (free : OneLine (text ++ rest))
    (taken : taken? lineComment (text ++ rest) = some text) : rest = [] := by
  obtain ⟨stop, nodes, found, takes⟩ := read_of_taken? taken
  obtain ⟨inside, eq⟩ := prefix_of_lineComment found
  have whole : "//".toList ++ inside = text ++ rest := eq
  obtain ⟨stop', nodes', ends, found', _⟩ :=
    skips_lineComment (oneLine_append.1 (whole ▸ free)).2 ⟨text ++ rest, 0⟩ whole.symm
  obtain ⟨rfl, _⟩ := found'.unique ⟨2, found⟩
  have behind : rest = stop'.rest := List.append_cancel_left takes.rest
  rw [behind, ends]

theorem Lexed.eq_nil {ls : List Lexeme} {stop : List Char} (lexed : Lexed [] ls stop) : ls = [] := by
  generalize eq : ([] : List Char) = source at lexed
  cases lexed with
  | nil => rfl
  | cons first => exact absurd (List.append_eq_nil_iff.1 eq.symm).1 (text_ne_nil first)

/-- The check ends all lexemes on one line where the grammar does. -/
theorem endAlike_of_oneLine {ls : List Lexeme} (lexed : Lexed source ls [])
    (free : OneLine source) : endAlike ls = true := by
  generalize eq : ([] : List Char) = stop at lexed
  induction lexed with
  | nil => rfl
  | @cons l ls rest stop first regular later ih =>
    refine Bool.and_eq_true_iff.2 ⟨?_, ih (oneLine_append.1 free).2 eq⟩
    cases l with
    | blockComment | char => rfl
    | string text =>
      have unbroken : ¬ ['\\', '\r', '\n'] <:+: text := by
        intro broken
        have mem : '\r' ∈ text := broken.subset (by simp)
        cases free _ (List.mem_append_left rest mem)
      simpa [Lexeme.endsAlike] using unbroken
    | lineComment text =>
      have taken : taken? lineComment (text ++ rest) = some text := by
        rcases lexeme?_cases first with ⟨_, same, _⟩ | ⟨_, same, taken⟩ | ⟨_, same, _⟩ | ⟨_, same, _⟩
        all_goals cases same
        exact taken
      cases rest_of_lineComment free taken
      cases eq
      cases later.eq_nil
      rfl

/-- A script on one line whose brackets nest within the limit is not refused for its nesting. -/
theorem firstTooDeep?_eq_none_of_oneLine {node : Node Rule} (parsed : parse source = .ok node)
    (free : OneLine source)
    (shallow : deepest (lexemes source) ≤ Nesting.limit) : Nesting.firstTooDeep? source = none := by
  obtain ⟨lexed, balanced⟩ := lexed_of_parse parsed
  rw [deepest_le_iff] at shallow
  rw [Nesting.firstTooDeep?, search_eq_none_iff lexed (endAlike_of_oneLine lexed free)
    (by simp [balanced, Effect.even]) (Nat.zero_le _) 0]
  simpa only [Nat.zero_add] using shallow

end

end ScriptEngine.Script
