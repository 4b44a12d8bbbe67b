import ScriptEngine.Proofs.Grammar.Reading

/-!
# Outcomes without a bound

The bound on the nesting of rules belongs to the matcher and not to the grammar. A reading that does
not meet its bound ends in the same way under every larger one (`Grammar.read_of_le`), so it makes
sense to say that a pattern matches or fails under some bound (`Grammar.Matches`, `Grammar.Fails`).
These two exclude each other and have one rule for each way to combine patterns.
-/
namespace ScriptEngine.Grammar

section

variable {Rule : Type} {g : Grammar Rule} {depth depth' : Nat} {here middle stop : Cursor}
  {nodes before after : List (Node Rule)} {p first second item : Pattern Rule}

/-! ## Rounds -/

/-- The rounds of a repetition are what it matches. -/
theorem read_many_eq_of_rounds (rounds : g.Rounds depth item here stop nodes) :
    g.read depth (.many item) here = .matched stop nodes := by
  suffices enough : ∀ count collected reach, here.rest.length < count →
      (Matcher.repeat (item.run (g.matchRule depth)) count collected here reach).1 =
        .matched stop (collected.reverse ++ nodes) from
    enough _ [] 0 (Nat.lt_succ_self _)
  intro count collected reach short
  induction rounds generalizing count collected reach with
  | @done here failed =>
    obtain ⟨count, rfl⟩ : ∃ n, count = n + 1 := ⟨count - 1, by omega⟩
    have same := g.run_fst depth item here reach
    rw [failed] at same
    unfold Matcher.repeat
    rcases eq : item.run (g.matchRule depth) here reach with ⟨result, reach'⟩
    rw [eq] at same
    cases same
    simp
  | @still here stop nodes found stays =>
    obtain ⟨count, rfl⟩ : ∃ n, count = n + 1 := ⟨count - 1, by omega⟩
    have same := g.run_fst depth item here reach
    rw [found] at same
    unfold Matcher.repeat
    rcases eq : item.run (g.matchRule depth) here reach with ⟨result, reach'⟩
    rw [eq] at same
    cases same
    simp [stays]
  | @more here middle stop before after found moves later ih =>
    obtain ⟨count, rfl⟩ : ∃ n, count = n + 1 := ⟨count - 1, by omega⟩
    have same := g.run_fst depth item here reach
    rw [found] at same
    obtain ⟨taken, takes⟩ := read_takes found
    have some : 0 < taken.length :=
      List.length_pos_iff.2 fun none => moves (takes.stays_iff.2 none)
    have shorter := congrArg List.length takes.rest
    rw [List.length_append] at shorter
    unfold Matcher.repeat
    rcases eq : item.run (g.matchRule depth) here reach with ⟨result, reach'⟩
    rw [eq] at same
    cases same
    dsimp only
    rw [if_neg moves, ih count _ _ (by omega)]
    simp

/-! ## Larger bounds -/

private theorem Rounds.agree
    (agree : ∀ here, g.read depth item here ≠ .exhausted →
      g.read depth' item here = g.read depth item here)
    (rounds : g.Rounds depth item here stop nodes) : g.Rounds depth' item here stop nodes := by
  have keeps {here : Cursor} {result : Match Rule} (eq : g.read depth item here = result)
      (ends : result ≠ .exhausted) : g.read depth' item here = result :=
    (agree here (eq ▸ ends)).trans eq
  induction rounds with
  | done failed => exact .done (keeps failed nofun)
  | still found stays => exact .still (keeps found nofun) stays
  | more found moves _ ih => exact .more (keeps found nofun) moves ih

private theorem agree_of_rules
    (rules : ∀ name here, g.read depth (.rule name) here ≠ .exhausted →
      g.read depth' (.rule name) here = g.read depth (.rule name) here)
    (p : Pattern Rule) (here : Cursor) (ends : g.read depth p here ≠ .exhausted) :
    g.read depth' p here = g.read depth p here := by
  induction p generalizing here with
  | one | text => simp only [read, Pattern.run]
  | seq first second ihFirst ihSecond =>
    rw [read_seq] at ends
    rw [read_seq, read_seq]
    cases eq : g.read depth first here with
    | exhausted => simp [eq, Match.andThen] at ends
    | failed => rw [ihFirst here (by simp [eq]), eq]; rfl
    | matched middle before =>
      rw [ihFirst here (by simp [eq]), eq]
      rw [eq] at ends
      dsimp only [Match.andThen] at ends ⊢
      rw [ihSecond middle]
      intro met
      simp [met] at ends
  | alt first second ihFirst ihSecond =>
    rw [read_alt] at ends
    rw [read_alt, read_alt]
    cases eq : g.read depth first here with
    | exhausted => simp [eq] at ends
    | matched => rw [ihFirst here (by simp [eq]), eq]
    | failed =>
      rw [ihFirst here (by simp [eq]), eq]
      rw [eq] at ends
      exact ihSecond here ends
  | many item ih =>
    cases eq : g.read depth (.many item) here with
    | exhausted => exact absurd eq ends
    | failed => exact absurd eq read_many_ne_failed
    | matched stop nodes =>
      exact read_many_eq_of_rounds (Rounds.agree ih (rounds_of_read_many eq))
  | optional item ih =>
    rw [read_optional] at ends
    have met : g.read depth item here ≠ .exhausted := fun met => by simp [met] at ends
    rw [read_optional, read_optional, ih here met]
  | ahead item ih =>
    rw [read_ahead] at ends
    have met : g.read depth item here ≠ .exhausted := fun met => by simp [met] at ends
    rw [read_ahead, read_ahead, ih here met]
  | notAhead item ih =>
    rw [read_notAhead] at ends
    have met : g.read depth item here ≠ .exhausted := fun met => by simp [met] at ends
    rw [read_notAhead, read_notAhead, ih here met]
  | rule name => exact rules name here ends

/-- A reading that does not meet its bound ends in the same way under every larger one. -/
theorem read_of_le (le : depth ≤ depth') (ends : g.read depth p here ≠ .exhausted) :
    g.read depth' p here = g.read depth p here := by
  induction depth generalizing depth' p here with
  | zero => exact agree_of_rules (fun _ _ met => absurd rfl met) p here ends
  | succ depth ih =>
    obtain ⟨depth', rfl⟩ : ∃ n, depth' = n + 1 := ⟨depth' - 1, by omega⟩
    refine agree_of_rules (fun name here ends => ?_) p here ends
    rw [read_rule_succ] at ends
    have met : g.read depth (g.pattern name) here ≠ .exhausted := fun met => by simp [met] at ends
    rw [read_rule_succ, read_rule_succ, ih (Nat.le_of_succ_le_succ le) met]

/-! ## Matching and failing -/

/-- The pattern matches, under some bound. -/
def Matches (g : Grammar Rule) (p : Pattern Rule) (here stop : Cursor) (nodes : List (Node Rule)) :
    Prop := ∃ depth, g.read depth p here = .matched stop nodes

/-- The pattern does not match, under some bound. -/
def Fails (g : Grammar Rule) (p : Pattern Rule) (here : Cursor) : Prop :=
  ∃ depth, g.read depth p here = .failed

/-- What two bounds are enough for, the larger one is. -/
private theorem read_max {result result' : Match Rule} {here' : Cursor} {q : Pattern Rule}
    (found : g.read depth p here = result) (ends : result ≠ .exhausted)
    (found' : g.read depth' q here' = result') (ends' : result' ≠ .exhausted) :
    g.read (max depth depth') p here = result ∧ g.read (max depth depth') q here' = result' :=
  ⟨(read_of_le (Nat.le_max_left ..) (found ▸ ends)).trans found,
    (read_of_le (Nat.le_max_right ..) (found' ▸ ends')).trans found'⟩

theorem Matches.unique {stop' : Cursor} {nodes' : List (Node Rule)}
    (found : g.Matches p here stop nodes) (found' : g.Matches p here stop' nodes') :
    stop = stop' ∧ nodes = nodes' := by
  obtain ⟨_, found⟩ := found
  obtain ⟨_, found'⟩ := found'
  obtain ⟨found, found'⟩ := read_max found nofun found' nofun
  cases found.symm.trans found'
  exact ⟨rfl, rfl⟩

theorem Matches.not_fails (found : g.Matches p here stop nodes) : ¬ g.Fails p here := by
  rintro ⟨_, failed⟩
  obtain ⟨_, found⟩ := found
  obtain ⟨found, failed⟩ := read_max found nofun failed nofun
  cases found.symm.trans failed

theorem Matches.takes (found : g.Matches p here stop nodes) : ∃ taken, here.Takes taken stop :=
  found.elim fun _ found => read_takes found

theorem Matches.text {chars : List Char} (takes : here.Takes chars stop) :
    g.Matches (.text chars) here stop [] := ⟨0, read_text_matched.2 ⟨takes, rfl⟩⟩

theorem Fails.text {chars : List Char} (other : ¬ chars <+: here.rest) :
    g.Fails (.text chars) here := ⟨0, read_text_failed.2 other⟩

theorem Fails.one {accepts : Char → Bool} (refused : ∀ c ∈ here.rest.head?, accepts c = false) :
    g.Fails (.one accepts) here := ⟨0, read_one_failed.2 refused⟩

theorem Matches.seq (found : g.Matches first here middle before)
    (found' : g.Matches second middle stop after) :
    g.Matches (.seq first second) here stop (before ++ after) := by
  obtain ⟨_, found⟩ := found
  obtain ⟨_, found'⟩ := found'
  obtain ⟨found, found'⟩ := read_max found nofun found' nofun
  exact ⟨_, read_seq_matched.2 ⟨middle, before, after, found, found', rfl⟩⟩

theorem Fails.seq_left (failed : g.Fails first here) : g.Fails (.seq first second) here :=
  failed.elim fun depth failed => ⟨depth, read_seq_failed.2 (.inl failed)⟩

theorem Fails.seq_right (found : g.Matches first here middle before)
    (failed : g.Fails second middle) : g.Fails (.seq first second) here := by
  obtain ⟨_, found⟩ := found
  obtain ⟨_, failed⟩ := failed
  obtain ⟨found, failed⟩ := read_max found nofun failed nofun
  exact ⟨_, read_seq_failed.2 (.inr ⟨middle, before, found, failed⟩)⟩

theorem Matches.alt_left (found : g.Matches first here stop nodes) :
    g.Matches (.alt first second) here stop nodes :=
  found.elim fun depth found => ⟨depth, read_alt_matched.2 (.inl found)⟩

theorem Matches.alt_right (failed : g.Fails first here) (found : g.Matches second here stop nodes) :
    g.Matches (.alt first second) here stop nodes := by
  obtain ⟨_, failed⟩ := failed
  obtain ⟨_, found⟩ := found
  obtain ⟨failed, found⟩ := read_max failed nofun found nofun
  exact ⟨_, read_alt_matched.2 (.inr ⟨failed, found⟩)⟩

theorem Fails.alt (left : g.Fails first here) (right : g.Fails second here) :
    g.Fails (.alt first second) here := by
  obtain ⟨_, left⟩ := left
  obtain ⟨_, right⟩ := right
  obtain ⟨left, right⟩ := read_max left nofun right nofun
  exact ⟨_, read_alt_failed.2 ⟨left, right⟩⟩

theorem Matches.optional (found : g.Matches item here stop nodes) :
    g.Matches (.optional item) here stop nodes :=
  found.elim fun depth found => ⟨depth, read_optional_matched.2 (.inl found)⟩

theorem Fails.optional (failed : g.Fails item here) : g.Matches (.optional item) here here [] :=
  failed.elim fun depth failed => ⟨depth, read_optional_matched.2 (.inr ⟨failed, rfl, rfl⟩)⟩

theorem Matches.ahead (found : g.Matches item here stop nodes) :
    g.Matches (.ahead item) here here [] :=
  found.elim fun depth found => ⟨depth, read_ahead_matched.2 ⟨rfl, rfl, stop, nodes, found⟩⟩

theorem Fails.ahead (failed : g.Fails item here) : g.Fails (.ahead item) here :=
  failed.elim fun depth failed => ⟨depth, by rw [read_ahead, failed]⟩

theorem Matches.notAhead (found : g.Matches item here stop nodes) : g.Fails (.notAhead item) here :=
  found.elim fun depth found => ⟨depth, read_notAhead_failed.2 ⟨stop, nodes, found⟩⟩

theorem Fails.notAhead (failed : g.Fails item here) : g.Matches (.notAhead item) here here [] :=
  failed.elim fun depth failed => ⟨depth, read_notAhead_matched.2 ⟨rfl, rfl, failed⟩⟩

/-- A repetition ends where there is no further round. -/
theorem Fails.many (failed : g.Fails item here) : g.Matches (.many item) here here [] :=
  failed.elim fun depth failed => ⟨depth, read_many_eq_of_rounds (.done failed)⟩

/-- A repetition ends after a round that takes nothing. -/
theorem Matches.many_still (found : g.Matches item here stop nodes)
    (stays : stop.offset = here.offset) : g.Matches (.many item) here here [] :=
  found.elim fun depth found => ⟨depth, read_many_eq_of_rounds (.still found stays)⟩

/-- A round of a repetition, and the rounds that follow it. -/
theorem Matches.many (found : g.Matches item here middle before)
    (moves : middle.offset ≠ here.offset) (later : g.Matches (.many item) middle stop after) :
    g.Matches (.many item) here stop (before ++ after) := by
  obtain ⟨_, found⟩ := found
  obtain ⟨_, later⟩ := later
  obtain ⟨found, later⟩ := read_max found nofun later nofun
  exact ⟨_, read_many_eq_of_rounds (.more found moves (rounds_of_read_many later))⟩

theorem Matches.rule {name : Rule} (found : g.Matches (g.pattern name) here stop nodes) :
    g.Matches (.rule name) here stop [g.node name here stop nodes] :=
  found.elim fun depth found => ⟨depth + 1, read_rule_matched.2 ⟨depth, nodes, rfl, found, rfl⟩⟩

theorem Fails.rule {name : Rule} (failed : g.Fails (g.pattern name) here) :
    g.Fails (.rule name) here :=
  failed.elim fun depth failed => ⟨depth + 1, by rw [read_rule_succ, failed]⟩

/-! ## Matches taken apart -/

theorem Matches.of_seq (found : g.Matches (.seq first second) here stop nodes) :
    ∃ middle before after, g.Matches first here middle before ∧
      g.Matches second middle stop after ∧ nodes = before ++ after := by
  obtain ⟨depth, found⟩ := found
  obtain ⟨middle, before, after, left, right, eq⟩ := read_seq_matched.1 found
  exact ⟨middle, before, after, ⟨depth, left⟩, ⟨depth, right⟩, eq⟩

theorem Matches.of_alt (found : g.Matches (.alt first second) here stop nodes)
    (failed : g.Fails first here) : g.Matches second here stop nodes := by
  obtain ⟨depth, read⟩ := found
  rcases read_alt_matched.1 read with left | ⟨-, right⟩
  · exact absurd failed (Matches.not_fails ⟨depth, left⟩)
  · exact ⟨depth, right⟩

theorem Matches.of_notAhead (found : g.Matches (.notAhead item) here stop nodes) :
    stop = here ∧ g.Fails item here := by
  obtain ⟨depth, read⟩ := found
  obtain ⟨stays, -, failed⟩ := read_notAhead_matched.1 read
  exact ⟨stays, depth, failed⟩

theorem Matches.of_text {chars : List Char} (found : g.Matches (.text chars) here stop nodes) :
    here.Takes chars stop := found.elim fun _ found => (read_text_matched.1 found).1

end

end ScriptEngine.Grammar
