import ScriptEngine.Grammar.Pattern

/-!
# How a pattern reads a text

The reach that a run carries along is only for complaints: it has no influence on what a pattern
matches (`Grammar.run_fst`). Without it, each way to combine patterns is described by when it
matches and when it fails (`read_seq_matched`, `read_seq_failed` and so on); a repetition is
described by its rounds (`Rounds`). A match takes characters from the front of the text and moves
the offset by their bytes (`Grammar.read_takes`).
-/
namespace ScriptEngine

/-! ## Bytes and cursors -/

@[simp]
theorem byteLength_nil : byteLength [] = 0 := rfl

private theorem foldl_utf8Size (chars : List Char) (count : Nat) :
    chars.foldl (fun count c => count + c.utf8Size) count = count + byteLength chars := by
  induction chars generalizing count with
  | nil => rfl
  | cons c chars ih =>
    unfold byteLength
    simp only [List.foldl_cons]
    rw [ih, ih]
    omega

@[simp]
theorem byteLength_cons (c : Char) (chars : List Char) :
    byteLength (c :: chars) = c.utf8Size + byteLength chars := by
  unfold byteLength
  rw [List.foldl_cons, foldl_utf8Size]
  simp [byteLength]

@[simp]
theorem byteLength_append (chars more : List Char) :
    byteLength (chars ++ more) = byteLength chars + byteLength more := by
  induction chars with
  | nil => simp
  | cons c chars ih =>
    rw [List.cons_append, byteLength_cons, byteLength_cons, ih]
    omega

theorem byteLength_eq_zero_iff (chars : List Char) : byteLength chars = 0 ↔ chars = [] := by
  cases chars with
  | nil => simp
  | cons c chars =>
    have := c.utf8Size_pos
    simp
    omega

theorem takeBytes_append (taken rest : List Char) :
    takeBytes (byteLength taken) (taken ++ rest) = taken := by
  induction taken with
  | nil => cases rest <;> rfl
  | cons c taken ih =>
    have := c.utf8Size_pos
    obtain ⟨bytes, eq⟩ : ∃ bytes, byteLength (c :: taken) = bytes + 1 :=
      Nat.exists_eq_add_one.2 (by rw [byteLength_cons]; omega)
    have left : bytes + 1 - c.utf8Size = byteLength taken := by
      rw [← eq, byteLength_cons, Nat.add_sub_cancel_left]
    rw [eq, List.cons_append, takeBytes, left, ih]

namespace Cursor

/-- The second cursor stands behind the characters that the first one has before it. -/
structure Takes (here : Cursor) (taken : List Char) (stop : Cursor) : Prop where
  rest : here.rest = taken ++ stop.rest
  offset : stop.offset = here.offset + byteLength taken

variable {here middle stop : Cursor} {taken more : List Char}

theorem Takes.refl (here : Cursor) : here.Takes [] here := ⟨rfl, rfl⟩

theorem Takes.one {c : Char} (rest : here.rest = c :: stop.rest)
    (offset : stop.offset = here.offset + c.utf8Size) : here.Takes [c] stop :=
  ⟨rest, by simpa using offset⟩

theorem Takes.trans (first : here.Takes taken middle) (second : middle.Takes more stop) :
    here.Takes (taken ++ more) stop := by
  constructor
  · rw [first.rest, second.rest, List.append_assoc]
  · rw [second.offset, first.offset, byteLength_append, Nat.add_assoc]

theorem Takes.stays_iff (takes : here.Takes taken stop) : stop.offset = here.offset ↔ taken = [] := by
  rw [← byteLength_eq_zero_iff, takes.offset]
  omega

theorem skip?_eq_some_iff {chars : List Char} :
    here.skip? chars = some stop ↔ here.Takes chars stop := by
  induction chars generalizing here with
  | nil =>
    rcases here with ⟨rest, offset⟩
    rcases stop with ⟨rest', offset'⟩
    simp only [skip?, Option.some.injEq, Cursor.mk.injEq]
    constructor
    · rintro ⟨rfl, rfl⟩
      exact .refl _
    · rintro ⟨rest, offset⟩
      exact ⟨rest, offset.symm⟩
  | cons x chars ih =>
    rcases here with ⟨_ | ⟨y, rest⟩, offset⟩
    · constructor
      · nofun
      · rintro ⟨rest, _⟩
        cases rest
    · simp only [skip?]
      by_cases same : x = y
      · subst same
        rw [if_pos rfl, ih]
        constructor
        · rintro ⟨rest, offset⟩
          exact ⟨congrArg _ rest, by simp at offset ⊢; omega⟩
        · rintro ⟨rest, offset⟩
          exact ⟨(List.cons.inj rest).2, by simp at offset ⊢; omega⟩
      · rw [if_neg same]
        constructor
        · nofun
        · rintro ⟨rest, _⟩
          exact absurd (List.cons.inj rest).1.symm same

/-- The same characters lead to the same place. -/
theorem Takes.unique {stop' : Cursor} (takes : here.Takes taken stop)
    (takes' : here.Takes taken stop') : stop = stop' :=
  Option.some.inj ((skip?_eq_some_iff.2 takes).symm.trans (skip?_eq_some_iff.2 takes'))

theorem skip?_eq_none_iff {chars : List Char} : here.skip? chars = none ↔ ¬ chars <+: here.rest := by
  constructor
  · rintro none ⟨rest, eq⟩
    have takes : here.Takes chars ⟨rest, here.offset + byteLength chars⟩ := ⟨eq.symm, rfl⟩
    rw [skip?_eq_some_iff.2 takes] at none
    cases none
  · intro other
    cases eq : here.skip? chars with
    | none => rfl
    | some stop => exact absurd ⟨stop.rest, (skip?_eq_some_iff.1 eq).rest.symm⟩ other

end Cursor

section

variable {Rule : Type}

attribute [local simp] Pattern.run

/-! ## The reach -/

/-- The reach has no influence on how a match ends. -/
def Matcher.Steady (m : Matcher Rule) : Prop :=
  ∀ here reach reach', (m here reach).1 = (m here reach').1

namespace Matcher.Steady

variable {item : Matcher Rule}

theorem repeated (steady : Matcher.Steady item) (rounds : Nat) (nodes : List (Node Rule)) :
    Matcher.Steady (Matcher.repeat item rounds nodes) := by
  induction rounds generalizing nodes with
  | zero => exact fun _ _ _ => rfl
  | succ rounds ih =>
    intro here reach reach'
    have same := steady here reach reach'
    unfold Matcher.repeat
    rcases eq : item here reach with ⟨found, after⟩
    rcases eq' : item here reach' with ⟨found', after'⟩
    rw [eq, eq'] at same
    cases same
    cases found with
    | matched stop new =>
      dsimp only
      by_cases still : stop.offset = here.offset
      · simp only [if_pos still]
      · simp only [if_neg still]
        exact ih _ stop after after'
    | failed | exhausted => rfl

end Matcher.Steady

theorem Pattern.run_steady {call : Rule → Matcher Rule} (steady : ∀ name, Matcher.Steady (call name))
    (p : Pattern Rule) : Matcher.Steady (p.run call) := by
  induction p with
  | one accepts =>
    intro here reach reach'
    unfold run
    split
    · split <;> rfl
    · rfl
  | text chars =>
    intro here reach reach'
    unfold run
    split <;> rfl
  | seq first second ihFirst ihSecond =>
    intro here reach reach'
    have same := ihFirst here reach reach'
    unfold run
    rcases eq : first.run call here reach with ⟨found, after⟩
    rcases eq' : first.run call here reach' with ⟨found', after'⟩
    rw [eq, eq'] at same
    cases same
    cases found with
    | failed | exhausted => rfl
    | matched middle before =>
      have same := ihSecond middle after after'
      dsimp only
      rcases eq : second.run call middle after with ⟨found, _⟩
      rcases eq' : second.run call middle after' with ⟨found', _⟩
      rw [eq, eq'] at same
      cases same
      cases found <;> rfl
  | alt first second ihFirst ihSecond =>
    intro here reach reach'
    have same := ihFirst here reach reach'
    unfold run
    rcases eq : first.run call here reach with ⟨found, after⟩
    rcases eq' : first.run call here reach' with ⟨found', after'⟩
    rw [eq, eq'] at same
    cases same
    cases found with
    | matched | exhausted => rfl
    | failed => exact ihSecond here after after'
  | many item ih =>
    intro here reach reach'
    unfold run
    exact ih.repeated _ _ here reach reach'
  | optional item ih | ahead item ih | notAhead item ih =>
    intro here reach reach'
    have same := ih here reach reach'
    unfold run
    rcases eq : item.run call here reach with ⟨found, after⟩
    rcases eq' : item.run call here reach' with ⟨found', after'⟩
    rw [eq, eq'] at same
    cases same
    cases found <;> rfl
  | rule name => exact steady name

/-! ## What a match leaves -/

/-- A match, and one that follows it. -/
def Match.andThen (found : Match Rule) (next : Cursor → Match Rule) : Match Rule :=
  match found with
  | .matched middle before =>
    match next middle with
    | .matched stop after => .matched stop (before ++ after)
    | other => other
  | other => other

namespace Grammar

variable (g : Grammar Rule)

theorem matchRule_steady (depth : Nat) (name : Rule) : Matcher.Steady (g.matchRule depth name) := by
  induction depth generalizing name with
  | zero => exact fun _ _ _ => rfl
  | succ depth ih =>
    intro here reach reach'
    have same := Pattern.run_steady ih (g.pattern name) here reach reach'
    unfold matchRule
    rcases eq : (g.pattern name).run (g.matchRule depth) here reach with ⟨found, after⟩
    rcases eq' : (g.pattern name).run (g.matchRule depth) here reach' with ⟨found', after'⟩
    rw [eq, eq'] at same
    cases same
    cases found <;> rfl

/-- How a pattern of the grammar ends at a cursor, with a bound on the nesting of rules. -/
def read (depth : Nat) (p : Pattern Rule) (here : Cursor) : Match Rule :=
  (p.run (g.matchRule depth) here 0).1

theorem run_fst (depth : Nat) (p : Pattern Rule) (here : Cursor) (reach : Nat) :
    (p.run (g.matchRule depth) here reach).1 = g.read depth p here :=
  Pattern.run_steady (g.matchRule_steady depth) p here reach 0

variable (depth : Nat) (here : Cursor)

theorem read_seq (first second : Pattern Rule) :
    g.read depth (.seq first second) here =
      (g.read depth first here).andThen (g.read depth second) := by
  rw [← run_fst g depth first here 0]
  show (Pattern.run _ (.seq first second) here 0).1 = _
  rw [Pattern.run]
  rcases first.run (g.matchRule depth) here 0 with ⟨found, reach⟩
  cases found with
  | failed | exhausted => rfl
  | matched middle before =>
    dsimp only [Match.andThen]
    rw [← run_fst g depth second middle reach]
    rcases second.run (g.matchRule depth) middle reach with ⟨found, _⟩
    cases found <;> rfl

theorem read_alt (first second : Pattern Rule) :
    g.read depth (.alt first second) here =
      match g.read depth first here with
      | .failed => g.read depth second here
      | other => other := by
  rw [← run_fst g depth first here 0]
  show (Pattern.run _ (.alt first second) here 0).1 = _
  rw [Pattern.run]
  rcases first.run (g.matchRule depth) here 0 with ⟨found, reach⟩
  cases found with
  | matched | exhausted => rfl
  | failed => exact run_fst g depth second here reach

theorem read_optional (item : Pattern Rule) :
    g.read depth (.optional item) here =
      match g.read depth item here with
      | .failed => .matched here []
      | other => other := by
  rw [← run_fst g depth item here 0]
  show (Pattern.run _ (.optional item) here 0).1 = _
  rw [Pattern.run]
  rcases item.run (g.matchRule depth) here 0 with ⟨found, reach⟩
  cases found <;> rfl

theorem read_ahead (item : Pattern Rule) :
    g.read depth (.ahead item) here =
      match g.read depth item here with
      | .matched _ _ => .matched here []
      | other => other := by
  rw [← run_fst g depth item here 0]
  show (Pattern.run _ (.ahead item) here 0).1 = _
  rw [Pattern.run]
  rcases item.run (g.matchRule depth) here 0 with ⟨found, reach⟩
  cases found <;> rfl

theorem read_notAhead (item : Pattern Rule) :
    g.read depth (.notAhead item) here =
      match g.read depth item here with
      | .matched _ _ => .failed
      | .failed => .matched here []
      | .exhausted => .exhausted := by
  rw [← run_fst g depth item here 0]
  show (Pattern.run _ (.notAhead item) here 0).1 = _
  rw [Pattern.run]
  rcases item.run (g.matchRule depth) here 0 with ⟨found, reach⟩
  cases found <;> rfl

theorem read_rule_zero (name : Rule) : g.read 0 (.rule name) here = .exhausted := rfl

theorem read_rule_succ (name : Rule) :
    g.read (depth + 1) (.rule name) here =
      match g.read depth (g.pattern name) here with
      | .matched stop children => .matched stop [g.node name here stop children]
      | other => other := by
  rw [← run_fst g depth (g.pattern name) here 0]
  show (g.matchRule (depth + 1) name here 0).1 = _
  rw [matchRule]
  rcases (g.pattern name).run (g.matchRule depth) here 0 with ⟨found, reach⟩
  cases found <;> rfl

/-! ## When patterns match and when they fail -/

variable {g depth here} {stop : Cursor} {nodes : List (Node Rule)} {first second item : Pattern Rule}

@[simp]
theorem read_one_matched {accepts : Char → Bool} :
    g.read depth (.one accepts) here = .matched stop nodes ↔
      ∃ c, here.rest = c :: stop.rest ∧ accepts c = true ∧
        stop.offset = here.offset + c.utf8Size ∧ nodes = [] := by
  rcases here with ⟨_ | ⟨c, rest⟩, offset⟩
  · simp [read]
  · rcases stop with ⟨after, offset'⟩
    by_cases taken : accepts c = true
    · simp only [read, Pattern.run, taken, if_true, Match.matched.injEq, Cursor.mk.injEq,
        List.cons.injEq]
      constructor
      · rintro ⟨⟨rfl, rfl⟩, rfl⟩
        exact ⟨c, ⟨rfl, rfl⟩, taken, rfl, rfl⟩
      · rintro ⟨_, ⟨rfl, rfl⟩, _, rfl, rfl⟩
        exact ⟨⟨rfl, rfl⟩, rfl⟩
    · simp only [read, Pattern.run, if_neg taken, reduceCtorEq, List.cons.injEq, false_iff]
      rintro ⟨_, ⟨rfl, rfl⟩, accepted, _⟩
      exact taken accepted

@[simp]
theorem read_one_failed {accepts : Char → Bool} :
    g.read depth (.one accepts) here = .failed ↔
      ∀ c ∈ here.rest.head?, accepts c = false := by
  rcases here with ⟨_ | ⟨c, rest⟩, offset⟩
  · simp [read]
  · by_cases taken : accepts c = true <;> simp [read, taken]

@[simp]
theorem read_seq_matched :
    g.read depth (.seq first second) here = .matched stop nodes ↔
      ∃ middle before after, g.read depth first here = .matched middle before ∧
        g.read depth second middle = .matched stop after ∧ nodes = before ++ after := by
  rw [read_seq]
  cases g.read depth first here with
  | failed | exhausted => simp [Match.andThen]
  | matched middle before =>
    cases eq : g.read depth second middle with
    | failed | exhausted => simp [Match.andThen, eq]
    | matched last after =>
      simp only [Match.andThen, eq, Match.matched.injEq]
      constructor
      · rintro ⟨rfl, rfl⟩
        exact ⟨middle, before, after, ⟨rfl, rfl⟩, eq, rfl⟩
      · rintro ⟨_, _, _, ⟨rfl, rfl⟩, same, rfl⟩
        cases eq.symm.trans same
        exact ⟨rfl, rfl⟩

@[simp]
theorem read_seq_failed :
    g.read depth (.seq first second) here = .failed ↔
      g.read depth first here = .failed ∨
        ∃ middle before, g.read depth first here = .matched middle before ∧
          g.read depth second middle = .failed := by
  rw [read_seq]
  cases g.read depth first here with
  | failed | exhausted => simp [Match.andThen]
  | matched middle before => cases eq : g.read depth second middle <;> simp [Match.andThen, eq]

@[simp]
theorem read_alt_matched :
    g.read depth (.alt first second) here = .matched stop nodes ↔
      g.read depth first here = .matched stop nodes ∨
        g.read depth first here = .failed ∧ g.read depth second here = .matched stop nodes := by
  rw [read_alt]
  cases g.read depth first here <;> simp

@[simp]
theorem read_alt_failed :
    g.read depth (.alt first second) here = .failed ↔
      g.read depth first here = .failed ∧ g.read depth second here = .failed := by
  rw [read_alt]
  cases g.read depth first here <;> simp

@[simp]
theorem read_optional_matched :
    g.read depth (.optional item) here = .matched stop nodes ↔
      g.read depth item here = .matched stop nodes ∨
        g.read depth item here = .failed ∧ stop = here ∧ nodes = [] := by
  rw [read_optional]
  cases g.read depth item here <;> simp [eq_comm]

@[simp]
theorem read_ahead_matched :
    g.read depth (.ahead item) here = .matched stop nodes ↔
      stop = here ∧ nodes = [] ∧ ∃ next inside, g.read depth item here = .matched next inside := by
  rw [read_ahead]
  cases g.read depth item here <;> simp [eq_comm]

@[simp]
theorem read_notAhead_matched :
    g.read depth (.notAhead item) here = .matched stop nodes ↔
      stop = here ∧ nodes = [] ∧ g.read depth item here = .failed := by
  rw [read_notAhead]
  cases g.read depth item here <;> simp [eq_comm]

@[simp]
theorem read_notAhead_failed :
    g.read depth (.notAhead item) here = .failed ↔
      ∃ next inside, g.read depth item here = .matched next inside := by
  rw [read_notAhead]
  cases g.read depth item here <;> simp

theorem read_rule_matched {name : Rule} :
    g.read depth (.rule name) here = .matched stop nodes ↔
      ∃ below children, depth = below + 1 ∧
        g.read below (g.pattern name) here = .matched stop children ∧
        nodes = [g.node name here stop children] := by
  cases depth with
  | zero => simp [read_rule_zero]
  | succ below =>
    rw [read_rule_succ]
    cases eq : g.read below (g.pattern name) here with
    | failed | exhausted => simp [eq]
    | matched last children =>
      simp only [Match.matched.injEq]
      constructor
      · rintro ⟨rfl, rfl⟩
        exact ⟨below, children, rfl, eq, rfl⟩
      · rintro ⟨_, _, same, found, rfl⟩
        cases same
        cases eq.symm.trans found
        exact ⟨rfl, rfl⟩

/-! ## Characters taken -/

/-- A text pattern takes its characters if they are what the text begins with. -/
@[simp]
theorem read_text_matched {chars : List Char} :
    g.read depth (.text chars) here = .matched stop nodes ↔ here.Takes chars stop ∧ nodes = [] := by
  rw [← Cursor.skip?_eq_some_iff]
  cases eq : here.skip? chars <;> simp [read, eq, eq_comm]

@[simp]
theorem read_text_failed {chars : List Char} :
    g.read depth (.text chars) here = .failed ↔ ¬ chars <+: here.rest := by
  rw [← Cursor.skip?_eq_none_iff]
  cases eq : here.skip? chars <;> simp [read, eq]

/-- What a repetition matches: rounds that move, up to one that fails or does not move. -/
inductive Rounds (g : Grammar Rule) (depth : Nat) (item : Pattern Rule) :
    Cursor → Cursor → List (Node Rule) → Prop where
  | done {here : Cursor} (failed : g.read depth item here = .failed) : Rounds g depth item here here []
  | still {here stop : Cursor} {nodes : List (Node Rule)}
    (found : g.read depth item here = .matched stop nodes) (stays : stop.offset = here.offset) :
    Rounds g depth item here here []
  | more {here middle stop : Cursor} {before after : List (Node Rule)}
    (found : g.read depth item here = .matched middle before)
    (moves : middle.offset ≠ here.offset) (later : Rounds g depth item middle stop after) :
    Rounds g depth item here stop (before ++ after)

private theorem rounds_of_repeat (rounds : Nat) {collected : List (Node Rule)} {reach : Nat}
    (found : (Matcher.repeat (item.run (g.matchRule depth)) rounds collected here reach).1 =
      .matched stop nodes) :
    ∃ new, g.Rounds depth item here stop new ∧ nodes = collected.reverse ++ new := by
  induction rounds generalizing collected here reach with
  | zero => cases found
  | succ rounds ih =>
    have same := g.run_fst depth item here reach
    unfold Matcher.repeat at found
    rcases eq : item.run (g.matchRule depth) here reach with ⟨result, reach'⟩
    rw [eq] at found same
    cases result with
    | exhausted => cases found
    | failed =>
      cases found
      exact ⟨[], .done same.symm, (List.append_nil _).symm⟩
    | matched middle before =>
      dsimp only at found
      by_cases stays : middle.offset = here.offset
      · rw [if_pos stays] at found
        cases found
        exact ⟨[], .still same.symm stays, (List.append_nil _).symm⟩
      · rw [if_neg stays] at found
        obtain ⟨new, later, rfl⟩ := ih found
        exact ⟨before ++ new, .more same.symm stays later, by simp⟩

theorem rounds_of_read_many (found : g.read depth (.many item) here = .matched stop nodes) :
    g.Rounds depth item here stop nodes := by
  obtain ⟨new, rounds, rfl⟩ := rounds_of_repeat _ found
  exact rounds

private theorem repeat_ne_failed (item : Matcher Rule) (rounds : Nat) (nodes : List (Node Rule))
    (here : Cursor) (reach : Nat) : (Matcher.repeat item rounds nodes here reach).1 ≠ .failed := by
  induction rounds generalizing nodes here reach with
  | zero => simp [Matcher.repeat]
  | succ rounds ih =>
    unfold Matcher.repeat
    split
    · split
      · simp
      · exact ih _ _ _
    · simp
    · simp

@[simp]
theorem read_many_ne_failed : g.read depth (.many item) here ≠ .failed :=
  repeat_ne_failed _ _ _ _ _

private theorem Rounds.takes (each : ∀ here stop nodes,
      g.read depth item here = .matched stop nodes → ∃ taken, here.Takes taken stop)
    (rounds : g.Rounds depth item here stop nodes) : ∃ taken, here.Takes taken stop := by
  induction rounds with
  | done | still => exact ⟨[], .refl _⟩
  | more found _ _ ih =>
    obtain ⟨taken, first⟩ := each _ _ _ found
    obtain ⟨taken', later⟩ := ih
    exact ⟨taken ++ taken', first.trans later⟩

private theorem takes_of_rules (rules : ∀ name here stop nodes,
      g.read depth (.rule name) here = .matched stop nodes → ∃ taken, here.Takes taken stop)
    (p : Pattern Rule) (here stop : Cursor) (nodes : List (Node Rule))
    (found : g.read depth p here = .matched stop nodes) : ∃ taken, here.Takes taken stop := by
  induction p generalizing here stop nodes with
  | one accepts =>
    obtain ⟨c, rest, _, offset, _⟩ := read_one_matched.1 found
    exact ⟨[c], rest, by simpa [byteLength] using offset⟩
  | text chars => exact ⟨chars, (read_text_matched.1 found).1⟩
  | seq first second ihFirst ihSecond =>
    obtain ⟨middle, _, _, before, after, _⟩ := read_seq_matched.1 found
    obtain ⟨taken, first⟩ := ihFirst _ _ _ before
    obtain ⟨taken', second⟩ := ihSecond _ _ _ after
    exact ⟨taken ++ taken', first.trans second⟩
  | alt first second ihFirst ihSecond =>
    rcases read_alt_matched.1 found with found | ⟨_, found⟩
    · exact ihFirst _ _ _ found
    · exact ihSecond _ _ _ found
  | many item ih => exact (rounds_of_read_many found).takes ih
  | optional item ih =>
    rcases read_optional_matched.1 found with found | ⟨_, rfl, _⟩
    · exact ih _ _ _ found
    · exact ⟨[], .refl _⟩
  | ahead item ih =>
    obtain ⟨rfl, _⟩ := read_ahead_matched.1 found
    exact ⟨[], .refl _⟩
  | notAhead item ih =>
    obtain ⟨rfl, _⟩ := read_notAhead_matched.1 found
    exact ⟨[], .refl _⟩
  | rule name => exact rules name here stop nodes found

/-- A match takes characters from the front of the text. -/
theorem read_takes {p : Pattern Rule} (found : g.read depth p here = .matched stop nodes) :
    ∃ taken, here.Takes taken stop := by
  induction depth generalizing p here stop nodes with
  | zero =>
    refine takes_of_rules (fun name here stop nodes found => ?_) p here stop nodes found
    cases found
  | succ depth ih =>
    refine takes_of_rules (fun name here stop nodes found => ?_) p here stop nodes found
    obtain ⟨below, children, eq, found, _⟩ := read_rule_matched.1 found
    cases eq
    exact ih found

theorem takes_of_rounds (rounds : g.Rounds depth item here stop nodes) :
    ∃ taken, here.Takes taken stop := rounds.takes fun _ _ _ => read_takes

/-- As many rounds as there are characters, and one to stop, are enough for a repetition. -/
theorem read_many_ne_exhausted (each : ∀ here, g.read depth item here ≠ .exhausted) :
    g.read depth (.many item) here ≠ .exhausted := by
  suffices enough : ∀ rounds nodes here reach, here.rest.length < rounds →
      (Matcher.repeat (item.run (g.matchRule depth)) rounds nodes here reach).1 ≠ .exhausted from
    enough _ _ _ _ (Nat.lt_succ_self _)
  intro rounds
  induction rounds with
  | zero => exact fun _ _ _ short => absurd short (Nat.not_lt_zero _)
  | succ rounds ih =>
    intro nodes here reach short
    have same := g.run_fst depth item here reach
    unfold Matcher.repeat
    rcases eq : item.run (g.matchRule depth) here reach with ⟨result, reach'⟩
    rw [eq] at same
    cases result with
    | exhausted => exact absurd same.symm (each here)
    | failed => nofun
    | matched stop new =>
      dsimp only
      by_cases stays : stop.offset = here.offset
      · rw [if_pos stays]
        nofun
      · rw [if_neg stays]
        obtain ⟨taken, takes⟩ := read_takes same.symm
        have some : 0 < taken.length :=
          List.length_pos_iff.2 fun none => stays (takes.stays_iff.2 none)
        have shorter := congrArg List.length takes.rest
        rw [List.length_append] at shorter
        exact ih _ _ _ (by omega)

theorem Rounds.unique {stop' : Cursor} {nodes' : List (Node Rule)}
    (rounds : g.Rounds depth item here stop nodes) (other : g.Rounds depth item here stop' nodes') :
    stop' = stop ∧ nodes' = nodes := by
  induction rounds generalizing nodes' with
  | done failed =>
    cases other with
    | done | still => exact ⟨rfl, rfl⟩
    | more found => cases failed.symm.trans found
  | still found stays =>
    cases other with
    | done | still => exact ⟨rfl, rfl⟩
    | more found' moves =>
      cases found.symm.trans found'
      exact absurd stays moves
  | more found moves _ ih =>
    cases other with
    | done failed => cases failed.symm.trans found
    | still found' stays =>
      cases found.symm.trans found'
      exact absurd stays moves
    | more found' _ later' =>
      cases found.symm.trans found'
      obtain ⟨rfl, rfl⟩ := ih later'
      exact ⟨rfl, rfl⟩

/-- The rounds of a repetition are what it matches, unless the bound on nesting is met. -/
theorem read_many_of_rounds (rounds : g.Rounds depth item here stop nodes)
    (ends : g.read depth (.many item) here ≠ .exhausted) :
    g.read depth (.many item) here = .matched stop nodes := by
  cases eq : g.read depth (.many item) here with
  | failed => exact absurd eq read_many_ne_failed
  | exhausted => exact absurd eq ends
  | matched stop' nodes' =>
    obtain ⟨rfl, rfl⟩ := rounds.unique (rounds_of_read_many eq)
    rfl

theorem read_of_parse {name : Rule} {source : List Char} {node : Node Rule}
    (parsed : g.parse name source = .ok node) :
    ∃ stop, g.read (g.depthBound source) (.rule name) ⟨source, 0⟩ = .matched stop [node] := by
  unfold parse at parsed
  split at parsed
  next stop node' reach eq =>
    cases parsed
    exact ⟨stop, congrArg Prod.fst eq⟩
  · cases parsed

end Grammar

end

end ScriptEngine
