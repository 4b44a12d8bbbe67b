import ScriptEngine.Proofs.Grammar.Reading

/-!
# Comparing matches and judging patterns

A pattern is matched at two cursors that are related in some way, and the two matches correspond:
both fail, or both match and stop at related cursors. The relation may depend on a level, the
number of brackets that are still to be closed behind the cursors; the `Effect` of a pattern says
how the level changes. One lemma for each way to combine patterns carries the correspondence from
the parts to the whole (`Simulates.seq` and so on).

Other questions are answered by looking at the patterns of a grammar: whether a pattern takes at
least one character whenever it matches (`Pattern.moves`) or one that is not in a given class
(`Pattern.leaves`), and whether it cannot match in front of a given character or at the end of the
text (`Pattern.reaction`). Where rules are involved, the answer is computed for a set of rules
at once, which has to be closed: the answer for the pattern of each of them is yes if it is assumed
to be so for the others (`Grammar.moves_of_closed`, `Grammar.leaves_of_closed`,
`Grammar.not_matched_of_refuses`).
-/
namespace ScriptEngine

/-! ## Two readings side by side -/

/-! ### Effects on the level -/

/-- What a stretch of text does to the nesting of brackets: it closes `low` brackets opened before
it and leaves `high` of its own open. -/
structure Effect where
  low : Nat
  high : Nat
deriving DecidableEq, Repr

namespace Effect

/-- Every bracket is closed again. -/
def even : Effect := ⟨0, 0⟩

def opening : Effect := ⟨0, 1⟩

/-- One stretch after the other. -/
def andThen (a b : Effect) : Effect := ⟨a.low + (b.low - a.high), b.high + (a.high - b.low)⟩

@[simp]
theorem even_andThen (a : Effect) : even.andThen a = a := by simp [andThen, even]

@[simp]
theorem andThen_even (a : Effect) : a.andThen even = a := by simp [andThen, even]

theorem andThen_assoc (a b c : Effect) : (a.andThen b).andThen c = a.andThen (b.andThen c) := by
  simp only [andThen, mk.injEq]
  omega

end Effect

section

variable {Rule : Type}

/-- How two matches correspond: they match with related outcomes, or they fail. A match that has
met the bound on the nesting of rules says nothing. -/
inductive Match.Corresponds (related : Cursor → Cursor → Prop)
    (alike : List (Node Rule) → List (Node Rule) → Prop) : Match Rule → Match Rule → Prop where
  | matched {stop stop' : Cursor} {nodes nodes' : List (Node Rule)} (stops : related stop stop')
    (same : alike nodes nodes') : Corresponds related alike (.matched stop nodes) (.matched stop' nodes')
  | failed : Corresponds related alike .failed .failed
  | left (found : Match Rule) : Corresponds related alike .exhausted found
  | right (found : Match Rule) : Corresponds related alike found .exhausted

namespace Match.Corresponds

variable {related related' : Cursor → Cursor → Prop}
  {alike : List (Node Rule) → List (Node Rule) → Prop} {found found' : Match Rule}

variable {g : Grammar Rule} {depth depth' : Nat} {here here' : Cursor} {first second : Pattern Rule}

theorem alt
    (left : (g.read depth first here).Corresponds related alike (g.read depth' first here'))
    (right : (g.read depth second here).Corresponds related alike (g.read depth' second here')) :
    (g.read depth (.alt first second) here).Corresponds related alike
      (g.read depth' (.alt first second) here') := by
  rw [g.read_alt, g.read_alt]
  generalize g.read depth first here = result, g.read depth' first here' = result' at left ⊢
  cases left with
  | matched stops same => exact .matched stops same
  | failed => exact right
  | left => exact .left _
  | right => exact .right _

end Match.Corresponds

/-- What is fixed when two readings are compared: the bounds on the nesting of rules, how cursors
are related at a level, and which nodes are alike. -/
structure Comparison (g : Grammar Rule) where
  depth : Nat
  depth' : Nat
  related : Nat → Cursor → Cursor → Prop
  alike : List (Node Rule) → List (Node Rule) → Prop
  alike_nil : alike [] []
  alike_append {before before' after after' : List (Node Rule)} :
    alike before before' → alike after after' → alike (before ++ after) (before' ++ after')

variable {g : Grammar Rule}

/-- At related cursors, the two readings of the pattern correspond. -/
def Comparison.Simulates (c : Comparison g) (p : Pattern Rule) (e : Effect) : Prop :=
  ∀ level here here', c.related (level + e.low) here here' →
    (g.read c.depth p here).Corresponds (c.related (level + e.high)) c.alike
      (g.read c.depth' p here')

/-- One part after the other. -/
theorem Comparison.seq_corresponds (c : Comparison g) {first second : Pattern Rule}
    {here here' : Cursor} {middles stops : Cursor → Cursor → Prop}
    (before : (g.read c.depth first here).Corresponds middles c.alike (g.read c.depth' first here'))
    (after : ∀ middle middle', middles middle middle' →
      (g.read c.depth second middle).Corresponds stops c.alike (g.read c.depth' second middle')) :
    (g.read c.depth (.seq first second) here).Corresponds stops c.alike
      (g.read c.depth' (.seq first second) here') := by
  rw [g.read_seq, g.read_seq]
  generalize g.read c.depth first here = result, g.read c.depth' first here' = result' at before ⊢
  cases before with
  | failed => exact .failed
  | left => exact .left _
  | right => exact .right _
  | @matched middle middle' nodes nodes' found same =>
    have next := after middle middle' found
    dsimp only [Match.andThen]
    generalize g.read c.depth second middle = result,
      g.read c.depth' second middle' = result' at next ⊢
    cases next with
    | failed => exact .failed
    | left => exact .left _
    | right => exact .right _
    | matched found same' => exact .matched found (c.alike_append same same')

/-- Every match of the pattern moves on. -/
def Grammar.Moves (g : Grammar Rule) (p : Pattern Rule) : Prop :=
  ∀ depth here stop nodes, g.read depth p here = .matched stop nodes → stop.offset ≠ here.offset

namespace Comparison.Simulates

variable {c : Comparison g} {p first second item : Pattern Rule} {e a b : Effect}

theorem seq (before : c.Simulates first a) (after : c.Simulates second b) :
    c.Simulates (.seq first second) (a.andThen b) := by
  intro level here here' related
  have found := before (level + (b.low - a.high)) here here' (by
    rwa [Effect.andThen, Nat.add_comm a.low, ← Nat.add_assoc] at related)
  refine c.seq_corresponds found fun middle middle' stops => ?_
  have levels : level + (b.low - a.high) + a.high = level + (a.high - b.low) + b.low := by omega
  have next := after (level + (a.high - b.low)) middle middle' (levels ▸ stops)
  have levels : level + (a.high - b.low) + b.high = level + (a.andThen b).high := by
    simp only [Effect.andThen]
    omega
  rwa [levels] at next

theorem alt (left : c.Simulates first e) (right : c.Simulates second e) :
    c.Simulates (.alt first second) e := fun level here here' related =>
  (left level here here' related).alt (right level here here' related)

theorem optional (inside : c.Simulates item .even) : c.Simulates (.optional item) .even := by
  intro level here here' related
  have found := inside level here here' related
  rw [g.read_optional, g.read_optional]
  generalize g.read c.depth item here = result, g.read c.depth' item here' = result' at found ⊢
  cases found with
  | matched stops same => exact .matched stops same
  | failed => exact .matched related c.alike_nil
  | left => exact .left _
  | right => exact .right _

theorem notAhead (inside : c.Simulates item e) (closed : e.low = 0) :
    c.Simulates (.notAhead item) .even := by
  intro level here here' related
  have found := inside level here here' (closed ▸ related)
  rw [g.read_notAhead, g.read_notAhead]
  generalize g.read c.depth item here = result, g.read c.depth' item here' = result' at found ⊢
  cases found with
  | matched => exact .failed
  | failed => exact .matched related c.alike_nil
  | left => exact .left _
  | right => exact .right _

private theorem rounds (moves : g.Moves item) (inside : c.Simulates item .even)
    {level : Nat} {here here' stop stop' : Cursor} {nodes nodes' : List (Node Rule)}
    (found : g.Rounds c.depth item here stop nodes)
    (found' : g.Rounds c.depth' item here' stop' nodes')
    (related : c.related level here here') : c.related level stop stop' ∧ c.alike nodes nodes' := by
  induction found generalizing here' nodes' with
  | done failed =>
    have same := inside level _ _ related
    rw [failed] at same
    cases found' with
    | done | still => exact ⟨related, c.alike_nil⟩
    | more found =>
      rw [found] at same
      cases same
  | still found stays => exact absurd stays (moves _ _ _ _ found)
  | more found _ _ ih =>
    have same := inside level _ _ related
    rw [found] at same
    cases found' with
    | done failed =>
      rw [failed] at same
      cases same
    | still found' stays => exact absurd stays (moves _ _ _ _ found')
    | more found' _ later' =>
      rw [found'] at same
      cases same with
      | matched stops same =>
        obtain ⟨related, same'⟩ := ih later' stops
        exact ⟨related, c.alike_append same same'⟩

theorem many (moves : g.Moves item) (inside : c.Simulates item .even) :
    c.Simulates (.many item) .even := by
  intro level here here' related
  cases eq : g.read c.depth (.many item) here with
  | exhausted => exact .left _
  | failed => exact absurd eq Grammar.read_many_ne_failed
  | matched stop nodes =>
    cases eq' : g.read c.depth' (.many item) here' with
    | exhausted => exact .right _
    | failed => exact absurd eq' Grammar.read_many_ne_failed
    | matched stop' nodes' =>
      have same := rounds moves inside (Grammar.rounds_of_read_many eq)
        (Grammar.rounds_of_read_many eq') related
      exact .matched same.1 same.2

end Comparison.Simulates

end

/-! ## What the patterns alone tell -/

section

variable {Rule : Type}

namespace Pattern

/-- Takes at least one character, provided that the known rules do. -/
def moves (known : Rule → Bool) : Pattern Rule → Bool
  | .one _ => true
  | .text chars => !chars.isEmpty
  | .seq first second => first.moves known || second.moves known
  | .alt first second => first.moves known && second.moves known
  | .many _ | .optional _ | .ahead _ | .notAhead _ => false
  | .rule name => known name

/-- Takes at least one character that is not in a class, provided that the known rules do. -/
def leaves (known : Rule → Bool) (inside : Char → Bool) : Pattern Rule → Bool
  | .text chars => chars.any (!inside ·)
  | .seq first second => first.leaves known inside || second.leaves known inside
  | .alt first second => first.leaves known inside && second.leaves known inside
  | .one _ | .many _ | .optional _ | .ahead _ | .notAhead _ => false
  | .rule name => known name

/-- What a pattern can do in front of a character. -/
inductive Reaction where
  /-- It does not match. -/
  | refuses
  /-- If it matches, it takes nothing. -/
  | skips
  | takes
deriving DecidableEq

/-- The reaction to a character, or to the end of the text, provided that the known rules refuse
it. -/
def reaction (known : Rule → Bool) (next : Option Char) : Pattern Rule → Reaction
  | .one accepts => if next.all (!accepts ·) then .refuses else .takes
  | .text chars =>
    if chars.isEmpty then .skips else if chars.head? = next then .takes else .refuses
  | .seq first second =>
    match first.reaction known next with
    | .skips => second.reaction known next
    | other => other
  | .alt first second =>
    match first.reaction known next, second.reaction known next with
    | .refuses, other | other, .refuses => other
    | .skips, .skips => .skips
    | _, _ => .takes
  | .many item | .optional item =>
    match item.reaction known next with
    | .takes => .takes
    | _ => .skips
  | .ahead item =>
    match item.reaction known next with
    | .refuses => .refuses
    | _ => .skips
  | .notAhead _ => .skips
  | .rule name => if known name then .refuses else .takes

end Pattern

namespace Grammar

variable {g : Grammar Rule} {known : Rule → Bool} {next : Option Char}

theorem read_offset_le {depth : Nat} {p : Pattern Rule} {here stop : Cursor}
    {nodes : List (Node Rule)} (found : g.read depth p here = .matched stop nodes) :
    here.offset ≤ stop.offset := by
  obtain ⟨taken, takes⟩ := read_takes found
  have := takes.offset
  omega

private theorem moves_of_rules {depth : Nat}
    (rules : ∀ name, known name = true → ∀ here stop nodes,
      g.read depth (.rule name) here = .matched stop nodes → stop.offset ≠ here.offset)
    (p : Pattern Rule) (moves : p.moves known = true) (here stop : Cursor)
    (nodes : List (Node Rule)) (found : g.read depth p here = .matched stop nodes) :
    stop.offset ≠ here.offset := by
  induction p generalizing here stop nodes with
  | one accepts =>
    obtain ⟨c, _, _, offset, _⟩ := read_one_matched.1 found
    have := c.utf8Size_pos
    omega
  | text chars =>
    obtain ⟨takes, _⟩ := read_text_matched.1 found
    rw [Ne, takes.stays_iff]
    rintro rfl
    cases moves
  | seq first second ihFirst ihSecond =>
    obtain ⟨middle, _, _, before, after, _⟩ := read_seq_matched.1 found
    have le := read_offset_le before
    have le' := read_offset_le after
    rcases Bool.or_eq_true_iff.1 moves with moves | moves
    · have := ihFirst moves _ _ _ before
      omega
    · have := ihSecond moves _ _ _ after
      omega
  | alt first second ihFirst ihSecond =>
    obtain ⟨left, right⟩ := Bool.and_eq_true_iff.1 moves
    rcases read_alt_matched.1 found with found | ⟨_, found⟩
    · exact ihFirst left _ _ _ found
    · exact ihSecond right _ _ _ found
  | many | optional | ahead | notAhead => cases moves
  | rule name => exact rules name moves here stop nodes found

/-- Every match of a known rule moves on, if that follows for their patterns. -/
theorem moves_of_closed
    (closed : ∀ name, known name = true → (g.pattern name).moves known = true) {p : Pattern Rule}
    (moves : p.moves known = true) : g.Moves p := by
  intro depth
  induction depth generalizing p with
  | zero =>
    refine moves_of_rules (fun name _ here stop nodes found => ?_) p moves
    cases found
  | succ depth ih =>
    refine moves_of_rules (fun name mem here stop nodes found => ?_) p moves
    obtain ⟨_, children, eq, found, _⟩ := read_rule_matched.1 found
    cases eq
    exact ih (closed name mem) here stop children found

private theorem leaves_of_rules {inside : Char → Bool} {depth : Nat}
    (rules : ∀ name, known name = true → ∀ here stop nodes taken, here.Takes taken stop →
      g.read depth (.rule name) here = .matched stop nodes → ∃ c ∈ taken, inside c = false)
    (p : Pattern Rule) (leaves : p.leaves known inside = true) (here stop : Cursor)
    (nodes : List (Node Rule)) (taken : List Char) (takes : here.Takes taken stop)
    (found : g.read depth p here = .matched stop nodes) : ∃ c ∈ taken, inside c = false := by
  induction p generalizing here stop nodes taken with
  | one | many | optional | ahead | notAhead => cases leaves
  | text chars =>
    obtain ⟨takes', _⟩ := read_text_matched.1 found
    cases List.append_cancel_right (takes.rest.symm.trans takes'.rest)
    obtain ⟨c, mem, outside⟩ := List.any_eq_true.1 leaves
    exact ⟨c, mem, by simpa using outside⟩
  | seq first second ihFirst ihSecond =>
    obtain ⟨middle, _, _, before, after, _⟩ := read_seq_matched.1 found
    obtain ⟨front, takes'⟩ := read_takes before
    obtain ⟨back, takes''⟩ := read_takes after
    cases List.append_cancel_right (takes.rest.symm.trans (takes'.trans takes'').rest)
    rcases Bool.or_eq_true_iff.1 leaves with leaves | leaves
    · obtain ⟨c, mem, outside⟩ := ihFirst leaves _ _ _ _ takes' before
      exact ⟨c, List.mem_append_left _ mem, outside⟩
    · obtain ⟨c, mem, outside⟩ := ihSecond leaves _ _ _ _ takes'' after
      exact ⟨c, List.mem_append_right _ mem, outside⟩
  | alt first second ihFirst ihSecond =>
    obtain ⟨left, right⟩ := Bool.and_eq_true_iff.1 leaves
    rcases read_alt_matched.1 found with found | ⟨_, found⟩
    · exact ihFirst left _ _ _ _ takes found
    · exact ihSecond right _ _ _ _ takes found
  | rule name => exact rules name leaves here stop nodes taken takes found

/-- Every match of a known rule takes a character outside of the class, if that follows for their
patterns. -/
theorem leaves_of_closed {inside : Char → Bool}
    (closed : ∀ name, known name = true → (g.pattern name).leaves known inside = true)
    {p : Pattern Rule} (leaves : p.leaves known inside = true) {depth : Nat} {here stop : Cursor}
    {nodes : List (Node Rule)} {taken : List Char} (takes : here.Takes taken stop)
    (found : g.read depth p here = .matched stop nodes) : ∃ c ∈ taken, inside c = false := by
  induction depth generalizing p here stop nodes taken with
  | zero =>
    refine leaves_of_rules (fun name _ here stop nodes _ _ found => ?_) p leaves _ _ _ _ takes found
    cases found
  | succ depth ih =>
    refine leaves_of_rules (fun name mem here stop nodes taken takes found => ?_) p leaves _ _ _ _
      takes found
    obtain ⟨_, children, eq, found, _⟩ := read_rule_matched.1 found
    cases eq
    exact ih (closed name mem) takes found

/-- A pattern that takes nothing stops where it was tried. -/
private theorem eq_of_offset {depth : Nat} {p : Pattern Rule} {here stop : Cursor}
    {nodes : List (Node Rule)} (found : g.read depth p here = .matched stop nodes)
    (stays : stop.offset = here.offset) : stop = here := by
  obtain ⟨taken, takes⟩ := read_takes found
  cases takes.stays_iff.1 stays
  rcases here with ⟨rest, offset⟩
  rcases stop with ⟨rest', offset'⟩
  cases takes.rest
  cases stays
  rfl

/-- What a reaction says of a match. -/
private def Bears (here stop : Cursor) : Pattern.Reaction → Prop
  | .refuses => False
  | .skips => stop = here
  | .takes => True

private theorem bears_of_rules {depth : Nat}
    (rules : ∀ name, known name = true → ∀ here stop nodes, here.rest.head? = next →
      g.read depth (.rule name) here ≠ .matched stop nodes)
    (p : Pattern Rule) (here stop : Cursor) (nodes : List (Node Rule))
    (first : here.rest.head? = next) (found : g.read depth p here = .matched stop nodes) :
    Bears here stop (p.reaction known next) := by
  induction p generalizing here stop nodes with
  | one accepts =>
    obtain ⟨c, rest, accepted, _⟩ := read_one_matched.1 found
    rw [rest] at first
    subst first
    simp [Pattern.reaction, accepted, Bears]
  | text chars =>
    obtain ⟨takes, _⟩ := read_text_matched.1 found
    cases chars with
    | nil => exact eq_of_offset found (takes.stays_iff.2 rfl)
    | cons c chars =>
      rw [takes.rest] at first
      subst first
      simp [Pattern.reaction, Bears]
  | seq before after ihFirst ihSecond =>
    obtain ⟨middle, _, _, found, found', _⟩ := read_seq_matched.1 found
    have bears := ihFirst _ _ _ first found
    unfold Pattern.reaction
    cases eq : before.reaction known next with
    | refuses =>
      rw [eq] at bears
      exact bears.elim
    | takes => trivial
    | skips =>
      rw [eq] at bears
      cases bears
      exact ihSecond _ _ _ first found'
  | alt before after ihFirst ihSecond =>
    unfold Pattern.reaction
    rcases read_alt_matched.1 found with found | ⟨_, found⟩
    · have bears := ihFirst _ _ _ first found
      revert bears
      cases before.reaction known next <;> cases after.reaction known next <;> simp [Bears]
    · have bears := ihSecond _ _ _ first found
      revert bears
      cases before.reaction known next <;> cases after.reaction known next <;> simp [Bears]
  | many item ih =>
    unfold Pattern.reaction
    cases rounds_of_read_many found with
    | done | still => cases item.reaction known next <;> simp [Bears]
    | more round moves =>
      have bears := ih _ _ _ first round
      cases eq : item.reaction known next with
      | takes => trivial
      | refuses =>
        rw [eq] at bears
        exact bears.elim
      | skips =>
        rw [eq] at bears
        exact absurd (congrArg Cursor.offset bears) moves
  | optional item ih =>
    unfold Pattern.reaction
    rcases read_optional_matched.1 found with found | ⟨_, rfl, _⟩
    · have bears := ih _ _ _ first found
      revert bears
      cases item.reaction known next <;> simp [Bears]
    · cases item.reaction known next <;> simp [Bears]
  | ahead item ih =>
    unfold Pattern.reaction
    obtain ⟨rfl, _, _, _, found⟩ := read_ahead_matched.1 found
    have bears := ih _ _ _ first found
    revert bears
    cases item.reaction known next <;> simp [Bears]
  | notAhead item => exact (read_notAhead_matched.1 found).1
  | rule name =>
    unfold Pattern.reaction
    by_cases mem : known name = true
    · exact absurd found (rules name mem _ _ _ first)
    · rw [if_neg mem]
      trivial

/-- The known rules refuse a character, if that follows for their patterns. -/
def Refused (g : Grammar Rule) (known : Rule → Bool) (next : Option Char) : Prop :=
  ∀ name, known name = true → (g.pattern name).reaction known next = .refuses

private theorem not_matched_of_known (refused : g.Refused known next) (depth : Nat) (name : Rule)
    (mem : known name = true) (here stop : Cursor) (nodes : List (Node Rule))
    (first : here.rest.head? = next) : g.read depth (.rule name) here ≠ .matched stop nodes := by
  induction depth generalizing name here stop nodes with
  | zero => nofun
  | succ depth ih =>
    intro found
    obtain ⟨_, children, eq, found, _⟩ := read_rule_matched.1 found
    cases eq
    have bears := bears_of_rules ih (g.pattern name) here stop children first found
    rw [refused name mem] at bears
    exact bears

section

variable {p : Pattern Rule} {depth : Nat} {here stop : Cursor} {nodes : List (Node Rule)}

/-- A pattern does not match in front of what it refuses. -/
theorem not_matched_of_refuses (refused : g.Refused known next)
    (refuses : p.reaction known next = .refuses) (first : here.rest.head? = next) :
    g.read depth p here ≠ .matched stop nodes := by
  intro found
  have bears := bears_of_rules (not_matched_of_known refused depth) p here stop nodes first found
  rw [refuses] at bears
  exact bears

/-- A pattern that skips what comes next stops where it is. -/
theorem eq_of_skips (refused : g.Refused known next) (skips : p.reaction known next = .skips)
    (first : here.rest.head? = next) (found : g.read depth p here = .matched stop nodes) :
    stop = here := by
  have bears := bears_of_rules (not_matched_of_known refused depth) p here stop nodes first found
  rw [skips] at bears
  exact bears

/-- No rule need be known to refuse. -/
theorem refused_none : g.Refused (fun _ => false) next := fun _ never => nomatch never

end

/-- A repetition of something that moves stops where that fails. -/
theorem Rounds.failed {depth : Nat} {item : Pattern Rule} {here stop : Cursor}
    {nodes : List (Node Rule)} (rounds : g.Rounds depth item here stop nodes)
    (moves : g.Moves item) : g.read depth item stop = .failed := by
  induction rounds with
  | done failed => exact failed
  | still found stays => exact absurd stays (moves _ _ _ _ found)
  | more _ _ _ ih => exact ih

end Grammar

end

end ScriptEngine
