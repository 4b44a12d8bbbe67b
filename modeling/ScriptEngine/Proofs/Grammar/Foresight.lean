import Mathlib.Data.Bool.AllAny
import ScriptEngine.Proofs.Grammar.Outcome

/-!
# Reading a text from its beginning

Nodes know the places that they were matched at, but whether a pattern matches, and what is left of
the text then, does not depend on the place. `Grammar.Yields` says that a pattern reads a text up to
a rest wherever the text stands, and what is known of the nodes it makes; `Grammar.Refuses` that it
does not match. Where the beginning of the text is known, both are often a matter of computation:
`Grammar.foresee` tells what a pattern does from a few characters alone (`Grammar.refuses_of_foresee`,
`Grammar.skips_of_foresee`).
-/
namespace ScriptEngine.Grammar

section

variable {Rule : Type} {g : Grammar Rule} {p first second item : Pattern Rule}
  {text middle rest : List Char} {made made' : List (Node Rule) → Prop}

/-! ## Readings wherever the text stands -/

/-- The pattern reads the text up to the rest, and what it makes is as said. -/
def Yields (g : Grammar Rule) (p : Pattern Rule) (text rest : List Char)
    (made : List (Node Rule) → Prop) : Prop :=
  ∀ here : Cursor, here.rest = text →
    ∃ stop nodes, stop.rest = rest ∧ g.Matches p here stop nodes ∧ made nodes

/-- The pattern reads the text up to the rest and makes nothing of it. -/
abbrev Skips (g : Grammar Rule) (p : Pattern Rule) (text rest : List Char) : Prop :=
  g.Yields p text rest (· = [])

/-- The pattern does not match the text. -/
def Refuses (g : Grammar Rule) (p : Pattern Rule) (text : List Char) : Prop :=
  ∀ here : Cursor, here.rest = text → g.Fails p here

theorem Yields.mono (reads : g.Yields p text rest made) (weaker : ∀ nodes, made nodes → made' nodes) :
    g.Yields p text rest made' := by
  intro here eq
  obtain ⟨stop, nodes, ends, found, known⟩ := reads here eq
  exact ⟨stop, nodes, ends, found, weaker nodes known⟩

/-- One part after the other, with what both of them make. -/
theorem Yields.seq (before : g.Yields first text middle made)
    (after : g.Yields second middle rest made') :
    g.Yields (.seq first second) text rest fun nodes =>
      ∃ front back, made front ∧ made' back ∧ nodes = front ++ back := by
  intro here eq
  obtain ⟨between, front, ends, found, known⟩ := before here eq
  obtain ⟨stop, back, ends', found', known'⟩ := after between ends
  exact ⟨stop, front ++ back, ends', found.seq found', front, back, known, known', rfl⟩

theorem Skips.seq (before : g.Skips first text middle) (after : g.Yields second middle rest made) :
    g.Yields (.seq first second) text rest made :=
  (Yields.seq before after).mono fun _ ⟨_, _, empty, known, eq⟩ => by
    rwa [eq, empty]

theorem Yields.skip (before : g.Yields first text middle made)
    (after : g.Skips second middle rest) : g.Yields (.seq first second) text rest made :=
  (Yields.seq before after).mono fun _ ⟨_, _, known, empty, eq⟩ => by
    rwa [eq, empty, List.append_nil]

theorem Yields.alt_left (reads : g.Yields first text rest made) :
    g.Yields (.alt first second) text rest made := by
  intro here eq
  obtain ⟨stop, nodes, ends, found, known⟩ := reads here eq
  exact ⟨stop, nodes, ends, found.alt_left, known⟩

theorem Yields.alt_right (refuses : g.Refuses first text) (reads : g.Yields second text rest made) :
    g.Yields (.alt first second) text rest made := by
  intro here eq
  obtain ⟨stop, nodes, ends, found, known⟩ := reads here eq
  exact ⟨stop, nodes, ends, .alt_right (refuses here eq) found, known⟩

theorem Yields.optional (reads : g.Yields item text rest made) :
    g.Yields (.optional item) text rest made := by
  intro here eq
  obtain ⟨stop, nodes, ends, found, known⟩ := reads here eq
  exact ⟨stop, nodes, ends, found.optional, known⟩

/-- A round of a repetition that takes something, and the rounds that follow it. -/
theorem Yields.many (round : g.Yields item text middle made) (shorter : middle.length < text.length)
    (later : g.Yields (.many item) middle rest made') :
    g.Yields (.many item) text rest fun nodes =>
      ∃ front back, made front ∧ made' back ∧ nodes = front ++ back := by
  intro here eq
  obtain ⟨between, front, ends, found, known⟩ := round here eq
  obtain ⟨stop, back, ends', found', known'⟩ := later between ends
  obtain ⟨taken, takes⟩ := found.takes
  have moves : between.offset ≠ here.offset := by
    rw [Ne, takes.stays_iff]
    rintro rfl
    have same := takes.rest
    rw [eq, ends] at same
    simp [same] at shorter
  exact ⟨stop, front ++ back, ends', found.many moves found', front, back, known, known', rfl⟩

/-- The node of a rule that is no token has what the pattern made below it. -/
theorem Yields.branch (name : Rule) (branch : g.isToken name = false)
    (reads : g.Yields (g.pattern name) text rest made) :
    g.Yields (.rule name) text rest fun nodes =>
      ∃ span children, made children ∧ nodes = [.branch name span children] := by
  intro here eq
  obtain ⟨stop, nodes, ends, found, known⟩ := reads here eq
  refine ⟨stop, _, ends, found.rule, ⟨here.offset, stop.offset⟩, nodes, known, ?_⟩
  simp [Grammar.node, branch]

/-- The node of a token has the text that was taken. -/
theorem Yields.token (name : Rule) {taken : List Char} (token : g.isToken name = true)
    (reads : g.Yields (g.pattern name) (taken ++ rest) rest made) :
    g.Yields (.rule name) (taken ++ rest) rest fun nodes =>
      ∃ span, nodes = [.token name span (String.ofList taken)] := by
  intro here eq
  obtain ⟨stop, nodes, ends, found, _⟩ := reads here eq
  refine ⟨stop, _, ends, found.rule, ⟨here.offset, stop.offset⟩, ?_⟩
  obtain ⟨taken', takes⟩ := found.takes
  have same : taken = taken' := by
    have whole := takes.rest
    rw [eq, ends] at whole
    exact List.append_cancel_right whole
  subst same
  have bytes : stop.offset - here.offset = byteLength taken := by
    rw [takes.offset, Nat.add_sub_cancel_left]
  simp [Grammar.node, token, bytes, eq, takeBytes_append]

theorem Refuses.seq (refuses : g.Refuses first text) : g.Refuses (.seq first second) text :=
  fun here eq => (refuses here eq).seq_left

theorem Yields.refuses_seq (before : g.Yields first text middle made)
    (refuses : g.Refuses second middle) : g.Refuses (.seq first second) text := by
  intro here eq
  obtain ⟨between, front, ends, found, _⟩ := before here eq
  exact .seq_right found (refuses between ends)

theorem Refuses.alt (left : g.Refuses first text) (right : g.Refuses second text) :
    g.Refuses (.alt first second) text := fun here eq => .alt (left here eq) (right here eq)

theorem Refuses.rule {name : Rule} (refuses : g.Refuses (g.pattern name) text) :
    g.Refuses (.rule name) text := fun here eq => (refuses here eq).rule

theorem Refuses.optional (refuses : g.Refuses item text) : g.Skips (.optional item) text text :=
  fun here eq => ⟨here, [], eq, (refuses here eq).optional, rfl⟩

/-- A repetition ends where there is no further round. -/
theorem Refuses.many (refuses : g.Refuses item text) : g.Skips (.many item) text text :=
  fun here eq => ⟨here, [], eq, (refuses here eq).many, rfl⟩

theorem Refuses.notAhead (refuses : g.Refuses item text) : g.Skips (.notAhead item) text text :=
  fun here eq => ⟨here, [], eq, (refuses here eq).notAhead, rfl⟩

theorem Yields.notAhead (reads : g.Yields item text rest made) : g.Refuses (.notAhead item) text := by
  intro here eq
  obtain ⟨stop, nodes, ends, found, _⟩ := reads here eq
  exact found.notAhead

theorem skips_text (chars rest : List Char) : g.Skips (.text chars) (chars ++ rest) rest := fun here eq =>
  ⟨⟨rest, here.offset + byteLength chars⟩, [], rfl, .text ⟨eq, rfl⟩, rfl⟩

theorem skips_one {accepts : Char → Bool} {c : Char} (accepted : accepts c = true)
    (rest : List Char) : g.Skips (.one accepts) (c :: rest) rest := fun here eq =>
  ⟨⟨rest, here.offset + c.utf8Size⟩, [], rfl,
    ⟨0, read_one_matched.2 ⟨c, eq, accepted, rfl, rfl⟩⟩, rfl⟩

theorem refuses_one {accepts : Char → Bool} (refused : ∀ c ∈ text.head?, accepts c = false) :
    g.Refuses (.one accepts) text := fun _ eq => .one (by rwa [eq])

/-! ## Foresight -/

/-- What is known of how a pattern reads a text. -/
inductive Foresight where
  | unknown
  | fails
  /-- It matches, and this is left of what is known of the text; `silent` tells that it makes no
  nodes. -/
  | leaves (rest : List Char) (silent : Bool)
deriving DecidableEq

/-- What becomes of a text in front of some characters; `whole` tells whether nothing follows what
is known of the text. -/
def foreseeText (whole : Bool) : (chars known : List Char) → Foresight
  | [], known => .leaves known true
  | _ :: _, [] => if whole then .fails else .unknown
  | c :: chars, k :: known => if c = k then foreseeText whole chars known else .fails

/-- What is known of how a pattern reads a text from the beginning of the text. -/
def foresee (g : Grammar Rule) (whole : Bool) : Nat → Pattern Rule → List Char → Foresight
  | 0, _, _ => .unknown
  | _ + 1, .one accepts, known =>
    match known with
    | c :: rest => if accepts c then .leaves rest true else .fails
    | [] => if whole then .fails else .unknown
  | _ + 1, .text chars, known => foreseeText whole chars known
  | fuel + 1, .seq first second, known =>
    match g.foresee whole fuel first known with
    | .leaves rest silent =>
      match g.foresee whole fuel second rest with
      | .leaves rest silent' => .leaves rest (silent && silent')
      | other => other
    | other => other
  | fuel + 1, .alt first second, known =>
    match g.foresee whole fuel first known with
    | .fails => g.foresee whole fuel second known
    | other => other
  | fuel + 1, .many item, known =>
    match g.foresee whole fuel item known with
    | .fails => .leaves known true
    | .unknown => .unknown
    | .leaves rest silent =>
      if rest.length = known.length then .leaves known true
      else match g.foresee whole fuel (.many item) rest with
        | .leaves rest silent' => .leaves rest (silent && silent')
        | other => other
  | fuel + 1, .optional item, known =>
    match g.foresee whole fuel item known with
    | .fails => .leaves known true
    | other => other
  | fuel + 1, .ahead item, known =>
    match g.foresee whole fuel item known with
    | .leaves _ _ => .leaves known true
    | other => other
  | fuel + 1, .notAhead item, known =>
    match g.foresee whole fuel item known with
    | .leaves _ _ => .fails
    | .fails => .leaves known true
    | .unknown => .unknown
  | fuel + 1, .rule name, known =>
    match g.foresee whole fuel (g.pattern name) known with
    | .leaves rest _ => .leaves rest false
    | other => other

/-- What a foresight says of a pattern at a cursor behind which the known characters stand, and then
some more. -/
private def Comes (g : Grammar Rule) (p : Pattern Rule) (here : Cursor) (known : List Char) :
    Foresight → Prop
  | .unknown => True
  | .fails => g.Fails p here
  | .leaves rest silent =>
    ∃ taken stop nodes, known = taken ++ rest ∧ here.Takes taken stop ∧
      g.Matches p here stop nodes ∧ (silent = true → nodes = [])

private theorem comes_text {whole : Bool} {chars known more : List Char} {here : Cursor}
    (eq : here.rest = known ++ more) (ends : whole = true → more = []) :
    Comes g (.text chars) here known (foreseeText whole chars known) := by
  suffices split : ∀ chars known, match foreseeText whole chars known with
      | .unknown => True
      | .fails => ¬ chars <+: known ++ more
      | .leaves rest _ => known = chars ++ rest by
    have told := split chars known
    cases sees : foreseeText whole chars known with
    | unknown => trivial
    | fails =>
      rw [sees] at told
      exact .text (eq ▸ told)
    | leaves rest =>
      rw [sees] at told
      subst told
      rw [List.append_assoc] at eq
      exact ⟨chars, ⟨rest ++ more, _⟩, [], rfl, ⟨eq, rfl⟩, .text ⟨eq, rfl⟩, fun _ => rfl⟩
  intro chars
  induction chars with
  | nil => exact fun _ => rfl
  | cons c chars ih =>
    intro known
    cases known with
    | nil =>
      unfold foreseeText
      cases whole with
      | false => trivial
      | true => simp [ends rfl]
    | cons k known =>
      unfold foreseeText
      by_cases same : c = k
      · subst same
        rw [if_pos rfl]
        have told := ih known
        cases sees : foreseeText whole chars known with
        | unknown => trivial
        | fails =>
          rw [sees] at told
          simpa using told
        | leaves rest =>
          rw [sees] at told
          simpa using told
      · simp [same]

/-- What stands behind the characters that were taken. -/
private theorem rest_of_takes {here middle : Cursor} {taken rest more : List Char}
    (eq : here.rest = taken ++ rest ++ more) (takes : here.Takes taken middle) :
    middle.rest = rest ++ more := by
  have whole := takes.rest
  rw [eq, List.append_assoc] at whole
  exact (List.append_cancel_left whole).symm

private theorem comes {whole : Bool} (fuel : Nat) (p : Pattern Rule) {known more : List Char}
    {here : Cursor} (eq : here.rest = known ++ more) (ends : whole = true → more = []) :
    Comes g p here known (g.foresee whole fuel p known) := by
  induction fuel generalizing p known here with
  | zero => trivial
  | succ fuel ih =>
    cases p with
    | one accepts =>
      cases known with
      | nil =>
        simp only [foresee]
        cases whole with
        | false => trivial
        | true =>
          have none : here.rest = [] := eq.trans (ends rfl)
          exact .one (by simp [none])
      | cons c known =>
        simp only [foresee]
        by_cases accepted : accepts c = true
        · rw [if_pos accepted]
          exact ⟨[c], ⟨known ++ more, here.offset + c.utf8Size⟩, [], rfl, .one eq rfl,
            ⟨0, read_one_matched.2 ⟨c, eq, accepted, rfl, rfl⟩⟩, fun _ => rfl⟩
        · rw [if_neg accepted]
          exact .one (by simpa [eq] using accepted)
    | text chars => exact comes_text eq ends
    | seq first second =>
      have before := ih first eq
      simp only [foresee]
      cases sees : g.foresee whole fuel first known with
      | unknown => trivial
      | fails =>
        rw [sees] at before
        exact .seq_left before
      | leaves rest silent =>
        rw [sees] at before
        obtain ⟨taken, middle, nodes, rfl, takes, found, empty⟩ := before
        have after := ih second (rest_of_takes eq takes)
        dsimp only
        cases sees : g.foresee whole fuel second rest with
        | unknown => trivial
        | fails =>
          rw [sees] at after
          exact .seq_right found after
        | leaves rest' silent' =>
          rw [sees] at after
          obtain ⟨taken', stop, nodes', rfl, takes', found', empty'⟩ := after
          refine ⟨taken ++ taken', stop, nodes ++ nodes', (List.append_assoc ..).symm,
            takes.trans takes', found.seq found', fun both => ?_⟩
          obtain ⟨left, right⟩ := Bool.and_eq_true_iff.1 both
          rw [empty left, empty' right, List.append_nil]
    | alt first second =>
      have left := ih first eq
      simp only [foresee]
      cases sees : g.foresee whole fuel first known with
      | unknown => trivial
      | leaves rest silent =>
        rw [sees] at left
        obtain ⟨taken, stop, nodes, rfl, takes, found, empty⟩ := left
        exact ⟨taken, stop, nodes, rfl, takes, found.alt_left, empty⟩
      | fails =>
        rw [sees] at left
        have right := ih second eq
        dsimp only
        cases sees : g.foresee whole fuel second known with
        | unknown => trivial
        | fails =>
          rw [sees] at right
          exact .alt left right
        | leaves rest silent =>
          rw [sees] at right
          obtain ⟨taken, stop, nodes, rfl, takes, found, empty⟩ := right
          exact ⟨taken, stop, nodes, rfl, takes, .alt_right left found, empty⟩
    | many item =>
      have round := ih item eq
      simp only [foresee]
      cases sees : g.foresee whole fuel item known with
      | unknown => trivial
      | fails =>
        rw [sees] at round
        exact ⟨[], here, [], rfl, .refl here, round.many, fun _ => rfl⟩
      | leaves rest silent =>
        rw [sees] at round
        obtain ⟨taken, middle, nodes, rfl, takes, found, empty⟩ := round
        dsimp only
        by_cases stays : rest.length = (taken ++ rest).length
        · rw [if_pos stays]
          have none : taken = [] := List.length_eq_zero_iff.1 (by simpa using stays)
          exact ⟨[], here, [], rfl, .refl here, found.many_still (takes.stays_iff.2 none),
            fun _ => rfl⟩
        · rw [if_neg stays]
          have moves : middle.offset ≠ here.offset := by
            rw [Ne, takes.stays_iff]
            rintro rfl
            exact stays rfl
          have later := ih (.many item) (rest_of_takes eq takes)
          cases sees : g.foresee whole fuel (.many item) rest with
          | unknown => trivial
          | fails =>
            rw [sees] at later
            obtain ⟨_, failed⟩ := later
            exact absurd failed read_many_ne_failed
          | leaves rest' silent' =>
            rw [sees] at later
            obtain ⟨taken', stop, nodes', rfl, takes', found', empty'⟩ := later
            refine ⟨taken ++ taken', stop, nodes ++ nodes', (List.append_assoc ..).symm,
              takes.trans takes', found.many moves found', fun both => ?_⟩
            obtain ⟨left, right⟩ := Bool.and_eq_true_iff.1 both
            rw [empty left, empty' right, List.append_nil]
    | optional item =>
      have inside := ih item eq
      simp only [foresee]
      cases sees : g.foresee whole fuel item known with
      | unknown => trivial
      | fails =>
        rw [sees] at inside
        exact ⟨[], here, [], rfl, .refl here, inside.optional, fun _ => rfl⟩
      | leaves rest silent =>
        rw [sees] at inside
        obtain ⟨taken, stop, nodes, rfl, takes, found, empty⟩ := inside
        exact ⟨taken, stop, nodes, rfl, takes, found.optional, empty⟩
    | ahead item =>
      have inside := ih item eq
      simp only [foresee]
      cases sees : g.foresee whole fuel item known with
      | unknown => trivial
      | fails =>
        rw [sees] at inside
        exact inside.ahead
      | leaves rest silent =>
        rw [sees] at inside
        obtain ⟨_, _, _, _, _, found, _⟩ := inside
        exact ⟨[], here, [], rfl, .refl here, found.ahead, fun _ => rfl⟩
    | notAhead item =>
      have inside := ih item eq
      simp only [foresee]
      cases sees : g.foresee whole fuel item known with
      | unknown => trivial
      | fails =>
        rw [sees] at inside
        exact ⟨[], here, [], rfl, .refl here, inside.notAhead, fun _ => rfl⟩
      | leaves rest silent =>
        rw [sees] at inside
        obtain ⟨_, _, _, _, _, found, _⟩ := inside
        exact found.notAhead
    | rule name =>
      have inside := ih (g.pattern name) eq
      simp only [foresee]
      cases sees : g.foresee whole fuel (g.pattern name) known with
      | unknown => trivial
      | fails =>
        rw [sees] at inside
        exact inside.rule
      | leaves rest silent =>
        rw [sees] at inside
        obtain ⟨taken, stop, nodes, rfl, takes, found, _⟩ := inside
        exact ⟨taken, stop, _, rfl, takes, found.rule, nofun⟩

variable {fuel : Nat} {known more : List Char}

private theorem skips_of_comes {whole : Bool} (ends : whole = true → more = [])
    (sees : g.foresee whole fuel p known = .leaves rest true) :
    g.Skips p (known ++ more) (rest ++ more) := by
  intro here eq
  have told := comes (g := g) fuel p eq ends
  rw [sees] at told
  obtain ⟨taken, stop, nodes, rfl, takes, found, empty⟩ := told
  exact ⟨stop, nodes, rest_of_takes eq takes, found, empty rfl⟩

private theorem refuses_of_comes {whole : Bool} (ends : whole = true → more = [])
    (sees : g.foresee whole fuel p known = .fails) : g.Refuses p (known ++ more) := by
  intro here eq
  have told := comes (g := g) fuel p eq ends
  rwa [sees] at told

/-- Where the beginning of a text shows that a pattern fails, it does. -/
theorem refuses_of_foresee (known : List Char) (sees : g.foresee false 200 p known = .fails) :
    g.Refuses p (known ++ more) :=
  refuses_of_comes (fun (never : false = true) => nomatch never) sees

/-- Where the beginning of a text shows what a pattern takes, that is what it takes. -/
theorem skips_of_foresee (known rest : List Char)
    (sees : g.foresee false 200 p known = .leaves rest true) :
    g.Skips p (known ++ more) (rest ++ more) :=
  skips_of_comes (fun (never : false = true) => nomatch never) sees

/-- Where the whole text shows that a pattern fails, it does. -/
theorem refuses_of_foresee_whole (sees : g.foresee true 200 p known = .fails) :
    g.Refuses p known := by
  have refuses : g.Refuses p (known ++ []) := refuses_of_comes (fun _ => rfl) sees
  rwa [List.append_nil] at refuses

/-- Where the whole text shows what a pattern takes, that is what it takes. -/
theorem skips_of_foresee_whole (sees : g.foresee true 200 p known = .leaves rest true) :
    g.Skips p known rest := by
  have skips : g.Skips p (known ++ []) (rest ++ []) := skips_of_comes (fun _ => rfl) sees
  rwa [List.append_nil, List.append_nil] at skips

end

end ScriptEngine.Grammar
