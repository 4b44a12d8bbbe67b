import ScriptEngine.Proofs.Grammar.Derivation

/-!
# What a match is made of

Apart from the text, a pattern says which lists of nodes a match makes, given what the nodes of each
rule are (`Pattern.Spells`). Most of a pattern makes no nodes; what remains without these parts
(`Pattern.visible`) is short enough to be taken apart by cases. Main result: what holds of the node of
a rule if it holds of the nodes that its pattern spells, holds of every node that is matched
(`Grammar.spells_of_read`).

Apart from the nodes, a pattern says which texts a match takes (`Pattern.Writes`,
`Grammar.writes_of_read`); if these are finitely many, they can be listed (`Pattern.texts?`).
-/
namespace ScriptEngine

section

variable {Rule : Type} {leaf : Rule → Node Rule → Prop} {p : Pattern Rule} {nodes : List (Node Rule)}

namespace Pattern

/-! ## Nodes -/

/-- The lists of nodes that a match of the pattern can make, given what the nodes of each rule are. -/
def Spells (leaf : Rule → Node Rule → Prop) : Pattern Rule → List (Node Rule) → Prop
  | .one _, nodes | .text _, nodes | .ahead _, nodes | .notAhead _, nodes => nodes = []
  | .seq first second, nodes =>
    ∃ before after, nodes = before ++ after ∧ first.Spells leaf before ∧ second.Spells leaf after
  | .alt first second, nodes => first.Spells leaf nodes ∨ second.Spells leaf nodes
  | .many item, nodes =>
    ∃ rounds : List (List (Node Rule)), nodes = rounds.flatten ∧ ∀ round ∈ rounds, item.Spells leaf round
  | .optional item, nodes => nodes = [] ∨ item.Spells leaf nodes
  | .rule name, nodes => ∃ node, nodes = [node] ∧ leaf name node

/-- The pattern without the parts that make no nodes. -/
def visible : Pattern Rule → Pattern Rule
  | .seq first second =>
    match first.rules, second.rules with
    | [], _ => second.visible
    | _, [] => first.visible
    | _, _ => .seq first.visible second.visible
  | .alt first second => .alt first.visible second.visible
  | .many item =>
    match item.rules with
    | [] => .text []
    | _ => .many item.visible
  | .optional item =>
    match item.rules with
    | [] => .text []
    | _ => .optional item.visible
  | p => p

/-- What holds of the nodes of every rule that is mentioned, holds of all nodes. -/
theorem Spells.all {P : Node Rule → Prop} (spelled : p.Spells leaf nodes)
    (each : ∀ name ∈ p.rules, ∀ node, leaf name node → P node) : ∀ node ∈ nodes, P node := by
  induction p generalizing nodes with
  | one | text | ahead | notAhead =>
    cases spelled
    exact List.forall_mem_nil _
  | seq first second ihFirst ihSecond =>
    obtain ⟨left, right⟩ := List.forall_mem_append.1 each
    obtain ⟨before, after, rfl, spelledFirst, spelledSecond⟩ := spelled
    exact List.forall_mem_append.2 ⟨ihFirst spelledFirst left, ihSecond spelledSecond right⟩
  | alt first second ihFirst ihSecond =>
    obtain ⟨left, right⟩ := List.forall_mem_append.1 each
    exact spelled.elim (ihFirst · left) (ihSecond · right)
  | many item ih =>
    obtain ⟨rounds, rfl, spelled⟩ := spelled
    intro node mem
    obtain ⟨round, isRound, mem⟩ := List.mem_flatten.1 mem
    exact ih (spelled round isRound) each node mem
  | optional item ih =>
    rcases spelled with rfl | spelled
    · exact List.forall_mem_nil _
    · exact ih spelled each
  | rule name =>
    obtain ⟨node, rfl, known⟩ := spelled
    exact List.forall_mem_singleton.2 (each name (List.mem_singleton_self _) node known)

theorem Spells.eq_nil (spelled : p.Spells leaf nodes) (silent : p.rules = []) : nodes = [] := by
  refine List.eq_nil_iff_forall_not_mem.2 (spelled.all (P := fun _ => False) ?_)
  rw [silent]
  exact List.forall_mem_nil _

theorem Spells.visible (spelled : p.Spells leaf nodes) : p.visible.Spells leaf nodes := by
  induction p generalizing nodes with
  | one | text | ahead | notAhead | rule => exact spelled
  | seq first second ihFirst ihSecond =>
    obtain ⟨before, after, rfl, left, right⟩ := spelled
    unfold Pattern.visible
    split
    next silent =>
      rw [left.eq_nil silent]
      exact ihSecond right
    next silent _ =>
      rw [right.eq_nil silent, List.append_nil]
      exact ihFirst left
    · exact ⟨before, after, rfl, ihFirst left, ihSecond right⟩
  | alt first second ihFirst ihSecond => exact spelled.imp ihFirst ihSecond
  | many item ih =>
    unfold Pattern.visible
    split
    next silent => exact Spells.eq_nil spelled silent
    · obtain ⟨rounds, eq, spelled⟩ := spelled
      exact ⟨rounds, eq, fun round mem => ih (spelled round mem)⟩
  | optional item ih =>
    unfold Pattern.visible
    split
    next silent => exact Spells.eq_nil spelled silent
    · exact spelled.imp_right ih

/-- Whether the pattern is one rule, or one of several. -/
def isChoice : Pattern Rule → Bool
  | .rule _ => true
  | .alt first second => first.isChoice && second.isChoice
  | _ => false

/-- A choice between rules makes one node. -/
theorem Spells.single {P : Node Rule → Prop} (spelled : p.Spells leaf nodes)
    (choice : p.isChoice = true) (each : ∀ name ∈ p.rules, ∀ node, leaf name node → P node) :
    ∃ node, nodes = [node] ∧ P node := by
  induction p generalizing nodes with
  | rule name =>
    obtain ⟨node, rfl, known⟩ := spelled
    exact ⟨node, rfl, each name (List.mem_singleton_self _) node known⟩
  | alt first second ihFirst ihSecond =>
    obtain ⟨left, right⟩ := Bool.and_eq_true_iff.1 choice
    obtain ⟨eachLeft, eachRight⟩ := List.forall_mem_append.1 each
    exact spelled.elim (ihFirst · left eachLeft) (ihSecond · right eachRight)
  | _ => cases choice

/-! ## Texts -/

/-- The texts that a match of the pattern can take; of rules nothing is said. -/
def Writes : Pattern Rule → List Char → Prop
  | .one accepts, taken => ∃ c, accepts c = true ∧ taken = [c]
  | .text chars, taken => taken = chars
  | .ahead _, taken | .notAhead _, taken => taken = []
  | .seq first second, taken =>
    ∃ before after, taken = before ++ after ∧ first.Writes before ∧ second.Writes after
  | .alt first second, taken => first.Writes taken ∨ second.Writes taken
  | .many item, taken =>
    ∃ rounds : List (List Char), taken = rounds.flatten ∧ ∀ round ∈ rounds, item.Writes round
  | .optional item, taken => taken = [] ∨ item.Writes taken
  | .rule _, _ => True

/-- All texts that the pattern can take, if it has neither classes of characters nor repetitions nor
rules. -/
def texts? : Pattern Rule → Option (List (List Char))
  | .text chars => some [chars]
  | .ahead _ | .notAhead _ => some [[]]
  | .seq first second => do
    let before ← first.texts?
    let after ← second.texts?
    pure (before.flatMap fun front => after.map (front ++ ·))
  | .alt first second => do
    let texts ← first.texts?
    let others ← second.texts?
    pure (texts ++ others)
  | .optional item => do
    let texts ← item.texts?
    pure ([] :: texts)
  | .one _ | .many _ | .rule _ => none

theorem Writes.mem_texts {taken : List Char} {texts : List (List Char)} (writes : p.Writes taken)
    (finite : p.texts? = some texts) : taken ∈ texts := by
  induction p generalizing taken texts with
  | text | ahead | notAhead =>
    cases finite
    cases writes
    exact List.mem_singleton_self _
  | seq first second ihFirst ihSecond =>
    obtain ⟨before, eqBefore, finite⟩ := Option.bind_eq_some_iff.1 finite
    obtain ⟨after, eqAfter, finite⟩ := Option.bind_eq_some_iff.1 finite
    cases finite
    obtain ⟨front, more, rfl, left, right⟩ := writes
    exact List.mem_flatMap.2
      ⟨front, ihFirst left eqBefore, List.mem_map_of_mem (ihSecond right eqAfter)⟩
  | alt first second ihFirst ihSecond =>
    obtain ⟨left, eqLeft, finite⟩ := Option.bind_eq_some_iff.1 finite
    obtain ⟨right, eqRight, finite⟩ := Option.bind_eq_some_iff.1 finite
    cases finite
    exact List.mem_append.2 (writes.imp (ihFirst · eqLeft) (ihSecond · eqRight))
  | optional item ih =>
    obtain ⟨inside, eq, finite⟩ := Option.bind_eq_some_iff.1 finite
    cases finite
    exact List.mem_cons.2 (writes.imp_right (ih · eq))
  | one | many | rule => cases finite

/-- A repeated class of characters takes characters of the class. -/
theorem forall_of_writes_many {accepts : Char → Bool} {taken : List Char}
    (writes : (many (.one accepts) : Pattern Rule).Writes taken) : ∀ c ∈ taken, accepts c = true := by
  obtain ⟨rounds, rfl, each⟩ := writes
  intro c mem
  obtain ⟨round, isRound, mem⟩ := List.mem_flatten.1 mem
  obtain ⟨d, accepted, rfl⟩ := each round isRound
  rwa [List.mem_singleton.1 mem]

end Pattern

namespace Grammar

variable {g : Grammar Rule} {depth : Nat} {here stop : Cursor}

/-- A match takes a text that the pattern can take. -/
theorem writes_of_read (found : g.read depth p here = .matched stop nodes) :
    ∃ taken, here.Takes taken stop ∧ p.Writes taken := by
  induction p generalizing here stop nodes with
  | one accepts =>
    obtain ⟨c, rest, accepted, offset, -⟩ := read_one_matched.1 found
    exact ⟨[c], ⟨rest, by simpa using offset⟩, c, accepted, rfl⟩
  | text chars => exact ⟨chars, (read_text_matched.1 found).1, rfl⟩
  | ahead item =>
    rw [(read_ahead_matched.1 found).1]
    exact ⟨[], .refl _, rfl⟩
  | notAhead item =>
    rw [(read_notAhead_matched.1 found).1]
    exact ⟨[], .refl _, rfl⟩
  | seq first second ihFirst ihSecond =>
    obtain ⟨_, _, _, left, right, -⟩ := read_seq_matched.1 found
    obtain ⟨before, takes, writes⟩ := ihFirst left
    obtain ⟨after, takes', writes'⟩ := ihSecond right
    exact ⟨before ++ after, takes.trans takes', before, after, rfl, writes, writes'⟩
  | alt first second ihFirst ihSecond =>
    rcases read_alt_matched.1 found with found | ⟨-, found⟩
    · obtain ⟨text, takes, writes⟩ := ihFirst found
      exact ⟨text, takes, Or.inl writes⟩
    · obtain ⟨text, takes, writes⟩ := ihSecond found
      exact ⟨text, takes, Or.inr writes⟩
  | many item ih =>
    have rounds := rounds_of_read_many found
    clear found
    induction rounds with
    | done | still => exact ⟨[], .refl _, [], rfl, List.forall_mem_nil _⟩
    | more round _ _ later =>
      obtain ⟨text, takes, writes⟩ := ih round
      obtain ⟨_, takes', rounds, rfl, each⟩ := later
      exact ⟨_, takes.trans takes', text :: rounds, rfl, List.forall_mem_cons.2 ⟨writes, each⟩⟩
  | optional item ih =>
    rcases read_optional_matched.1 found with found | ⟨-, rfl, -⟩
    · obtain ⟨text, takes, writes⟩ := ih found
      exact ⟨text, takes, Or.inr writes⟩
    · exact ⟨[], .refl _, Or.inl rfl⟩
  | rule name =>
    obtain ⟨taken, takes⟩ := read_takes found
    exact ⟨taken, takes, trivial⟩

/-- The node of a token has the text that was taken. -/
theorem node_of_token {name : Rule} {taken : List Char} (token : g.isToken name = true)
    (takes : here.Takes taken stop) :
    g.node name here stop nodes =
      .token name ⟨here.offset, stop.offset⟩ (String.ofList taken) := by
  have bytes : stop.offset - here.offset = byteLength taken := by
    rw [takes.offset, Nat.add_sub_cancel_left]
  unfold node
  dsimp only
  rw [if_pos token, bytes, takes.rest, takeBytes_append]

/-- The text of a token is one that the pattern of its rule can take. -/
theorem writes_of_token {name : Rule} (token : g.isToken name = true)
    (found : g.read depth (g.pattern name) here = .matched stop nodes) :
    ∃ span text, (g.pattern name).Writes text ∧
      g.node name here stop nodes = .token name span (String.ofList text) := by
  obtain ⟨taken, takes, writes⟩ := writes_of_read found
  exact ⟨_, taken, writes, node_of_token token takes⟩

theorem node_of_branch {name : Rule} (branch : g.isToken name = false) :
    g.node name here stop nodes = .branch name ⟨here.offset, stop.offset⟩ nodes := by
  unfold node
  dsimp only
  rw [branch]
  rfl

end Grammar

end

end ScriptEngine
