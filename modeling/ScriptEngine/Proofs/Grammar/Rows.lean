import ScriptEngine.Proofs.Grammar.Derivation
import ScriptEngine.Proofs.Grammar.Reading

/-!
# Rows of stretches and of nodes

A stretch is given by two byte offsets. `Span.Cuts` says that these are places between characters,
in their order, and `Row` that several stretches stand one behind the other between two offsets. A
row says all at once that its stretches lie inside these offsets (`Row.inside`) and that no two of
them overlap (`Row.pairwise`).

A match reads on and never goes back, so the nodes that it makes stand one behind the other between
the cursors of the match (`Grammar.row_of_read`), and the children of a node stand so inside the
node. `Laid` says this of some nodes of a tree that was parsed, in a form that is taken apart node by
node; main result: so it is with the children of every node (`Derived.laid`).
-/
namespace ScriptEngine

/-! ## Stretches of a source -/

section

variable {source : List Char} {a b c a' b' : Nat} {s : Span} {spans more : List Span}

/-- An offset in front of a character of the source or at its end. -/
def Boundary (source : List Char) (offset : Nat) : Prop :=
  ∃ front rest, source = front ++ rest ∧ offset = byteLength front

theorem Boundary.le (boundary : Boundary source a) : a ≤ byteLength source := by
  obtain ⟨front, rest, rfl, rfl⟩ := boundary
  rw [byteLength_append]
  exact Nat.le_add_right _ _

namespace Span

/-- The stretch lies inside another. -/
def Inside (inner outer : Span) : Prop := outer.start ≤ inner.start ∧ inner.stop ≤ outer.stop

/-- The stretch is one of the source, and its ends do not split characters. -/
structure Cuts (source : List Char) (s : Span) : Prop where
  ordered : s.start ≤ s.stop
  start : Boundary source s.start
  stop : Boundary source s.stop

end Span

/-- Stretches stand one behind the other, from an offset on and up to another. -/
def Row : Nat → List Span → Nat → Prop
  | a, [], b => a ≤ b
  | a, s :: rest, b => a ≤ s.start ∧ s.start ≤ s.stop ∧ Row s.stop rest b

namespace Row

theorem le (row : Row a spans b) : a ≤ b := by
  induction spans generalizing a with
  | nil => exact row
  | cons s rest ih =>
    obtain ⟨first, ordered, later⟩ := row
    have := ih later
    omega

theorem widen (row : Row a spans b) (before : a' ≤ a) (after : b ≤ b') : Row a' spans b' := by
  induction spans generalizing a a' with
  | nil => exact Nat.le_trans before (Nat.le_trans row after)
  | cons s rest ih =>
    obtain ⟨first, ordered, later⟩ := row
    exact ⟨Nat.le_trans before first, ordered, ih later (Nat.le_refl _)⟩

theorem append (row : Row a spans b) (later : Row b more c) : Row a (spans ++ more) c := by
  induction spans generalizing a with
  | nil => exact later.widen row (Nat.le_refl _)
  | cons s rest ih =>
    obtain ⟨first, ordered, behind⟩ := row
    exact ⟨first, ordered, ih behind⟩

theorem split (row : Row a (spans ++ more) b) : ∃ c, Row a spans c ∧ Row c more b := by
  induction spans generalizing a with
  | nil => exact ⟨a, Nat.le_refl _, row⟩
  | cons s rest ih =>
    obtain ⟨first, ordered, later⟩ := row
    obtain ⟨c, behind, last⟩ := ih later
    exact ⟨c, ⟨first, ordered, behind⟩, last⟩

/-- A stretch of the row lies between the offsets. -/
theorem inside (row : Row a spans b) (mem : s ∈ spans) : s.Inside ⟨a, b⟩ := by
  induction spans generalizing a with
  | nil => cases mem
  | cons t rest ih =>
    obtain ⟨first, ordered, later⟩ := row
    cases mem with
    | head => exact ⟨first, later.le⟩
    | tail _ mem =>
      obtain ⟨start, stop⟩ := ih later mem
      exact ⟨Nat.le_trans first (Nat.le_trans ordered start), stop⟩

/-- No stretch of the row begins before an earlier one has ended. -/
theorem pairwise (row : Row a spans b) : spans.Pairwise fun s t => s.stop ≤ t.start := by
  induction spans generalizing a with
  | nil => exact .nil
  | cons s rest ih =>
    obtain ⟨-, -, later⟩ := row
    exact .cons (fun t mem => (later.inside mem).1) (ih later)

end Row

end

/-! ## Nodes of a parse tree -/

theorem Cursor.Within.boundary {source : List Char} {here : Cursor} (within : here.Within source) :
    Boundary source here.offset := by
  obtain ⟨front, reached⟩ := within
  exact ⟨front, here.rest, reached.rest, reached.offset.trans (Nat.zero_add _)⟩

namespace Grammar

variable {Rule : Type} {g : Grammar Rule} {source : List Char} {depth : Nat} {here stop : Cursor}
  {nodes : List (Node Rule)}

theorem offset_le_of_read {p : Pattern Rule} (found : g.read depth p here = .matched stop nodes) :
    here.offset ≤ stop.offset := by
  obtain ⟨taken, takes⟩ := read_takes found
  rw [takes.offset]
  exact Nat.le_add_right _ _

theorem span_node (g : Grammar Rule) (name : Rule) (here stop : Cursor)
    (children : List (Node Rule)) :
    (g.node name here stop children).span = ⟨here.offset, stop.offset⟩ := by
  unfold node
  dsimp only
  split <;> rfl

/-- The nodes of a match stand one behind the other between its cursors. -/
theorem row_of_read {p : Pattern Rule} (found : g.read depth p here = .matched stop nodes) :
    Row here.offset (nodes.map Node.span) stop.offset := by
  induction p generalizing here stop nodes with
  | one accepts =>
    obtain ⟨_, -, -, -, rfl⟩ := read_one_matched.1 found
    exact offset_le_of_read found
  | text chars =>
    obtain ⟨-, rfl⟩ := read_text_matched.1 found
    exact offset_le_of_read found
  | seq first second ihFirst ihSecond =>
    obtain ⟨_, _, _, before, after, rfl⟩ := read_seq_matched.1 found
    rw [List.map_append]
    exact (ihFirst before).append (ihSecond after)
  | alt first second ihFirst ihSecond =>
    rcases read_alt_matched.1 found with found | ⟨-, found⟩
    · exact ihFirst found
    · exact ihSecond found
  | many item ih =>
    have rounds := rounds_of_read_many found
    clear found
    induction rounds with
    | done | still => exact Nat.le_refl _
    | more round _ _ later =>
      rw [List.map_append]
      exact (ih round).append later
  | optional item ih =>
    rcases read_optional_matched.1 found with found | ⟨-, rfl, rfl⟩
    · exact ih found
    · exact Nat.le_refl _
  | ahead item =>
    obtain ⟨rfl, rfl, -⟩ := read_ahead_matched.1 found
    exact Nat.le_refl _
  | notAhead item =>
    obtain ⟨rfl, rfl, -⟩ := read_notAhead_matched.1 found
    exact Nat.le_refl _
  | rule name =>
    have ordered := offset_le_of_read found
    obtain ⟨_, _, -, -, rfl⟩ := read_rule_matched.1 found
    rw [List.map_singleton, span_node]
    exact ⟨Nat.le_refl _, ordered, Nat.le_refl _⟩

/-- Nodes of a tree that was parsed stand one behind the other between two offsets. -/
def Laid (g : Grammar Rule) (source : List Char) : Nat → List (Node Rule) → Nat → Prop
  | a, [], b => a ≤ b
  | a, node :: rest, b =>
    a ≤ node.span.start ∧ g.Derived source node ∧ Laid g source node.span.stop rest b

namespace Derived

variable {node : Node Rule}

theorem cuts (derived : g.Derived source node) : node.span.Cuts source := by
  cases derived with
  | node within found inside =>
    obtain ⟨taken, takes⟩ := read_takes found
    rw [span_node]
    exact ⟨offset_le_of_read found, within.boundary, (within.takes takes).boundary⟩

/-- The children of a node stand one behind the other inside it. -/
theorem row (derived : g.Derived source node) :
    Row node.span.start (node.children.map Node.span) node.span.stop := by
  have ordered := derived.cuts.ordered
  cases derived with
  | node within found inside =>
    rw [span_node] at ordered ⊢
    -- The children of a token are not kept.
    unfold Grammar.node
    dsimp only
    split
    · exact ordered
    · exact row_of_read found

theorem laid (derived : g.Derived source node) :
    g.Laid source node.span.start node.children node.span.stop := by
  have of_row {a b : Nat} {nodes : List (Node Rule)} (row : Row a (nodes.map Node.span) b)
      (each : ∀ node ∈ nodes, g.Derived source node) : g.Laid source a nodes b := by
    induction nodes generalizing a with
    | nil => exact row
    | cons node rest ih =>
      obtain ⟨first, -, later⟩ := row
      obtain ⟨derived, others⟩ := List.forall_mem_cons.1 each
      exact ⟨first, derived, ih later others⟩
  exact of_row derived.row derived.children

end Derived

namespace Laid

variable {a b : Nat} {node : Node Rule} {rest : List (Node Rule)}

theorem le (laid : g.Laid source a nodes b) : a ≤ b := by
  induction nodes generalizing a with
  | nil => exact laid
  | cons node rest ih =>
    obtain ⟨first, derived, later⟩ := laid
    have := derived.cuts.ordered
    have := ih later
    omega

/-- Of the first node it may not matter where it is. -/
theorem skip (laid : g.Laid source a (node :: rest) b) : g.Laid source a rest b := by
  obtain ⟨first, derived, later⟩ := laid
  have := derived.cuts.ordered
  cases rest with
  | nil =>
    have := later.le
    exact (by omega : a ≤ b)
  | cons next rest =>
    obtain ⟨second, derived', last⟩ := later
    exact ⟨by omega, derived', last⟩

end Laid

end Grammar

end ScriptEngine
