import ScriptEngine.Grammar.Script
import ScriptEngine.Proofs.Grammar.Reading

/-!
# Where the nodes of a tree come from

`Derived` says of a node that its rule was matched at its place in the source, by the pattern of the
rule, with the children that the node has, and that so were these; every tree that is parsed is
derived (`Grammar.parse_derived`). What a node covers is the stretch of the source between the cursors
of its match (`Cursor.Within.slice`).

A match makes nodes only of the rules that the pattern mentions (`Grammar.mem_rules_of_read`), and in
the order in which it mentions them, if nothing in it that makes nodes repeats
(`Grammar.rules_sublist_of_read`). Main result: so it is with the parts of statements in a script that
was parsed, and no `let` or `const` declaration stands where the grammar asks for a single statement
(`proper_of_derived`).
-/
namespace ScriptEngine

/-! ## Cursors in a source -/

theorem dropBytes_append (before rest : List Char) :
    dropBytes (byteLength before) (before ++ rest) = rest := by
  induction before with
  | nil => cases rest <;> rfl
  | cons c before ih =>
    have := c.utf8Size_pos
    obtain ⟨bytes, eq⟩ : ∃ bytes, byteLength (c :: before) = bytes + 1 :=
      Nat.exists_eq_add_one.2 (by rw [byteLength_cons]; omega)
    have left : bytes + 1 - c.utf8Size = byteLength before := by
      rw [← eq, byteLength_cons, Nat.add_sub_cancel_left]
    rw [eq, List.cons_append, dropBytes, left, ih]

/-- Two beginnings of a text with the same number of bytes are the same. -/
theorem eq_of_byteLength_eq {before before' rest rest' : List Char}
    (same : before ++ rest = before' ++ rest') (bytes : byteLength before = byteLength before') :
    before = before' := by
  induction before generalizing before' with
  | nil => exact ((byteLength_eq_zero_iff before').1 bytes.symm).symm
  | cons c before ih =>
    cases before' with
    | nil => exact (byteLength_eq_zero_iff _).1 bytes
    | cons c' before' =>
      obtain ⟨rfl, later⟩ := List.cons.inj same
      simp only [byteLength_cons, Nat.add_left_cancel_iff] at bytes
      rw [ih later bytes]

namespace Cursor

variable {source taken : List Char} {here stop : Cursor}

/-- The cursor stands somewhere in the source. -/
def Within (source : List Char) (here : Cursor) : Prop :=
  ∃ before, Takes ⟨source, 0⟩ before here

namespace Within

theorem start (source : List Char) : Within source ⟨source, 0⟩ := ⟨[], .refl _⟩

theorem takes (within : Within source here) (takes : here.Takes taken stop) : Within source stop := by
  obtain ⟨before, reached⟩ := within
  exact ⟨before ++ taken, reached.trans takes⟩

/-- Cursors of the same source are told apart by their offsets. -/
theorem eq_of_offset (first : Within source here) (second : Within source stop)
    (same : here.offset = stop.offset) : here = stop := by
  obtain ⟨before, reached⟩ := first
  obtain ⟨before', reached'⟩ := second
  have bytes : byteLength before = byteLength before' := by
    have := reached.offset
    have := reached'.offset
    omega
  have texts : before ++ here.rest = before' ++ stop.rest := reached.rest.symm.trans reached'.rest
  cases eq_of_byteLength_eq texts bytes
  rcases here with ⟨rest, offset⟩
  rcases stop with ⟨rest', offset'⟩
  cases same
  cases List.append_cancel_left texts
  rfl

/-- What stands between two cursors. -/
theorem slice (within : Within source here) (takes : here.Takes taken stop) :
    Span.slice ⟨here.offset, stop.offset⟩ source = taken := by
  obtain ⟨before, reached⟩ := within
  have start : here.offset = byteLength before := reached.offset.trans (Nat.zero_add _)
  have bytes : stop.offset - here.offset = byteLength taken := by
    rw [takes.offset, Nat.add_sub_cancel_left]
  have texts : source = before ++ (taken ++ stop.rest) :=
    reached.rest.trans (congrArg _ takes.rest)
  unfold Span.slice
  dsimp only
  rw [bytes, start, texts, dropBytes_append, takeBytes_append]

end Within

end Cursor

/-! ## Derived nodes -/

section

variable {Rule : Type}

@[simp]
theorem Node.children_branch (name : Rule) (span : Span) (children : List (Node Rule)) :
    (Node.branch name span children).children = children := rfl

namespace Grammar

variable {g : Grammar Rule} {source : List Char}

/-- The rule of the node was matched at its place in the source, and what it made are the children;
so it is everywhere below. -/
inductive Derived (g : Grammar Rule) (source : List Char) : Node Rule → Prop where
  | node {depth : Nat} {name : Rule} {start stop : Cursor} {children : List (Node Rule)}
    (within : start.Within source)
    (found : g.read depth (g.pattern name) start = .matched stop children)
    (inside : ∀ child ∈ children, Derived g source child) :
    Derived g source (g.node name start stop children)

namespace Derived

/-- What a node with children was made of. -/
theorem branch {name : Rule} {span : Span} {children : List (Node Rule)}
    (derived : g.Derived source (.branch name span children)) :
    ∃ depth start stop, start.Within source ∧
      g.read depth (g.pattern name) start = .matched stop children ∧
        span = ⟨start.offset, stop.offset⟩ := by
  generalize eq : Node.branch name span children = node at derived
  cases derived with
  | node within found inside =>
    unfold Grammar.node at eq
    dsimp only at eq
    split at eq
    · cases eq
    · cases eq
      exact ⟨_, _, _, within, found, rfl⟩

theorem children {node : Node Rule} (derived : g.Derived source node) :
    ∀ child ∈ node.children, g.Derived source child := by
  cases derived with
  | node within found inside =>
    unfold Grammar.node
    dsimp only
    split
    · exact List.forall_mem_nil _
    · exact inside

end Derived

private theorem derived_of_rounds {depth : Nat} {item : Pattern Rule} {here stop : Cursor}
    {nodes : List (Node Rule)}
    (each : ∀ here stop nodes, here.Within source → g.read depth item here = .matched stop nodes →
      ∀ node ∈ nodes, g.Derived source node)
    (rounds : g.Rounds depth item here stop nodes) (within : here.Within source) :
    ∀ node ∈ nodes, g.Derived source node := by
  induction rounds with
  | done | still => exact List.forall_mem_nil _
  | more round _ _ ih =>
    obtain ⟨taken, takes⟩ := read_takes round
    exact List.forall_mem_append.2 ⟨each _ _ _ within round, ih (within.takes takes)⟩

private theorem derived_of_rules {depth : Nat}
    (rules : ∀ name here stop nodes, here.Within source →
      g.read depth (.rule name) here = .matched stop nodes →
        ∀ node ∈ nodes, g.Derived source node)
    (p : Pattern Rule) (here stop : Cursor) (nodes : List (Node Rule))
    (within : here.Within source) (found : g.read depth p here = .matched stop nodes) :
    ∀ node ∈ nodes, g.Derived source node := by
  induction p generalizing here stop nodes with
  | one accepts =>
    obtain ⟨_, _, _, _, rfl⟩ := read_one_matched.1 found
    exact List.forall_mem_nil _
  | text chars =>
    obtain ⟨_, rfl⟩ := read_text_matched.1 found
    exact List.forall_mem_nil _
  | seq first second ihFirst ihSecond =>
    obtain ⟨middle, _, _, before, after, rfl⟩ := read_seq_matched.1 found
    obtain ⟨taken, takes⟩ := read_takes before
    exact List.forall_mem_append.2
      ⟨ihFirst _ _ _ within before, ihSecond _ _ _ (within.takes takes) after⟩
  | alt first second ihFirst ihSecond =>
    rcases read_alt_matched.1 found with found | ⟨_, found⟩
    · exact ihFirst _ _ _ within found
    · exact ihSecond _ _ _ within found
  | many item ih => exact derived_of_rounds ih (rounds_of_read_many found) within
  | optional item ih =>
    rcases read_optional_matched.1 found with found | ⟨_, _, rfl⟩
    · exact ih _ _ _ within found
    · exact List.forall_mem_nil _
  | ahead item ih =>
    obtain ⟨_, rfl, _⟩ := read_ahead_matched.1 found
    exact List.forall_mem_nil _
  | notAhead item ih =>
    obtain ⟨_, rfl, _⟩ := read_notAhead_matched.1 found
    exact List.forall_mem_nil _
  | rule name => exact rules name here stop nodes within found

/-- The nodes that a pattern makes of a source are derived from it. -/
theorem read_derived {depth : Nat} {p : Pattern Rule} {here stop : Cursor}
    {nodes : List (Node Rule)} (within : here.Within source)
    (found : g.read depth p here = .matched stop nodes) : ∀ node ∈ nodes, g.Derived source node := by
  induction depth generalizing p here stop nodes with
  | zero =>
    refine derived_of_rules (fun name here stop nodes _ found => ?_) p here stop nodes within found
    cases found
  | succ depth ih =>
    refine derived_of_rules (fun name here stop nodes within found => ?_) p here stop nodes within found
    obtain ⟨_, children, eq, found, rfl⟩ := read_rule_matched.1 found
    cases eq
    exact List.forall_mem_singleton.2 (.node within found (ih within found))

/-- A tree that was parsed is derived from its source. -/
theorem parse_derived {name : Rule} {node : Node Rule} (parsed : g.parse name source = .ok node) :
    g.Derived source node := by
  obtain ⟨stop, found⟩ := read_of_parse parsed
  exact read_derived (.start source) found node List.mem_cons_self

end Grammar

end

/-! ## The nodes of a match -/

section

variable {Rule : Type}

/-- The rules that a match of the pattern can make nodes of. -/
def Pattern.rules : Pattern Rule → List Rule
  | .one _ | .text _ | .ahead _ | .notAhead _ => []
  | .seq first second | .alt first second => first.rules ++ second.rules
  | .many item | .optional item => item.rules
  | .rule name => [name]

/-- Whether only what makes no nodes repeats in the pattern. -/
def Pattern.flat : Pattern Rule → Bool
  | .one _ | .text _ | .ahead _ | .notAhead _ | .rule _ => true
  | .seq first second | .alt first second => first.flat && second.flat
  | .many item => item.rules.isEmpty
  | .optional item => item.flat

namespace Grammar

variable {g : Grammar Rule} {depth : Nat}

theorem rule_node (g : Grammar Rule) (name : Rule) (start stop : Cursor)
    (children : List (Node Rule)) : (g.node name start stop children).rule = name := by
  unfold node
  dsimp only
  split <;> rfl

/-- The nodes of a match are nodes of rules that the pattern mentions. -/
theorem mem_rules_of_read {p : Pattern Rule} {here stop : Cursor} {nodes : List (Node Rule)}
    (found : g.read depth p here = .matched stop nodes) : ∀ node ∈ nodes, node.rule ∈ p.rules := by
  induction p generalizing here stop nodes with
  | one accepts =>
    obtain ⟨_, -, -, -, rfl⟩ := read_one_matched.1 found
    exact List.forall_mem_nil _
  | text chars =>
    rw [(read_text_matched.1 found).2]
    exact List.forall_mem_nil _
  | seq first second ihFirst ihSecond =>
    obtain ⟨_, before, after, left, right, rfl⟩ := read_seq_matched.1 found
    refine List.forall_mem_append.2 (And.intro (fun node mem => ?_) fun node mem => ?_)
    · exact List.mem_append_left _ (ihFirst left node mem)
    · exact List.mem_append_right _ (ihSecond right node mem)
  -- Only one of the alternatives has matched, but the pattern mentions the rules of both.
  | alt first second ihFirst ihSecond =>
    intro node mem
    rcases read_alt_matched.1 found with found | ⟨-, found⟩
    · exact List.mem_append_left _ (ihFirst found node mem)
    · exact List.mem_append_right _ (ihSecond found node mem)
  | many item ih =>
    have rounds := rounds_of_read_many found
    clear found
    induction rounds with
    | done | still => exact List.forall_mem_nil _
    | more round _ _ later => exact List.forall_mem_append.2 (And.intro (ih round) later)
  | optional item ih =>
    rcases read_optional_matched.1 found with found | ⟨-, -, rfl⟩
    · exact ih found
    · exact List.forall_mem_nil _
  | ahead item =>
    rw [(read_ahead_matched.1 found).2.1]
    exact List.forall_mem_nil _
  | notAhead item =>
    rw [(read_notAhead_matched.1 found).2.1]
    exact List.forall_mem_nil _
  | rule name =>
    obtain ⟨_, _, -, -, rfl⟩ := read_rule_matched.1 found
    intro node mem
    rw [List.mem_singleton.1 mem, rule_node]
    exact List.mem_singleton_self _

/-- A pattern that mentions no rule makes no node. -/
theorem nil_of_rules {p : Pattern Rule} (none : p.rules = []) {here stop : Cursor}
    {nodes : List (Node Rule)} (found : g.read depth p here = .matched stop nodes) : nodes = [] := by
  refine List.eq_nil_iff_forall_not_mem.2 fun node mem => ?_
  have mentioned := mem_rules_of_read found node mem
  rw [none] at mentioned
  cases mentioned

/-- The nodes of a match stand in the order in which the pattern mentions their rules. -/
theorem rules_sublist_of_read {p : Pattern Rule} (flat : p.flat = true) {here stop : Cursor}
    {nodes : List (Node Rule)} (found : g.read depth p here = .matched stop nodes) :
    (nodes.map Node.rule).Sublist p.rules := by
  induction p generalizing here stop nodes with
  | one accepts =>
    obtain ⟨_, -, -, -, rfl⟩ := read_one_matched.1 found
    exact List.nil_sublist _
  | text chars =>
    rw [(read_text_matched.1 found).2]
    exact List.nil_sublist _
  | seq first second ihFirst ihSecond =>
    obtain ⟨_, before, after, left, right, rfl⟩ := read_seq_matched.1 found
    obtain ⟨flatFirst, flatSecond⟩ := Bool.and_eq_true_iff.1 flat
    rw [List.map_append]
    exact (ihFirst flatFirst left).append (ihSecond flatSecond right)
  | alt first second ihFirst ihSecond =>
    obtain ⟨flatFirst, flatSecond⟩ := Bool.and_eq_true_iff.1 flat
    rcases read_alt_matched.1 found with found | ⟨-, found⟩
    · exact (ihFirst flatFirst found).trans (List.sublist_append_left _ _)
    · exact (ihSecond flatSecond found).trans (List.sublist_append_right _ _)
  -- Rounds would repeat their rules, so in a flat pattern they make no nodes at all.
  | many item =>
    have none : (Pattern.many item).rules = [] := List.isEmpty_iff.1 flat
    rw [nil_of_rules none found]
    exact List.nil_sublist _
  | optional item ih =>
    rcases read_optional_matched.1 found with found | ⟨-, -, rfl⟩
    · exact ih flat found
    · exact List.nil_sublist _
  | ahead item =>
    rw [(read_ahead_matched.1 found).2.1]
    exact List.nil_sublist _
  | notAhead item =>
    rw [(read_notAhead_matched.1 found).2.1]
    exact List.nil_sublist _
  | rule name =>
    obtain ⟨_, _, -, -, rfl⟩ := read_rule_matched.1 found
    rw [List.map_singleton, rule_node]
    exact List.Sublist.refl _

end Grammar

end

namespace Script

/-- The rules of statements that have a single statement for a part. -/
def isCompound : Rule → Bool
  | .ifStatement | .doWhileStatement | .whileStatement | .forInStatement | .forStatement
  | .labelledStatement => true
  | _ => false

/-- What is known of the parts of a statement. -/
structure Arranged (rule : Rule) (parts : List (Node Rule)) : Prop where
  /-- Where there is to be a single statement, there is no `let` or `const` declaration. -/
  single : isCompound rule → ∀ part ∈ parts, part.rule ≠ .lexicalDeclaration
  /-- The head of a loop is given once at most, before all else. -/
  head : rule = .forStatement → ∀ part ∈ parts.tail, part.rule ≠ .forInit
  /-- There is one catch clause at most and one finally clause, in this order. -/
  clauses : rule = .tryStatement →
    (parts.tail.map Node.rule).Sublist [.catchClause, .finallyClause]

mutual

/-- Everywhere in the tree the parts of statements are arranged as the grammar asks. -/
def Proper : Node Rule → Prop
  | .token .. => True
  | .branch rule _ children => Arranged rule children ∧ AllProper children

def AllProper : List (Node Rule) → Prop
  | [] => True
  | node :: rest => Proper node ∧ AllProper rest

end

theorem allProper_iff (nodes : List (Node Rule)) :
    AllProper nodes ↔ ∀ node ∈ nodes, Proper node := by
  induction nodes with
  | nil => exact ⟨fun _ => nofun, fun _ => trivial⟩
  | cons node rest ih => rw [AllProper, ih, List.forall_mem_cons]

theorem Proper.children {node : Node Rule} (proper : Proper node) : AllProper node.children := by
  cases node with
  | token => trivial
  | branch => exact proper.2

/-- The pattern of a compound statement mentions no declarations but those of functions. -/
theorem not_mem_rules_of_isCompound {rule : Rule} (compound : isCompound rule = true) :
    Rule.lexicalDeclaration ∉ (pattern rule).rules := by
  cases rule with
  | ifStatement | doWhileStatement | whileStatement | forInStatement | forStatement
  | labelledStatement => decide
  | _ => cases compound

/-- What stands behind the first of some things is listed behind the first in order. -/
private theorem tail_sublist {α : Type} {first : α} {as rest : List α}
    (listed : as.Sublist (first :: rest)) : as.tail.Sublist rest := by
  cases listed with
  | cons _ listed => exact (List.tail_sublist _).trans listed
  | cons_cons _ listed => exact listed

theorem arranged_of_read {rule : Rule} {depth : Nat} {here stop : Cursor}
    {parts : List (Node Rule)}
    (found : grammar.read depth (pattern rule) here = .matched stop parts) :
    Arranged rule parts where
  single compound part mem declaration :=
    not_mem_rules_of_isCompound compound (declaration ▸ Grammar.mem_rules_of_read found part mem)
  head isFor part mem isHead := by
    subst isFor
    have listed := tail_sublist (Grammar.rules_sublist_of_read (by decide) found)
    -- The pattern mentions the head first and not again, so no other part is one.
    have again : Rule.forInit ∈ (parts.map Node.rule).tail := by
      rw [← List.map_tail, ← isHead]
      exact List.mem_map_of_mem mem
    exact absurd (listed.subset again) (by decide)
  clauses isTry := by
    subst isTry
    have listed := tail_sublist (Grammar.rules_sublist_of_read (by decide) found)
    rwa [← List.map_tail] at listed

theorem proper_of_derived {source : List Char} {node : Node Rule}
    (derived : grammar.Derived source node) : Proper node := by
  induction derived with
  | node _ found _ ih =>
    unfold Grammar.node
    dsimp only
    split
    -- Tokens have no parts.
    · trivial
    · exact And.intro (arranged_of_read found) ((allProper_iff _).2 ih)

end Script

end ScriptEngine
