import ScriptEngine.Program
import ScriptEngine.Proofs.Tree.Building

/-!
# Accepted programs

What compiling guarantees of the tree that it hands on: the static rules have no complaint, and
the functions that running the program makes are the ones that were judged.

Scopes are filled while the tree is still being built: a frame is open for each of them, and a
declaration is recorded before or after the nodes below it are built. Main result: what a scope lists
in the end can be read off the finished tree (`scopes_list_declarations`), and no frame is left open,
whether building succeeds or fails.
-/
namespace ScriptEngine

/-- A script that the static rules accept, and whose scopes list what is declared in them. -/
structure ScriptTree.Judged (tree : ScriptTree) : Prop where
  accepted : Check.script tree = []
  tied : Scoped.Script tree

/-- A script that the static rules accept, and whose scopes list what is declared in them, `let` and
`const` names included. -/
structure ScriptTree.Sound (tree : ScriptTree) : Prop where
  accepted : Check.script tree = []
  placed : Placed.Script tree

theorem ScriptTree.Sound.judged {tree : ScriptTree} (sound : tree.Sound) : tree.Judged :=
  ⟨sound.accepted, sound.placed.scoped⟩

/-- A program that a source text compiles to. -/
def Program.Accepted (p : Program) : Prop :=
  ∃ source name forceStrict, compile source name forceStrict = .ok p

namespace Script

theorem derived_of_concrete {source : List Char} {node : Node Rule}
    (read : concrete source = .ok node) : grammar.Derived source node := by
  unfold concrete at read
  split at read
  · cases read
  · split at read
    next parsed =>
      cases read
      exact Grammar.parse_derived parsed
    · cases read

/-- The tree of a script is built from nodes that were matched in its source. -/
theorem exists_built {source : List Char} {forceStrict : Bool} {script : ScriptTree}
    (read : tree source forceStrict = .ok script) :
    ∃ node t, concrete source = .ok node ∧
      (buildScript source forceStrict node).run Tracker.empty = (.ok script, t) := by
  unfold tree at read
  cases parsed : concrete source with
  | error e =>
    rw [parsed] at read
    cases read
  | ok node =>
    rw [parsed] at read
    change ((buildScript source forceStrict node).run Tracker.empty).1 = _ at read
    cases built : (buildScript source forceStrict node).run Tracker.empty with
    | mk outcome t =>
      rw [built] at read
      cases read
      exact ⟨node, t, rfl, built⟩

/-- What a script is read as, given something computed from its tree. -/
theorem exists_tree {α : Type} {source : List Char} {forceStrict : Bool} {f : ScriptTree → α}
    {a : α} (computed : (tree source forceStrict).toOption.map f = some a) :
    ∃ script, tree source forceStrict = .ok script ∧ f script = a := by
  cases read : tree source forceStrict with
  | error e =>
    rw [read] at computed
    cases computed
  | ok script =>
    rw [read] at computed
    exact ⟨script, rfl, Option.some.inj computed⟩

theorem tree_placed {source : List Char} {forceStrict : Bool} {script : ScriptTree}
    (read : tree source forceStrict = .ok script) : Placed.Script script := by
  obtain ⟨node, t, parsed, built⟩ := exists_built read
  have proper := proper_of_derived (derived_of_concrete parsed)
  obtain ⟨_, made, -⟩ := buildScript_placed source forceStrict proper _ _ _ built
  exact made.1

theorem tree_of_read {source : String} {forceStrict : Bool} {script : ScriptTree}
    (read : Script.read source forceStrict = .ok script) :
    tree source.toList forceStrict = .ok script := by
  change (tree source.toList forceStrict).mapError _ = _ at read
  cases built : tree source.toList forceStrict with
  | error e =>
    rw [built] at read
    cases read
  | ok script =>
    rw [built] at read
    cases read
    rfl

end Script

/-- Diagnostics are the violations in another order, so there are as many of them. -/
theorem Program.diagnostics_eq_nil_iff (source : List Char) (tree : ScriptTree) :
    diagnostics source tree = [] ↔ Check.script tree = [] := by
  rw [← List.length_eq_zero_iff, ← List.length_eq_zero_iff, diagnostics, List.length_mergeSort,
    List.length_map]

theorem Program.sound_of_compile {source name : String} {forceStrict : Bool} {p : Program}
    (compiled : compile source name forceStrict = .ok p) : p.tree.Sound := by
  unfold compile at compiled
  split at compiled
  · cases compiled
  next read =>
    split at compiled
    next clean =>
      cases compiled
      exact ⟨(diagnostics_eq_nil_iff _ _).1 clean, Script.tree_placed (Script.tree_of_read read)⟩
    · cases compiled

theorem Program.Accepted.sound {p : Program} (accepted : p.Accepted) : p.tree.Sound := by
  obtain ⟨source, name, forceStrict, compiled⟩ := accepted
  exact sound_of_compile compiled

theorem Program.Accepted.judged {p : Program} (accepted : p.Accepted) : p.tree.Judged :=
  accepted.sound.judged

/-- The program that a source text compiles to, known to pass a test. -/
structure Sample (source : String) (test : Program → Bool) where
  program : Program
  compiled : Program.compile source "" false = .ok program
  passes : test program = true

/-- Compiles a source text whose program passes a test. -/
def Sample.ofSource {source : String} {test : Program → Bool}
    (passes : (Program.compile source "" false).toOption.any test = true) : Sample source test :=
  match compiled : Program.compile source "" false with
  | .ok p => ⟨p, compiled, by rw [compiled] at passes; exact passes⟩
  | .error _ => absurd passes (by simp [compiled, Except.toOption])

/-! ## What scopes list -/

namespace Tracker

theorem depth_abandonTo_le (t : Tracker) (depth : Nat) : (t.abandonTo depth).depth ≤ depth := by
  simp only [abandonTo, Tracker.depth, List.length_drop]
  omega

theorem eq_empty_of_depth_le {t : Tracker} (closed : t.depth ≤ 0) : t = .empty := by
  obtain ⟨frames⟩ := t
  exact congrArg Tracker.mk (List.length_eq_zero_iff.1 (Nat.le_zero.1 closed))

end Tracker

/-- A builder in a scope of its own leaves no more scopes open than it finds, also when it fails. -/
theorem Build.depth_inScope_le {α : Type} (openScope : Tracker → Tracker) (body : Build α)
    (t : Tracker) : ((Build.inScope openScope body).run t).2.depth ≤ t.depth := by
  simp only [Build.inScope, ExceptT.run]
  split
  next t' _ => exact t'.depth_abandonTo_le t.depth
  next t' _ =>
    have bound := t'.depth_abandonTo_le (t.depth + 1)
    split
    next scope t'' closed =>
      rw [Tracker.close?] at closed
      split at closed
      · cases closed
      next frame outer eq =>
        cases closed
        rw [Tracker.depth, eq, List.length_cons] at bound
        exact Nat.le_of_succ_le_succ bound
    next stuck =>
      -- Nothing is open at all.
      have none : t'.depth - (t'.depth - (t.depth + 1)) = 0 := by
        cases eq : (t'.abandonTo (t.depth + 1)).frames with
        | nil => simpa [Tracker.abandonTo, Tracker.depth] using congrArg List.length eq
        | cons frame outer =>
          rw [Tracker.close?, eq] at stuck
          cases stuck
      show t'.depth ≤ t.depth
      omega

/-- Every scope in the tree of a script lists, in source order and with repetitions, its parameters,
the `var` names inside it up to the functions inside it, and the `let` and `const` names and the
functions of which it is the innermost scope. When building ends, with a tree or with a problem, no
scope is open. -/
theorem scopes_list_declarations (source : String) (forceStrict : Bool) :
    (∀ script, Script.read source forceStrict = .ok script → Placed.Script script) ∧
      ∀ node,
        ((Script.buildScript source.toList forceStrict node).run Tracker.empty).2 = .empty := by
  constructor
  · intro script read
    exact Script.tree_placed (Script.tree_of_read read)
  · intro node
    -- Only the scope of the script is opened from the outside.
    have closed : ∀ build : Build (List Statement × Scope),
        (build.run Tracker.empty).2.depth ≤ 0 →
          ((build >>= fun made => (pure ⟨node.span, made.1, made.2⟩ : Build ScriptTree)).run
            Tracker.empty).2 = .empty := by
      intro build bound
      rw [Build.run_bind]
      split
      next run =>
        rw [run] at bound
        exact Tracker.eq_empty_of_depth_le bound
      next run =>
        rw [run] at bound
        exact Tracker.eq_empty_of_depth_le bound
    exact closed _ (Build.depth_inScope_le _ _ _)

/-- A script with a `var` in the head and in the body of a loop, next to a function with its own. -/
theorem scopes_list_declarations_nested :
    let source :=
      "for (var i in 0) \x7b let b; function f() \x7b var c \x7d \x7d while (0) \x7b var i \x7d"
    ∃ script, Script.read source false = .ok script ∧ Placed.Script script ∧
      script.scope.vars.map (·.name) = ["i", "i"] := by
  extract_lets source
  have names : (Script.read source false).toOption.map (·.scope.vars.map (·.name)) =
      some ["i", "i"] := by decide +kernel
  cases read : Script.read source false with
  | error e =>
    rw [read] at names
    cases names
  | ok script =>
    rw [read] at names
    exact ⟨script, rfl, (scopes_list_declarations source false).1 script read,
      Option.some.inj names⟩

end ScriptEngine
