import ScriptEngine.Proofs.Engine.History

/-!
# Conflicts between declarations

The error that a name is declared already has two sources in a run: the checks of a script that
runs in the global environment, and bindings that come into being where there is one of their name.
A program that compiles gets it from the checks only.

Main result: no binding of a block, loop, clause, call or script meets another one of its name, no
round of a loop copies a name without a value, and checks that fail have found a name that the
script declares (`redeclared_only_by_checks`).

The message has a third source, which does not run declarations: the `Function` constructor throws
what is wrong with its source, and there the name may be one that the source declares twice.
-/
namespace ScriptEngine

open Evaluation Operation Evaluate WellKnown

/-- A name that should come into being is found taken just where there is a binding of it. -/
theorem Evaluation.create_notes_iff {env : EnvironmentId} {name : String} {binding : Binding}
    {fresh : binding.value = none} {m : Machine} :
    (create env name binding fresh).Notes m (.taken env name) ↔
      m.store.hasBinding env name = true := by
  have moments : (create env name binding fresh).moments m =
      (if m.store.hasBinding env name then [⟨m, 0, some (.taken env name)⟩] else []) ++
        (editBindings env (·.create name binding) fun _ _ => .create env name binding fresh).moments
          m := rfl
  unfold Notes
  rw [moments]
  cases m.store.hasBinding env name with
  | true => exact ⟨fun _ => rfl, fun _ => ⟨_, List.mem_cons_self, rfl⟩⟩
  | false =>
    -- The change of the bindings itself is no event.
    refine ⟨?_, nofun⟩
    rintro ⟨moment, mem, same⟩
    cases List.mem_singleton.1 mem
    cases same

/-- A binding comes into being unless there is one of its name. -/
theorem Evaluation.hasBinding_of_create_raised {env : EnvironmentId} {name : String}
    {binding : Binding} {fresh : binding.value = none} {m after : Machine} {r : Raised}
    (raised : (create env name binding fresh).run m = (.raised r, after)) :
    m.store.hasBinding env name = true := by
  have run : (create env name binding fresh).run m =
      (ofRefusal (m.store.editBindings env (·.create name binding)).1,
        { m with store := (m.store.editBindings env (·.create name binding)).2 }) := rfl
  rw [run] at raised
  have refused := congrArg Prod.fst raised
  unfold Store.editBindings at refused
  unfold Store.hasBinding
  split at refused
  next bindings outer environment =>
    rw [environment]
    split at refused
    · cases refused
    next cause error =>
      have error : bindings.create name binding = .error cause := error
      unfold Bindings.create at error
      split at error
      next present => exact present
      · cases error
  · cases refused

/-- A name without a value is noted when it should be copied. -/
theorem Evaluate.copyBinding_notes {last env : EnvironmentId} {name : String} {m : Machine}
    (missing : m.store.isInitialized last name = false) :
    (copyBinding last env name).Notes m (.unready last name) := by
  refine ⟨⟨m, 0, some (.unready last name)⟩, List.mem_append_left _ ?_, rfl⟩
  change _ ∈ if (!m.store.isInitialized last name) = true then _ else _
  rw [missing]
  exact List.mem_singleton_self _

namespace Engine

/-- Whatever compiled programs run on an engine and whatever its host does, at no moment does a
binding come into being where there is one of its name, or is a name without a value copied for the
next round of a loop. So a script in the global environment is told that a name is declared already
by its checks only, before it has changed anything, and for a name that it declares itself: with
`let` or `const` where there is a global `let` or `const` name or a permanent property, with `var`
or as a function where there is a global `let` or `const` name. -/
theorem redeclared_only_by_checks {natives : Native → Prop} {moments : List Moment} {e : Engine}
    (history : History Program.Accepted natives moments e) :
    (∀ now ∈ moments, ∀ env name,
      now.event ≠ some (.taken env name) ∧ now.event ≠ some (.unready env name)) ∧
      (∀ env name binding fresh m,
        ((Evaluation.create env name binding fresh).Notes m (.taken env name) ↔
          m.store.hasBinding env name = true) ∧
        ∀ r after, (Evaluation.create env name binding fresh).run m = (.raised r, after) →
          m.store.hasBinding env name = true) ∧
      (∀ last env name m, m.store.isInitialized last name = false →
        (copyBinding last env name).Notes m (.unready last name)) ∧
      ∀ m (p : Program) name after, e.machine.store.Reaches m.store → p.Accepted →
        (declareGlobal globalEnvironment p.tree.scope).run m =
          (.raised (.error (.alreadyDeclared name)), after) →
        after = m ∧ Redeclares p.tree.scope m.store name := by
  refine ⟨fun now mem env name => ?_, fun env name binding fresh m => ⟨create_notes_iff, ?_⟩,
    fun last env name m => copyBinding_notes, fun m p name after reached accepted rejected => ?_⟩
  -- The contract for names in order rules out both kinds of events at every moment.
  · obtain ⟨before, after, rfl⟩ := List.append_of_mem mem
    obtain ⟨⟨ordered, -⟩, -⟩ := history.through.split
    -- What is noted at a moment is among the events up to it.
    have known : ∀ {event}, now.event = some event →
        event ∈ eventsAfter [] (before ++ [now]) := by
      intro event noted
      rw [eventsAfter_append, eventsAfter, eventsAfter, noted]
      exact List.mem_cons_self
    exact ⟨fun noted => ordered.calm.1 (known noted), fun noted => ordered.calm.2 (known noted)⟩
  · exact fun r after => hasBinding_of_create_raised
  · have reachable := (reachable_iff_history.2 ⟨_, history⟩).anyhow
    exact redeclares_of_rejected (reachable.ready reached) accepted.nodup_lexical rejected

/-- A function, a loop and a block of a script that all declare a name of the script again. That it
compiles is all that is needed of it. -/
private def nestedNames : Sample
    "let x; (function x(x) \x7b for (let x = 0; x < 2; x++) \x7b let x \x7d \x7d)(1)"
    (fun _ => true) :=
  .ofSource (by decide +kernel)

/-- No name of the nested scopes is taken or not ready at any moment of the run. -/
theorem redeclared_only_by_checks_nested :
    let e := create { builtins := false }
    let source := "let x; (function x(x) \x7b for (let x = 0; x < 2; x++) \x7b let x \x7d \x7d)(1)"
    ∃ p, Program.compile source "" false = .ok p ∧
      ∀ now ∈ (scriptValue (e.callerWithin loopBound) loopBound p.tree).moments e.machine,
        ∀ env name, now.event ≠ some (.taken env name) ∧ now.event ≠ some (.unready env name) := by
  extract_lets e source
  obtain ⟨p, compiled, -⟩ := nestedNames
  have created : History Program.Accepted (fun _ => True) [e.moment] e := .create _
  have history := created.evaluate (.runWithin loopBound p ⟨_, _, _, compiled⟩)
  refine ⟨p, compiled, fun now mem => (redeclared_only_by_checks history).1 now ?_⟩
  simp only [List.append_assoc, List.mem_append]
  exact .inr (.inl mem)

/-- The declarations of a program succeed, and the program ends with an error that is described. -/
private def succeedsAndThrows (e : Engine) (described : String) (p : Program) : Bool :=
  match (declareGlobal globalEnvironment p.tree.scope).run e.machine, (e.runProgram p).1 with
  | (.value _, _), .error (.uncaught description _) => description == described
  | _, _ => false

private def constructingTwice : Sample "Function('let x; let x')" (succeedsAndThrows (create {})
    "SyntaxError: Identifier 'x' has already been declared") :=
  .ofSource (by decide +kernel)

/-- The `Function` constructor throws the same error when its source declares a name twice, although
the declarations of the script are in no conflict. -/
theorem redeclared_in_constructed_source :
    let e := create {}
    ∃ p, Program.compile "Function('let x; let x')" "" false = .ok p ∧
      (∃ declared, (declareGlobal globalEnvironment p.tree.scope).run e.machine =
        (.value (), declared)) ∧
      ∃ value, (e.runProgram p).1 =
        .error (.uncaught "SyntaxError: Identifier 'x' has already been declared" value) := by
  extract_lets e
  obtain ⟨p, compiled, passed⟩ := constructingTwice
  unfold succeedsAndThrows at passed
  split at passed
  next declared described value run thrown =>
    rw [beq_iff_eq] at passed
    exact ⟨p, compiled, ⟨declared, run⟩, value, passed ▸ thrown⟩
  · cases passed

end Engine

end ScriptEngine
