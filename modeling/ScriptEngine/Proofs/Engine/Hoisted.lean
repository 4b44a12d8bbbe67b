import ScriptEngine.Proofs.Check.Agreement
import ScriptEngine.Proofs.Engine.Redeclaration
import ScriptEngine.Proofs.Evaluation.Hoisting

/-!
# Bodies that find their functions

Whenever a run comes to the body of a block, a switch, a function or a script of a program that
compiles, the functions of its scope are in place: each name stands for a function object that is
made of the last declaration of that name. Main result: `functions_hoisted`.

Loops with a head are not among these. The scope of one lists a function that is the labelled body
of the loop, but nothing makes that function (`functions_of_loop_not_hoisted`).
-/
namespace ScriptEngine

open Evaluation Operation

namespace Evaluate

/-- A run comes to the body of a construct, and the functions of its scope are in place there. -/
def ComesHoisted {α β : Type} (scope : Scope) (body : Evaluation β) (x : Evaluation α)
    (m : Machine) : Prop :=
  ∃ start, Comes body start x m ∧ start.store.Hoists start.control.lexical scope

variable {m : Machine}

namespace ComesHoisted

variable {α β γ : Type} {scope : Scope}

/-- What a body starts with runs where the body does. -/
theorem start {y : Evaluation β} {g : β → Evaluation γ} {x : Evaluation α}
    (comes : ComesHoisted scope (y >>= g) x m) : ComesHoisted scope y x m := by
  obtain ⟨start, comes, hoists⟩ := comes
  exact ⟨start, .trans (.first .here) comes, hoists⟩

theorem first {body : Evaluation γ} {x : Evaluation α} {f : α → Evaluation β}
    (comes : ComesHoisted scope body x m) : ComesHoisted scope body (x >>= f) m := by
  obtain ⟨start, comes, hoists⟩ := comes
  exact ⟨start, .first comes, hoists⟩

theorem next {body : Evaluation γ} {x : Evaluation α} {f : α → Evaluation β} {between : Machine}
    {a : α} (run : x.run m = (.value a, between)) (comes : ComesHoisted scope body (f a) between) :
    ComesHoisted scope body (x >>= f) m := by
  obtain ⟨start, comes, hoists⟩ := comes
  exact ⟨start, .next run comes, hoists⟩

end ComesHoisted

/-- What runs in a block runs where its functions are in place. -/
theorem inBlock_comes {α : Type} {scope : Scope} (distinct : Distinct scope) (x : Evaluation α)
    (running : m.control.frames ≠ []) : ComesHoisted scope x (inBlock scope x) m := by
  unfold inBlock
  split
  -- The functions are bound in the new environment before it becomes the innermost one.
  · let opened : Machine := { m with
      store := (m.store.openEnvironment (.declarative .empty) (some m.control.lexical)).2 }
    let env : EnvironmentId := ⟨m.store.environments.size⟩
    have opens : openScopeHere.run m = (.value env, opened) := rfl
    have unbound : opened.store.Unbound env := m.store.unbound_openEnvironment _
    obtain ⟨after, run, hoists⟩ := declareBlock_run distinct unbound
    have returns := (declareBlock env scope).returns opened
    rw [run] at returns
    refine ⟨(Bracket.scope env).entered after, .next opens (.next run (.within rfl .here)), ?_⟩
    rw [show ((Bracket.scope env).entered after).control = after.control.withLexical env from rfl,
      lexical_withLexical (by rw [returns]; exact running)]
    exact hoists
  next nothing =>
    -- A block without declarations has no functions.
    refine ⟨m, .here, fun code mem => ?_⟩
    simp only [Scope.hasLexicalDeclarations, Bool.or_eq_true, not_or, Bool.not_eq_true,
      Bool.not_eq_false', List.isEmpty_iff] at nothing
    rw [nothing.2] at mem
    cases mem

/-- The body of a function that is called runs where its functions are in place. -/
theorem runFunction_comes {code : FunctionCode} (distinct : Distinct code.scope) (call : Caller)
    (bound : Nat) (f : ObjectId) (closure : EnvironmentId) {receiver this : Value}
    (arguments : List Value) {between : Machine}
    (received : (receiverFor code.strict receiver).run m = (.value this, between)) :
    ComesHoisted code.scope (executeList call bound none code.body)
      (runFunction call bound f code closure receiver arguments) m := by
  -- The environment of the call is made outside of its frame, and filled inside.
  let env : EnvironmentId := ⟨between.store.environments.size⟩
  let opened : Machine := { between with
    store := (between.store.openEnvironment (.declarative .empty) (some closure)).2 }
  let frame := Bracket.frame ⟨env, env, this, code.strict, some f⟩
  have opens : (openScope closure).run between = (.value env, opened) := rfl
  have unbound : (frame.entered opened).store.Unbound env :=
    between.store.unbound_openEnvironment (some closure)
  obtain ⟨lexical, after, run, hoists⟩ := declareCall_run f distinct arguments unbound
  have returns := (declareCall f code env arguments).returns (frame.entered opened)
  rw [run] at returns
  refine ⟨(Bracket.scope lexical).entered after,
    .next received (.next opens (.first (.within rfl (.next run (.within rfl .here))))), ?_⟩
  rw [show ((Bracket.scope lexical).entered after).control = after.control.withLexical lexical
    from rfl, lexical_withLexical (by rw [returns]; exact List.cons_ne_nil _ _)]
  exact hoists

/-- The statements of a script run where its functions are in place, if its declarations leave them
so. -/
theorem runScript_comes {tree : ScriptTree} {env lexical : EnvironmentId} (call : Caller)
    (bound : Nat) {after : Machine}
    (declared : (declareScript env tree.scope).run m = (.value lexical, after))
    (hoists : after.store.Hoists lexical tree.scope) :
    ComesHoisted tree.scope (executeScript call bound none tree.body)
      (runScript call bound tree env) m :=
  ⟨_, .first (.attempted (.next declared (.within rfl .here))), hoists⟩

theorem distinct_of_lawful {strict isFunction : Bool} {scope : Scope}
    (lawful : scope.Lawful strict isFunction) : Distinct scope where
  lexical := lawful.lexical
  functions code mem named := by
    obtain ⟨l, listed, same⟩ := List.mem_map.1 named
    exact lawful.functions l listed (same ▸ List.mem_map_of_mem mem)

end Evaluate

/-- A compiled program obeys the static rules. -/
theorem Program.Accepted.lawful {p : Program} (accepted : p.Accepted) : p.tree.Lawful :=
  (Check.script_eq_nil_iff p.tree).1 accepted.judged.accepted

namespace Engine

open Evaluate WellKnown

/-- Whatever run comes to the body of a block, a switch or a function of a program that compiles, or
to the body of the program itself, finds there all functions that the scope of the construct lists:
each name stands for a function object that is made of the last declaration of that name. A block,
which may also be that of a `try` statement, and a function always come to their bodies, a switch if
it has a value to look for, and a script in the global environment if its declarations succeed. In
some other environment a script does so if the names of its functions can be written to there. -/
theorem functions_hoisted {p : Program} (accepted : p.Accepted) {path : Path} {piece : Piece}
    (occurs : Occurs (.script p.tree) path piece) (call : Caller) (bound : Nat) (m : Machine) :
    (∀ b, piece = .block b → m.control.frames ≠ [] →
      ComesHoisted b.scope (executeList call bound none b.body) (executeBlock call bound b) m) ∧
      (∀ span discriminant cases scope labels value between,
        piece = .statement (.select span discriminant cases scope) → m.control.frames ≠ [] →
        (evaluate call discriminant).run m = (.value value, between) →
        ComesHoisted scope (selectCase call value 0 none cases)
          (execute call bound labels (.select span discriminant cases scope)) m) ∧
      (∀ code f closure receiver this arguments between, piece = .function code →
        (receiverFor code.strict receiver).run m = (.value this, between) →
        ComesHoisted code.scope (executeList call bound none code.body)
          (runFunction call bound f code closure receiver arguments) m) ∧
      (∀ e lexical declared, ReachableAnyhow e → e.machine.store.Reaches m.store →
        (declareScript globalEnvironment p.tree.scope).run m = (.value lexical, declared) →
        ComesHoisted p.tree.scope (executeScript call bound none p.tree.body)
          (runScript call bound p.tree globalEnvironment) m) ∧
      ∀ env, env ≠ globalEnvironment → m.store.Declarative env →
        (∀ code ∈ p.tree.scope.functions, m.store.Writable env code.name) →
        ComesHoisted p.tree.scope (executeScript call bound none p.tree.body)
          (runScript call bound p.tree env) m := by
  have obeys := accepted.lawful path piece occurs
  have script : p.tree.scope.Lawful p.tree.scope.strict true :=
    accepted.lawful [] (.script p.tree) .whole
  -- A block, a switch, a function, and the script in the global environment and in some other one.
  refine ⟨?_, ?_, ?_, ?_, ?_⟩
  · rintro ⟨span, body, scope⟩ rfl running
    exact inBlock_comes (distinct_of_lawful obeys) _ running
  · rintro span discriminant cases scope labels value between rfl running evaluated
    -- The discriminant is evaluated before the scope of the switch is entered.
    have returns := (evaluate call discriminant).returns m
    rw [evaluated] at returns
    exact .start (.next evaluated (.first
      (inBlock_comes (distinct_of_lawful obeys) _ (returns ▸ running))))
  · rintro code f closure receiver this arguments between rfl received
    exact runFunction_comes (distinct_of_lawful obeys.2.2) call bound f closure arguments received
  · intro e lexical declared reachable running succeeded
    -- In the global environment the declarations can fail, so that they succeed is assumed.
    refine runScript_comes call bound succeeded ?_
    rw [declareScript, if_pos rfl] at succeeded
    obtain ⟨_, after, run, same⟩ := bind_eq_value succeeded
    cases same
    exact hoists_of_declareGlobal (distinct_of_lawful script) (reachable.ready running) run
  · intro env other declarative writable
    obtain ⟨lexical, declared, run, hoists⟩ :=
      declareScoped_run (distinct_of_lawful script) declarative writable
    refine runScript_comes call bound ?_ hoists
    rw [declareScript, if_neg other]
    exact run

/-- The declarations of a program succeed in the global environment. -/
private def declares (m : Machine) (p : Program) : Bool :=
  match (declareScript globalEnvironment p.tree.scope).run m with
  | (.value _, _) => true
  | _ => false

/-- A script that declares a function twice. -/
private def declaringTwice : Sample "f(); function f() \x7b \x7d function f() \x7b \x7d"
    (fun p => p.tree.scope.functions.length == 2 && declares (create {}).machine p) :=
  .ofSource (by decide +kernel)

/-- The function is there when the statements start, with the code that stands last. -/
theorem functions_hoisted_twice :
    let e := create {}
    ∃ p, Program.compile "f(); function f() \x7b \x7d function f() \x7b \x7d" "" false = .ok p ∧
      p.tree.scope.functions.length = 2 ∧
      ComesHoisted p.tree.scope (executeScript e.caller loopBound none p.tree.body)
        (runScript e.caller loopBound p.tree globalEnvironment) e.machine := by
  extract_lets e
  obtain ⟨p, compiled, passed⟩ := declaringTwice
  simp only [Bool.and_eq_true, beq_iff_eq, declares] at passed
  obtain ⟨two, passed⟩ := passed
  split at passed
  next lexical declared succeeded =>
    exact ⟨p, compiled, two, (functions_hoisted ⟨_, _, _, compiled⟩ .whole e.caller loopBound
      e.machine).2.2.2.1 e lexical declared (.create {}) (.refl _) succeeded⟩
  · cases passed

/-- The second of three statements is a loop whose scope lists a function of this name. -/
private def listsInLoop (name : String) (p : Program) : Bool :=
  match p.tree.body with
  | [_, .forLoop _ _ _ _ _ scope, _] => scope.functions.any (·.name == name)
  | _ => false

/-- The program ends with this text for its value. -/
private def leaves (e : Engine) (text : String) (p : Program) : Bool :=
  match (e.runProgram p).1 with
  | .ok (.string value) => value == text
  | _ => false

/-- A function is declared as the labelled body of a conditional statement in a loop. -/
private def declaringInLoop : Sample
    "var g; for (var i = 0; i < 1; i++) if (g = typeof f) a: function f() \x7b \x7d g + ''"
    (fun p => listsInLoop "f" p && leaves (create {}) "undefined" p) :=
  .ofSource (by decide +kernel)

/-- A function that is declared as the labelled body of a conditional statement in a loop belongs to
the scope of the loop, but its name stands for nothing when the body runs. -/
theorem functions_of_loop_not_hoisted :
    let e := create {}
    let source :=
      "var g; for (var i = 0; i < 1; i++) if (g = typeof f) a: function f() \x7b \x7d g + ''"
    ∃ p, Program.compile source "" false = .ok p ∧
      (∃ path span init test update body scope, ∃ code ∈ scope.functions, code.name = "f" ∧
        Occurs (.script p.tree) path (.statement (.forLoop span init test update body scope))) ∧
      (e.runProgram p).1 = .ok (.string "undefined") := by
  extract_lets e source
  obtain ⟨p, compiled, passed⟩ := declaringInLoop
  rw [Bool.and_eq_true] at passed
  obtain ⟨lists, ends⟩ := passed
  refine ⟨p, compiled, ?_, ?_⟩
  · unfold listsInLoop at lists
    split at lists
    next first span init test update body scope last eq =>
      obtain ⟨code, mem, named⟩ := List.any_eq_true.1 lists
      refine ⟨_, span, init, test, update, body, scope, code, mem, by simpa using named,
        .inside .whole (List.mem_map_of_mem ?_)⟩
      rw [eq]
      exact List.mem_cons_of_mem _ List.mem_cons_self
    · cases lists
  · unfold leaves at ends
    split at ends
    next value eq => rw [eq, eq_of_beq ends]
    · cases ends

end Engine

end ScriptEngine
