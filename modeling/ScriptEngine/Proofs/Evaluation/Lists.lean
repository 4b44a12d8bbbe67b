import ScriptEngine.Engine.Engine
import ScriptEngine.Proofs.Evaluation.Run

/-!
# Lists of statements

A list passes the value of what came before on from statement to statement, and fills it in where
the list ends or is left. Filling in is associative: of the values that are on offer the latest one
counts. So a list runs as its first part and then the rest (`executeList_append`), whatever value
either of them starts with (`executeList_eq_updateEmpty`).

Main result: a block that declares nothing may be replaced by its statements
(`executeList_block_eq_append`).
-/
namespace ScriptEngine

namespace Completion

variable {α : Type}

@[simp]
theorem updateEmpty_none (completion : Completion α) : completion.updateEmpty none = completion := by
  cases completion with
  | normal value | breaks _ value | continues _ value => cases value <;> rfl
  | returns | throws => rfl

@[simp]
theorem isNormal_updateEmpty (value : Option α) (completion : Completion α) :
    (completion.updateEmpty value).isNormal = completion.isNormal := by
  cases completion with
  | normal value | breaks _ value | continues _ value => cases value <;> rfl
  | returns | throws => rfl

@[simp]
theorem value?_updateEmpty (value : Option α) (completion : Completion α) :
    (completion.updateEmpty value).value? = completion.value?.or value := by
  cases completion with
  | normal value | breaks _ value | continues _ value => cases value <;> rfl
  | returns | throws => rfl

/-- Of two values that are filled in one after the other the first one counts. -/
@[simp]
theorem updateEmpty_updateEmpty (first second : Option α) (completion : Completion α) :
    (completion.updateEmpty first).updateEmpty second =
      completion.updateEmpty (first.or second) := by
  cases completion with
  | normal value | breaks _ value | continues _ value => cases value <;> cases first <;> rfl
  | returns | throws => rfl

end Completion

namespace Evaluate

open Evaluation

/-! ### One after the other -/

/-- What a list starts with may be filled in before it or after the statement. -/
theorem thenNext_updateEmpty (last first : Option Value) (x : Evaluation Ending)
    (next : Option Value → Evaluation Ending) :
    thenNext last (Completion.updateEmpty first <$> x) next = thenNext (first.or last) x next := by
  simp only [thenNext, map_eq_pure_bind, bind_assoc, pure_bind, Completion.isNormal_updateEmpty,
    Completion.value?_updateEmpty, Completion.updateEmpty_updateEmpty, Option.or_assoc]

/-- Three in a row, of which the second takes up the value of the first one by filling it in. -/
theorem thenNext_assoc (last : Option Value) (x y : Evaluation Ending)
    (next : Option Value → Evaluation Ending) :
    thenNext last (thenNext none x fun value => Completion.updateEmpty value <$> y) next =
      thenNext last x fun value => thenNext value y next := by
  have later : ∀ ending : Ending,
      ((if ending.isNormal then Completion.updateEmpty (ending.value?.or none) <$> y
        else pure (ending.updateEmpty none)) >>= fun ending =>
          if ending.isNormal then next (ending.value?.or last)
          else pure (ending.updateEmpty last)) =
      if ending.isNormal then thenNext (ending.value?.or last) y next
      else pure (ending.updateEmpty last) := by
    intro ending
    split
    · rw [Option.or_none]
      exact thenNext_updateEmpty last ending.value? y next
    next left => simp only [Completion.updateEmpty_none, pure_bind, left, Bool.false_eq_true,
      if_false]
  simp only [thenNext, bind_assoc] at later ⊢
  exact congrArg (x >>= ·) (funext later)

section

variable (call : Caller) (bound : Nat)

/-- The value that a list starts with is filled in where the list has none of its own. -/
theorem executeList_eq_updateEmpty (last : Option Value) (statements : List Statement) :
    executeList call bound last statements =
      Completion.updateEmpty last <$> executeList call bound none statements := by
  induction statements generalizing last with
  | nil => simp only [executeList, map_pure, Completion.updateEmpty]
  | cons s rest ih =>
    -- Both lists go on after the statement as the rest does from nothing.
    have onward : ∀ last, executeList call bound last (s :: rest) =
        thenNext last (execute call bound [] s)
          fun value => Completion.updateEmpty value <$> executeList call bound none rest := by
      intro last
      simp only [executeList]
      exact congrArg (thenNext last _) (funext ih)
    rw [onward last, onward none]
    simp only [thenNext, map_eq_pure_bind, bind_assoc]
    refine congrArg (execute call bound [] s >>= ·) (funext fun ending => ?_)
    split
    · simp only [bind_assoc, pure_bind, Completion.updateEmpty_updateEmpty, Option.or_none]
    · simp only [pure_bind, Completion.updateEmpty_updateEmpty, Option.none_or]

/-- A list runs as its first part and then, unless that was left, the rest. -/
theorem executeList_append (last : Option Value) (first second : List Statement) :
    executeList call bound last (first ++ second) =
      thenNext last (executeList call bound none first)
        fun value => executeList call bound value second := by
  induction first generalizing last with
  | nil => rfl
  | cons s rest ih =>
    have split : executeList call bound none (s :: rest) =
        thenNext none (execute call bound [] s)
          fun value => Completion.updateEmpty value <$> executeList call bound none rest := by
      simp only [executeList]
      exact congrArg (thenNext none _)
        (funext fun value => executeList_eq_updateEmpty call bound value rest)
    rw [List.cons_append, executeList, split, thenNext_assoc]
    exact congrArg (thenNext last _) (funext ih)

theorem executeBlock_eq (block : Block) :
    executeBlock call bound block =
      inBlock block.scope (executeList call bound none block.body) := by
  cases block
  unfold executeBlock
  rfl

/-- A block that declares nothing runs as its statements do. -/
theorem execute_block_of_declaresNothing {block : Block} (labels : List String)
    (lexical : block.scope.lexical = []) (functions : block.scope.functions = []) :
    execute call bound labels (.block block) = executeList call bound none block.body := by
  have plain : block.scope.hasLexicalDeclarations = false := by
    unfold Scope.hasLexicalDeclarations
    rw [lexical, functions]
    rfl
  unfold execute
  rw [executeBlock_eq, inBlock, plain]
  exact if_neg Bool.false_ne_true

/-- A block that declares nothing may be replaced by its statements, anywhere in a list: the list
ends in the same way, with the same value or raising the same, and leaves the same store, after the
same moments. -/
theorem executeList_block_eq_append (last : Option Value) (before after : List Statement)
    {block : Block} (lexical : block.scope.lexical = []) (functions : block.scope.functions = []) :
    executeList call bound last (before ++ .block block :: after) =
      executeList call bound last (before ++ block.body ++ after) := by
  rw [List.append_assoc, executeList_append, executeList_append call bound last before]
  refine congrArg (thenNext last _) (funext fun value => ?_)
  rw [executeList_append, executeList,
    execute_block_of_declaresNothing call bound [] lexical functions]

end

/-- A block that is left after its first statement has the value of that statement, and the
statement behind the block does not run, with the braces as without. -/
theorem executeList_block_eq_append_left :
    let e := Engine.create { builtins := false }
    let s : Span := ⟨0, 0⟩
    let value (n : Nat) : Statement := .expression s (.literal s (.integer n))
    let block : Block := ⟨s, [value 2, .breaks s none], .empty false⟩
    block.scope.lexical = [] ∧ block.scope.functions = [] ∧
      executeList e.caller Engine.loopBound none ([value 1] ++ .block block :: [value 3]) =
        executeList e.caller Engine.loopBound none ([value 1] ++ block.body ++ [value 3]) ∧
      (executeList e.caller Engine.loopBound none ([value 1] ++ .block block :: [value 3])).run
          e.machine =
        (.value (.breaks none (some (.number (.integer 2)))), e.machine) := by
  intro e s value block
  have lexical : block.scope.lexical = [] := rfl
  have flat := executeList_block_eq_append e.caller Engine.loopBound none [value 1] [value 3]
    lexical rfl
  refine ⟨lexical, rfl, flat, ?_⟩
  rw [flat]
  rfl

end Evaluate

end ScriptEngine
