import ScriptEngine.Evaluate.Expression
import ScriptEngine.Proofs.Heap.Declarations

/-!
# Expressions on a heap

The value of an expression is there, and so is what its reference refers to, if the functions in the
expression may be. The operators come first, for operands that are any evaluations; the walk over
the tree applies them.
-/
namespace ScriptEngine.Regime

open Evaluation Operation Evaluate

variable {R : Regime} {s : Store}

/-! ### Operators -/

theorem literalValue_there (value : Literal) : R.HasValue s (literalValue value) := by
  cases value <;> trivial

theorem memberReference_keeps {object : Evaluation Value} {name : String}
    (inside : R.Always object R.HasValue) :
    R.Keeps s (memberReference object name) R.HasReference := by
  refine (inside s).bind fun base _ has => ?_
  split
  · exact failAsking_keeps _ _
  · exact .askingControl fun _ _ _ => .pure has

theorem deleteOf_keeps {target : Evaluation Reference} (place : R.Always target R.HasReference) :
    R.Keeps s (deleteOf target) R.HasValue :=
  (place s).bind fun _ _ has => (deleteReference_keeps has).bind fun _ _ _ => .pure trivial

theorem logical_keeps {operator : LogicalOperator} {left right : Evaluation Value}
    (first : R.Always left R.HasValue) (second : R.Always right R.HasValue) :
    R.Keeps s (logical operator left right) R.HasValue := by
  refine (first s).bind fun value _ has => ?_
  cases operator with
  | and =>
    dsimp only
    split
    · exact second _
    · exact .pure has
  | or =>
    dsimp only
    split
    · exact .pure has
    · exact second _

theorem conditional_keeps {test consequent alternate : Evaluation Value}
    (first : R.Always test R.HasValue) (second : R.Always consequent R.HasValue)
    (third : R.Always alternate R.HasValue) :
    R.Keeps s (conditional test consequent alternate) R.HasValue := by
  refine (first s).bind fun value _ _ => ?_
  split
  · exact second _
  · exact third _

/-- The value waits for nothing but itself. -/
theorem addData_keeps {object : ObjectId} {key : String} {value : Evaluation Value}
    (known : R.Known object) (inside : R.Always value R.HasValue) :
    R.Safe s (addData object key value) :=
  (inside s).bind fun _ _ has => (Keeps.define known (.ofProperty (.data has ..))).bind
    fun _ _ _ => .pure trivial

theorem addAccessor_keeps {object : ObjectId} {key : String} {role : AccessorRole}
    {code : FunctionCode} (known : R.Known object) (allowed : R.code code) :
    R.Safe s (addAccessor object key role code) := by
  refine (functionExpression_keeps allowed).bind fun {t} f _ made => defineOrFail_keeps known ?_
  have own : ∀ place ∈ some (some f), ∀ g ∈ place, R.HasObject t g := by
    rintro _ ⟨⟩ _ ⟨⟩
    exact made
  cases role with
  | getter => exact ⟨nofun, own, nofun⟩
  | setter => exact ⟨nofun, nofun, own⟩

section

variable {call : Caller} (calls : R.Calls call)

include calls

theorem indexReference_keeps {object property : Evaluation Value}
    (first : R.Always object R.HasValue) (second : R.Always property R.HasValue) :
    R.Keeps s (indexReference call object property) R.HasReference := by
  refine (first s).bind fun base _ has => (second _).bind fun key reached there => ?_
  split
  · exact .asking fun _ => .asking fun _ => .fail _
  · refine (toKey_keeps calls there).bind fun _ reached' _ => .askingControl fun _ _ _ => .pure ?_
    exact HasValue.mono has (reached.trans reached')

theorem typeOfPlace_keeps {target : Evaluation Reference} (place : R.Always target R.HasReference) :
    R.Keeps s (typeOfPlace call target) R.HasValue :=
  (place s).bind fun _ _ has => (typeOfReference_keeps calls has).bind fun _ _ _ => .pure trivial

theorem applyUnary_keeps {operator : UnaryOperator} {value : Value} (has : R.HasValue s value) :
    R.Keeps s (applyUnary call operator value) R.HasValue := by
  cases operator with
  | delete | void | logicalNot => exact .pure trivial
  | typeOf => exact .asking fun _ => .pure trivial
  | minus | plus => exact (toNumber_keeps calls has).bind fun _ _ _ => .pure trivial
  | bitwiseNot => exact (toInt32_keeps calls has).bind fun _ _ _ => .pure trivial

theorem update_keeps {operator : UpdateOperator} {isPrefix : Bool}
    {target : Evaluation Reference} (place : R.Always target R.HasReference) :
    R.Keeps s (update call operator isPrefix target) R.HasValue := by
  refine (place s).bind fun place _ has => ?_
  refine (getValue_keeps calls has).bind fun old reached there => ?_
  refine (toNumber_keeps calls there).bind fun number reached' _ => ?_
  have new : ∀ {t : Store} {n : Number}, R.HasValue t (.number n) := trivial
  exact (putValue_keeps calls (has.mono (reached.trans reached')) new).bind
    fun _ _ _ => .pure trivial

theorem binary_keeps {operator : BinaryOperator} {left right : Evaluation Value}
    (first : R.Always left R.HasValue) (second : R.Always right R.HasValue) :
    R.Keeps s (binary call operator left right) R.HasValue :=
  (first s).bind fun _ _ has => (second _).bind fun _ reached there =>
    applyBinary_keeps calls (has.mono reached) there operator

theorem assignTo_keeps {target : Evaluation Reference} {value : Evaluation Value}
    (place : R.Always target R.HasReference) (inside : R.Always value R.HasValue) :
    R.Keeps s (assignTo call target value) R.HasValue :=
  (place s).bind fun _ _ has => (inside _).bind fun _ reached there =>
    (putValue_keeps calls (has.mono reached) there).bind
      fun _ reached' _ => .pure (there.mono reached')

theorem assignCompound_keeps {operator : BinaryOperator} {target : Evaluation Reference}
    {operand : Evaluation Value} (place : R.Always target R.HasReference)
    (inside : R.Always operand R.HasValue) :
    R.Keeps s (assignCompound call operator target operand) R.HasValue := by
  refine (place s).bind fun place _ has => ?_
  refine (getValue_keeps calls has).bind fun old reached₁ there => ?_
  refine (inside _).bind fun operand reached₂ given => ?_
  refine (applyBinary_keeps calls (there.mono reached₂) given operator).bind
    fun value reached₃ new => ?_
  have has := has.mono (reached₁.trans (reached₂.trans reached₃))
  exact (putValue_keeps calls has new).bind fun _ reached₄ _ => .pure (new.mono reached₄)

theorem applyCallee_keeps {callee : Expression} {f receiver : Value} {arguments : List Value}
    (there : R.HasValue s f) (has : R.HasValue s receiver) (all : R.HasAll s arguments) :
    R.Keeps s (applyCallee call callee f receiver arguments) R.HasValue := by
  refine .asking fun _ => ?_
  split
  · exact callValue_keeps calls there has all
  · exact .fail _

omit calls in
theorem HasReference.receiver {r : Reference} (has : R.HasReference s r) :
    R.HasValue s r.receiver := by
  unfold HasReference at has
  unfold Reference.receiver
  split
  next eq => rwa [eq] at has
  · trivial

theorem callPlace_keeps {callee : Expression} {target : Evaluation Reference}
    {arguments : Evaluation (List Value)} (place : R.Always target R.HasReference)
    (all : R.Always arguments R.HasAll) :
    R.Keeps s (callPlace call callee target arguments) R.HasValue := by
  refine (place s).bind fun place _ has => (getValue_keeps calls has).bind fun f reached there => ?_
  refine (all _).bind fun arguments reached' given => ?_
  exact applyCallee_keeps calls (there.mono reached')
    (has.receiver.mono (reached.trans reached')) given

theorem callResult_keeps {callee : Expression} {value : Evaluation Value}
    {arguments : Evaluation (List Value)} (inside : R.Always value R.HasValue)
    (all : R.Always arguments R.HasAll) :
    R.Keeps s (callResult call callee value arguments) R.HasValue :=
  (inside s).bind fun _ _ there => (all _).bind fun _ reached given =>
    applyCallee_keeps calls (there.mono reached) trivial given

theorem constructWith_keeps {callee : Expression} {value : Evaluation Value}
    {arguments : Evaluation (List Value)} (inside : R.Always value R.HasValue)
    (all : R.Always arguments R.HasAll) :
    R.Keeps s (constructWith call callee value arguments) R.HasValue := by
  refine (inside s).bind fun f _ there => (all _).bind fun arguments reached given => ?_
  refine .asking fun _ => ?_
  split
  · exact construct_keeps calls (there.mono reached) given
  · exact .fail _

end

/-! ### The walk over the tree -/

/-- A function that takes the name of a place is in the expression. -/
theorem named_keeps {place : String} {e : Expression} (fits : R.Fits (.expression e))
    {value : Evaluation Value} (inside : R.Always value R.HasValue) :
    R.Keeps s (named place e value) R.HasValue := by
  unfold named
  split
  next code =>
    have inner : R.Fits (.function code) := fits.inside (.head _)
    split
    · exact .map (functionExpression_keeps inner.admits.1)
    · exact inside s
  · exact inside s

theorem namedAfter_keeps {target e : Expression} (fits : R.Fits (.expression e))
    {value : Evaluation Value} (inside : R.Always value R.HasValue) :
    R.Keeps s (namedAfter target e value) R.HasValue := by
  unfold namedAfter
  split
  · exact named_keeps fits inside
  · exact inside s

section

variable {call : Caller} (calls : R.Calls call)

include calls

set_option linter.unusedSectionVars false in
mutual

/-- The value of an expression is there. -/
theorem evaluate_keeps (e : Expression) (fits : R.Fits (.expression e)) :
    R.Always (evaluate call e) R.HasValue := by
  intro s
  match e with
  | .literal _ value =>
    unfold evaluate
    exact .pure (literalValue_there value)
  | .identifier id =>
    unfold evaluate
    exact resolveHere_keeps.bind fun place _ has => getValue_keeps calls has
  | .this _ =>
    unfold evaluate
    exact .askControl fun _ allows has => allows.receiver has
  | .array _ elements =>
    have each : ∀ part, some part ∈ elements → R.Fits (.expression part) := fun part mem =>
      fits.inside (List.mem_map_of_mem (List.mem_filterMap.2 ⟨some part, mem, rfl⟩))
    unfold evaluate
    refine (evaluatePlaces_keeps elements each s).bind fun places _ all => ?_
    exact (newArray_keeps all).bind fun _ _ made => .pure made
  | .object _ nodes =>
    have each : ∀ node ∈ nodes, R.Fits node.piece := fits.each rfl
    unfold evaluate
    refine newPlainObject_keeps.bind fun object _ made => ?_
    exact (addProperties_keeps object nodes made.2 each _).bind
      fun _ reached _ => .pure (made.mono reached)
  | .function code =>
    have inner : R.Fits (.function code) := fits.inside (.head _)
    unfold evaluate
    exact .map (functionExpression_keeps inner.admits.1)
  | .unary _ operator argument =>
    have inner : R.Fits (.expression argument) := fits.inside (.head _)
    have place := reference_keeps argument inner
    unfold evaluate
    split
    · exact deleteOf_keeps place
    split
    · exact typeOfPlace_keeps calls place
    · exact (evaluate_keeps argument inner s).bind fun _ _ has => applyUnary_keeps calls has
  | .update _ operator isPrefix argument =>
    unfold evaluate
    exact update_keeps calls (reference_keeps argument (fits.inside (.head _)))
  | .binary _ operator left right =>
    have first := evaluate_keeps left (fits.inside (.head _))
    have second := evaluate_keeps right (fits.inside (.tail _ (.head _)))
    unfold evaluate
    exact binary_keeps calls first second
  | .logical _ operator left right =>
    have first := evaluate_keeps left (fits.inside (.head _))
    have second := evaluate_keeps right (fits.inside (.tail _ (.head _)))
    unfold evaluate
    exact logical_keeps first second
  | .assign _ operator target value =>
    have inner : R.Fits (.expression value) := fits.inside (.tail _ (.head _))
    have place := reference_keeps target (fits.inside (.head _))
    have inside := evaluate_keeps value inner
    cases operator with
    | none =>
      unfold evaluate
      exact assignTo_keeps calls place fun _ => namedAfter_keeps inner inside
    | some operator =>
      unfold evaluate
      exact assignCompound_keeps calls place inside
  | .conditional _ test consequent alternate =>
    have first := evaluate_keeps test (fits.inside (.head _))
    have second := evaluate_keeps consequent (fits.inside (.tail _ (.head _)))
    have third := evaluate_keeps alternate (fits.inside (.tail _ (.tail _ (.head _))))
    unfold evaluate
    exact conditional_keeps first second third
  | .member _ object property =>
    have base := evaluate_keeps object (fits.inside (.head _))
    unfold evaluate
    exact (memberReference_keeps base).bind fun place _ has => getValue_keeps calls has
  | .index _ object property =>
    have base := evaluate_keeps object (fits.inside (.head _))
    have key := evaluate_keeps property (fits.inside (.tail _ (.head _)))
    unfold evaluate
    exact (indexReference_keeps calls base key).bind fun place _ has => getValue_keeps calls has
  | .call _ callee arguments =>
    have each : ∀ part ∈ arguments, R.Fits (.expression part) := fun part mem =>
      fits.inside (.tail _ (List.mem_map_of_mem mem))
    have inner : R.Fits (.expression callee) := fits.inside (.head _)
    have rest := evaluateAll_keeps arguments each
    unfold evaluate
    split
    · exact callPlace_keeps calls (reference_keeps callee inner) rest
    · exact callResult_keeps calls (evaluate_keeps callee inner) rest
  | .new _ callee arguments =>
    have each : ∀ part ∈ arguments, R.Fits (.expression part) := fun part mem =>
      fits.inside (.tail _ (List.mem_map_of_mem mem))
    have inside := evaluate_keeps callee (fits.inside (.head _))
    unfold evaluate
    exact constructWith_keeps calls inside (evaluateAll_keeps arguments each)
  | .sequence _ parts =>
    unfold evaluate
    refine (evaluateAll_keeps parts (fits.each rfl) s).bind fun values _ all => .pure ?_
    -- The value is the last one of all; there are none only in a tree that no text reads as.
    cases last : values.getLast? with
    | none => trivial
    | some value => exact all value (List.mem_of_getLast? last)

/-- What the reference of an expression refers to is there. -/
theorem reference_keeps (e : Expression) (fits : R.Fits (.expression e)) :
    R.Always (reference call e) R.HasReference := by
  intro s
  match e with
  | .identifier id =>
    unfold reference
    exact resolveHere_keeps
  | .member _ object property =>
    unfold reference
    exact memberReference_keeps (evaluate_keeps object (fits.inside (.head _)))
  | .index _ object property =>
    have base := evaluate_keeps object (fits.inside (.head _))
    have key := evaluate_keeps property (fits.inside (.tail _ (.head _)))
    unfold reference
    exact indexReference_keeps calls base key
  | .literal .. | .this _ | .array .. | .object .. | .function _ | .unary .. | .update ..
  | .binary .. | .logical .. | .assign .. | .conditional .. | .call .. | .new .. | .sequence .. =>
    unfold reference
    exact .raise trivial

theorem evaluateAll_keeps (es : List Expression) (each : ∀ e ∈ es, R.Fits (.expression e)) :
    R.Always (evaluateAll call es) R.HasAll := by
  intro s
  match es with
  | [] =>
    unfold evaluateAll
    exact .pure .nil
  | e :: rest =>
    obtain ⟨first, others⟩ := List.forall_mem_cons.1 each
    unfold evaluateAll
    refine (evaluate_keeps e first s).bind fun value _ has => ?_
    exact (evaluateAll_keeps rest others _).bind
      fun values reached all => .pure (List.forall_mem_cons.2 ⟨has.mono reached, all⟩)

theorem evaluatePlaces_keeps (places : List (Option Expression))
    (each : ∀ e, some e ∈ places → R.Fits (.expression e)) :
    R.Always (evaluatePlaces call places) fun t values =>
      ∀ value, some value ∈ values → R.HasValue t value := by
  intro s
  match places with
  | [] =>
    unfold evaluatePlaces
    exact .pure nofun
  | none :: rest =>
    unfold evaluatePlaces
    refine (evaluatePlaces_keeps rest (fun e mem => each e (.tail _ mem)) s).bind
      fun values _ all => .pure fun value mem => ?_
    rcases List.mem_cons.1 mem with eq | mem
    · cases eq
    · exact all value mem
  | some e :: rest =>
    unfold evaluatePlaces
    refine (evaluate_keeps e (each e (.head _)) s).bind fun first _ has => ?_
    refine (evaluatePlaces_keeps rest (fun e mem => each e (.tail _ mem)) _).bind
      fun values reached all => .pure fun value mem => ?_
    rcases List.mem_cons.1 mem with eq | mem
    · cases eq
      exact has.mono reached
    · exact all value mem

theorem addProperties_keeps (object : ObjectId) (nodes : List PropertyNode)
    (known : R.Known object) (each : ∀ node ∈ nodes, R.Fits node.piece) :
    R.Always (addProperties call object nodes) fun _ _ => True := by
  intro s
  match nodes with
  | [] =>
    unfold addProperties
    exact .pure trivial
  | .data _ key value :: rest =>
    obtain ⟨first, others⟩ := List.forall_mem_cons.1 each
    have inside := evaluate_keeps value first
    unfold addProperties
    exact (addData_keeps known fun _ => named_keeps first inside).bind
      fun _ _ _ => addProperties_keeps object rest known others _
  | .getter _ key code :: rest | .setter _ key code :: rest =>
    obtain ⟨first, others⟩ := List.forall_mem_cons.1 each
    unfold addProperties
    exact (addAccessor_keeps known first.admits.1).bind
      fun _ _ _ => addProperties_keeps object rest known others _

end

end

end ScriptEngine.Regime
