import ScriptEngine.Evaluate.Expression
import ScriptEngine.Proofs.Evaluation.Declarations
import ScriptEngine.Proofs.Tree.Functions

/-!
# Expressions keep contracts

An expression that the static rules accept keeps every lawful contract that allows the functions
in it. The rules matter in one place: what is assigned to denotes a place, so its reference can be
asked for.
-/
namespace ScriptEngine.Evaluate

open Evaluation Operation Contract

/-! ### Operators -/

section

variable {C : Contract}

theorem logical_safe (operator : LogicalOperator) {left right : Evaluation Value}
    (first : C.Safe left) (second : C.Safe right) : C.Safe (logical operator left right) := by
  refine first.bind fun value => ?_
  cases operator with
  | and =>
    dsimp only
    split
    · exact second
    · exact .pure trivial
  | or =>
    dsimp only
    split
    · exact .pure trivial
    · exact second

theorem conditional_safe {test consequent alternate : Evaluation Value} (first : C.Safe test)
    (second : C.Safe consequent) (third : C.Safe alternate) :
    C.Safe (conditional test consequent alternate) := by
  refine first.bind fun value => ?_
  split
  · exact second
  · exact third

variable (lawful : C.Lawful)

include lawful

theorem memberReference_safe {object : Evaluation Value} (inside : C.Safe object) (name : String) :
    C.Safe (memberReference object name) := by
  refine inside.bind fun base => ?_
  split
  · exact failAsking_keeps lawful _ _
  · exact .askingControl fun _ => .pure trivial

theorem deleteOf_safe {target : Evaluation Reference} (inside : C.Safe target) :
    C.Safe (deleteOf target) :=
  inside.bind fun place => (deleteReference_safe lawful place).bind fun _ => .pure trivial

theorem addData_safe (object : ObjectId) (key : String) {value : Evaluation Value}
    (inside : C.Safe value) : C.Safe (addData object key value) :=
  inside.bind fun _ => (lawful.define object key _).bind fun _ => .pure trivial

theorem addAccessor_safe (object : ObjectId) (key : String) (role : AccessorRole)
    {code : FunctionCode} (allowed : C.code code) :
    C.Safe (addAccessor object key role code) :=
  (functionExpression_safe lawful allowed key).bind
    fun _ => defineOrFail_safe lawful object key _

variable {call : Caller} (calls : C.Calls call)

include calls

theorem indexReference_safe {object property : Evaluation Value} (first : C.Safe object)
    (second : C.Safe property) : C.Safe (indexReference call object property) := by
  refine first.bind fun base => second.bind fun key => ?_
  split
  · exact .asking fun _ => .asking fun _ => lawful.fail _
  · exact (toKey_safe lawful calls key).bind fun _ => .askingControl fun _ => .pure trivial

theorem typeOfPlace_safe {target : Evaluation Reference} (inside : C.Safe target) :
    C.Safe (typeOfPlace call target) :=
  inside.bind fun place => (typeOfReference_safe lawful calls place).bind fun _ => .pure trivial

theorem applyUnary_safe (operator : UnaryOperator) (value : Value) :
    C.Safe (applyUnary call operator value) := by
  cases operator with
  | delete | void | logicalNot => exact .pure trivial
  | typeOf => exact .asking fun _ => .pure trivial
  | minus | plus => exact (toNumber_safe lawful calls value).bind fun _ => .pure trivial
  | bitwiseNot => exact (toInt32_safe lawful calls value).bind fun _ => .pure trivial

theorem update_safe (operator : UpdateOperator) (isPrefix : Bool) {target : Evaluation Reference}
    (inside : C.Safe target) : C.Safe (update call operator isPrefix target) := by
  refine inside.bind fun place => (getValue_safe lawful calls place).bind fun old => ?_
  refine (toNumber_safe lawful calls old).bind fun number => ?_
  exact (putValue_safe lawful calls place _).bind fun _ => .pure trivial

theorem binary_safe (operator : BinaryOperator) {left right : Evaluation Value}
    (first : C.Safe left) (second : C.Safe right) : C.Safe (binary call operator left right) :=
  first.bind fun a => second.bind fun b => applyBinary_safe lawful calls operator a b

theorem assignTo_safe {target : Evaluation Reference} {value : Evaluation Value}
    (place : C.Safe target) (inside : C.Safe value) : C.Safe (assignTo call target value) :=
  place.bind fun place => inside.bind fun value =>
    (putValue_safe lawful calls place value).bind fun _ => .pure trivial

theorem assignCompound_safe (operator : BinaryOperator) {target : Evaluation Reference}
    {operand : Evaluation Value} (place : C.Safe target) (inside : C.Safe operand) :
    C.Safe (assignCompound call operator target operand) := by
  refine place.bind fun place => (getValue_safe lawful calls place).bind fun old => ?_
  refine inside.bind fun operand => ?_
  refine (applyBinary_safe lawful calls operator old operand).bind fun value => ?_
  exact (putValue_safe lawful calls place value).bind fun _ => .pure trivial

theorem applyCallee_safe (callee : Expression) (f receiver : Value) (arguments : List Value) :
    C.Safe (applyCallee call callee f receiver arguments) := by
  refine .asking fun callable => ?_
  split
  · exact callValue_safe lawful calls f receiver arguments
  · exact lawful.fail _

theorem callPlace_safe (callee : Expression) {target : Evaluation Reference}
    {arguments : Evaluation (List Value)} (place : C.Safe target) (rest : C.Safe arguments) :
    C.Safe (callPlace call callee target arguments) := by
  refine place.bind fun place => (getValue_safe lawful calls place).bind fun f => ?_
  exact rest.bind fun arguments => applyCallee_safe lawful calls callee f _ arguments

theorem callResult_safe (callee : Expression) {value : Evaluation Value}
    {arguments : Evaluation (List Value)} (inside : C.Safe value) (rest : C.Safe arguments) :
    C.Safe (callResult call callee value arguments) :=
  inside.bind fun f => rest.bind fun arguments =>
    applyCallee_safe lawful calls callee f .undefined arguments

theorem constructWith_safe (callee : Expression) {value : Evaluation Value}
    {arguments : Evaluation (List Value)} (inside : C.Safe value) (rest : C.Safe arguments) :
    C.Safe (constructWith call callee value arguments) := by
  refine inside.bind fun f => rest.bind fun arguments => .asking fun constructs => ?_
  split
  · exact construct_safe lawful calls f arguments
  · exact lawful.fail _

end

/-! ### What the rules say of targets -/

/-- What may be assigned to denotes a place. Its inside is accepted too: an identifier has none. -/
theorem isReference_of_target {context : Check.Context} {problem : Problem} {place : Expression}
    (accepted : Check.target context problem place (Check.expression context place) = []) :
    place.isReference ∧ Check.expression context place = [] := by
  cases place with
  | identifier id => exact ⟨rfl, by simp only [Check.expression]⟩
  | member | index => exact ⟨rfl, accepted⟩
  | _ => cases accepted

/-! ### The walk over the tree -/

section

variable {C : Contract} (lawful : C.Lawful) {call : Caller} (calls : C.Calls call)
  {T : FunctionCode → Prop}
  (allowed : ∀ {code : FunctionCode}, Check.function code = [] → T code → C.code code)
  {context : Check.Context}

include lawful allowed

theorem named_safe (place : String) {e : Expression} (accepted : Check.expression context e = [])
    (each : ∀ code ∈ Functions.expression e, T code) {value : Evaluation Value}
    (inside : C.Safe value) : C.Safe (named place e value) := by
  unfold named
  split
  next code =>
    simp only [Check.expression] at accepted
    simp only [Functions.expression, List.forall_mem_singleton] at each
    split
    · exact (functionExpression_safe lawful (allowed accepted each) place).map
    · exact inside
  · exact inside

theorem namedAfter_safe (target : Expression) {e : Expression}
    (accepted : Check.expression context e = []) (each : ∀ code ∈ Functions.expression e, T code)
    {value : Evaluation Value} (inside : C.Safe value) : C.Safe (namedAfter target e value) := by
  unfold namedAfter
  split
  · exact named_safe lawful allowed _ accepted each inside
  · exact inside

include calls

set_option linter.unusedSectionVars false in
mutual

/-- An accepted expression keeps the contract. -/
theorem evaluate_safe (e : Expression) (accepted : Check.expression context e = [])
    (each : ∀ code ∈ Functions.expression e, T code) : C.Safe (evaluate call e) := by
  match e with
  | .literal .. =>
    unfold evaluate
    exact .pure trivial
  | .identifier id =>
    unfold evaluate
    exact (resolveHere_safe id.name).bind fun place => getValue_safe lawful calls place
  | .this _ =>
    unfold evaluate
    exact .askedControl _
  | .array _ elements =>
    simp only [Check.expression] at accepted
    simp only [Functions.expression] at each
    have parts := evaluatePlaces_safe elements accepted each
    unfold evaluate
    exact parts.bind fun places => (newArray_safe lawful places).bind fun _ => .pure trivial
  | .object _ nodes =>
    simp only [Check.expression] at accepted
    simp only [Functions.expression] at each
    unfold evaluate
    exact (newObject_safe lawful _).bind
      fun object => (addProperties_safe object nodes accepted each).bind fun _ => .pure trivial
  | .function code =>
    simp only [Check.expression] at accepted
    simp only [Functions.expression, List.forall_mem_singleton] at each
    unfold evaluate
    exact (functionExpression_safe lawful (allowed accepted each) "").map
  | .unary _ operator argument =>
    simp only [Check.expression, List.append_eq_nil_iff] at accepted
    simp only [Functions.expression] at each
    unfold evaluate
    split
    -- Here it is the evaluator that asks whether the operand denotes a place.
    next deleted =>
      simp only [Bool.and_eq_true] at deleted
      have place := reference_safe argument deleted.1 accepted.2 each
      exact deleteOf_safe lawful place
    split
    next asked =>
      simp only [Bool.and_eq_true] at asked
      have place := reference_safe argument asked.1 accepted.2 each
      exact typeOfPlace_safe lawful calls place
    · have inside : C.Safe (evaluate call argument) := evaluate_safe argument accepted.2 each
      exact inside.bind fun value => applyUnary_safe lawful calls operator value
  | .update _ operator isPrefix argument =>
    simp only [Check.expression] at accepted
    simp only [Functions.expression] at each
    -- The rules have seen to it that the operand denotes a place.
    obtain ⟨isPlace, accepted⟩ := isReference_of_target accepted
    have place := reference_safe argument isPlace accepted each
    unfold evaluate
    exact update_safe lawful calls operator isPrefix place
  | .binary _ operator left right =>
    simp only [Check.expression, List.append_eq_nil_iff] at accepted
    simp only [Functions.expression, List.forall_mem_append] at each
    have first := evaluate_safe left accepted.1 each.1
    have second := evaluate_safe right accepted.2 each.2
    unfold evaluate
    exact binary_safe lawful calls operator first second
  | .logical _ operator left right =>
    simp only [Check.expression, List.append_eq_nil_iff] at accepted
    simp only [Functions.expression, List.forall_mem_append] at each
    have first := evaluate_safe left accepted.1 each.1
    have second := evaluate_safe right accepted.2 each.2
    unfold evaluate
    exact logical_safe operator first second
  | .assign _ operator target value =>
    simp only [Check.expression, List.append_eq_nil_iff] at accepted
    simp only [Functions.expression, List.forall_mem_append] at each
    obtain ⟨isPlace, targetAccepted⟩ := isReference_of_target accepted.1
    have place := reference_safe target isPlace targetAccepted each.1
    have inside := evaluate_safe value accepted.2 each.2
    cases operator with
    | none =>
      unfold evaluate
      exact assignTo_safe lawful calls place
        (namedAfter_safe lawful allowed target accepted.2 each.2 inside)
    | some operator =>
      unfold evaluate
      exact assignCompound_safe lawful calls operator place inside
  | .conditional _ test consequent alternate =>
    simp only [Check.expression, List.append_eq_nil_iff] at accepted
    simp only [Functions.expression, List.forall_mem_append] at each
    have first := evaluate_safe test accepted.1.1 each.1
    have second := evaluate_safe consequent accepted.1.2 each.2.1
    have third := evaluate_safe alternate accepted.2 each.2.2
    unfold evaluate
    exact conditional_safe first second third
  | .member _ object property =>
    simp only [Check.expression] at accepted
    simp only [Functions.expression] at each
    have base := evaluate_safe object accepted each
    unfold evaluate
    exact (memberReference_safe lawful base property.name).bind
      fun place => getValue_safe lawful calls place
  | .index _ object property =>
    simp only [Check.expression, List.append_eq_nil_iff] at accepted
    simp only [Functions.expression, List.forall_mem_append] at each
    have base := evaluate_safe object accepted.1 each.1
    have key := evaluate_safe property accepted.2 each.2
    unfold evaluate
    exact (indexReference_safe lawful calls base key).bind
      fun place => getValue_safe lawful calls place
  | .call _ callee arguments =>
    simp only [Check.expression, List.append_eq_nil_iff] at accepted
    simp only [Functions.expression, List.forall_mem_append] at each
    -- A callee that denotes a place gives the call its receiver.
    have rest := evaluateAll_safe arguments accepted.2 each.2
    unfold evaluate
    split
    next isPlace =>
      have place := reference_safe callee isPlace accepted.1 each.1
      exact callPlace_safe lawful calls callee place rest
    · have inside := evaluate_safe callee accepted.1 each.1
      exact callResult_safe lawful calls callee inside rest
  | .new _ callee arguments =>
    simp only [Check.expression, List.append_eq_nil_iff] at accepted
    simp only [Functions.expression, List.forall_mem_append] at each
    have inside := evaluate_safe callee accepted.1 each.1
    have rest := evaluateAll_safe arguments accepted.2 each.2
    unfold evaluate
    exact constructWith_safe lawful calls callee inside rest
  | .sequence _ parts =>
    simp only [Check.expression] at accepted
    simp only [Functions.expression] at each
    unfold evaluate
    exact (evaluateAll_safe parts accepted each).bind fun _ => .pure trivial

/-- The reference of an accepted expression that denotes a place. -/
theorem reference_safe (e : Expression) (isPlace : e.isReference)
    (accepted : Check.expression context e = []) (each : ∀ code ∈ Functions.expression e, T code) :
    C.Safe (reference call e) := by
  match e with
  | .identifier id =>
    unfold reference
    exact resolveHere_safe id.name
  | .member _ object property =>
    simp only [Check.expression] at accepted
    simp only [Functions.expression] at each
    have base := evaluate_safe object accepted each
    unfold reference
    exact memberReference_safe lawful base property.name
  | .index _ object property =>
    simp only [Check.expression, List.append_eq_nil_iff] at accepted
    simp only [Functions.expression, List.forall_mem_append] at each
    have base := evaluate_safe object accepted.1 each.1
    have key := evaluate_safe property accepted.2 each.2
    unfold reference
    exact indexReference_safe lawful calls base key

theorem evaluateAll_safe (es : List Expression) (accepted : Check.expressions context es = [])
    (each : ∀ code ∈ Functions.expressions es, T code) : C.Safe (evaluateAll call es) := by
  match es with
  | [] =>
    unfold evaluateAll
    exact .pure trivial
  | e :: rest =>
    simp only [Check.expressions, List.append_eq_nil_iff] at accepted
    simp only [Functions.expressions, List.forall_mem_append] at each
    unfold evaluateAll
    exact (evaluate_safe e accepted.1 each.1).bind
      fun _ => (evaluateAll_safe rest accepted.2 each.2).bind fun _ => .pure trivial

theorem evaluatePlaces_safe (slots : List (Option Expression))
    (accepted : Check.slots context slots = []) (each : ∀ code ∈ Functions.slots slots, T code) :
    C.Safe (evaluatePlaces call slots) := by
  match slots with
  | [] =>
    unfold evaluatePlaces
    exact .pure trivial
  | none :: rest =>
    simp only [Check.slots] at accepted
    simp only [Functions.slots] at each
    unfold evaluatePlaces
    exact (evaluatePlaces_safe rest accepted each).bind fun _ => .pure trivial
  | some e :: rest =>
    simp only [Check.slots, List.append_eq_nil_iff] at accepted
    simp only [Functions.slots, List.forall_mem_append] at each
    unfold evaluatePlaces
    exact (evaluate_safe e accepted.1 each.1).bind
      fun _ => (evaluatePlaces_safe rest accepted.2 each.2).bind fun _ => .pure trivial

theorem addProperties_safe (object : ObjectId) (nodes : List PropertyNode)
    (accepted : Check.properties context nodes = [])
    (each : ∀ code ∈ Functions.properties nodes, T code) : C.Safe (addProperties call object nodes) := by
  match nodes with
  | [] =>
    unfold addProperties
    exact .pure trivial
  | .data _ key value :: rest =>
    simp only [Check.properties, List.append_eq_nil_iff] at accepted
    simp only [Functions.properties, List.forall_mem_append] at each
    have inside := evaluate_safe value accepted.1 each.1
    unfold addProperties
    exact (addData_safe lawful object key
      (named_safe lawful allowed key accepted.1 each.1 inside)).bind
      fun _ => addProperties_safe object rest accepted.2 each.2
  | .getter _ key code :: rest | .setter _ key code :: rest =>
    simp only [Check.properties, List.append_eq_nil_iff] at accepted
    simp only [Functions.properties, List.forall_mem_cons] at each
    have allowed := allowed accepted.1 each.1
    unfold addProperties
    exact (addAccessor_safe lawful object key _ allowed).bind
      fun _ => addProperties_safe object rest accepted.2 each.2

end

end

/-! ### Judged functions -/

section

variable {C : Contract} (lawful : C.Lawful) {call : Caller} (calls : C.Calls call)
  {T : FunctionCode → Prop} (judged : ∀ {code : FunctionCode}, code.Judged → T code → C.code code)
  {context : Check.Context}

include lawful judged

theorem namedScoped_safe (place : String) {e : Expression}
    (accepted : Check.expression context e = []) (tied : Scoped.expression e)
    (each : ∀ code ∈ Functions.expression e, T code) {value : Evaluation Value}
    (inside : C.Safe value) : C.Safe (named place e value) :=
  named_safe lawful (fun clean both => judged ⟨clean, And.left both⟩ both.2) place accepted
    (fun code mem => ⟨Scoped.function_of_mem e tied code mem, each code mem⟩) inside

include calls

/-- An accepted expression keeps a contract that allows the judged functions in it. -/
theorem evaluateScoped_safe (e : Expression) (accepted : Check.expression context e = [])
    (tied : Scoped.expression e) (each : ∀ code ∈ Functions.expression e, T code) :
    C.Safe (evaluate call e) :=
  evaluate_safe lawful calls (fun clean both => judged ⟨clean, And.left both⟩ both.2) e accepted
    fun code mem => ⟨Scoped.function_of_mem e tied code mem, each code mem⟩

theorem referenceScoped_safe (e : Expression) (isPlace : e.isReference)
    (accepted : Check.expression context e = []) (tied : Scoped.expression e)
    (each : ∀ code ∈ Functions.expression e, T code) : C.Safe (reference call e) :=
  reference_safe lawful calls (fun clean both => judged ⟨clean, And.left both⟩ both.2) e isPlace
    accepted fun code mem => ⟨Scoped.function_of_mem e tied code mem, each code mem⟩

end

end ScriptEngine.Evaluate
