import ScriptEngine.Evaluate.Call
import ScriptEngine.Proofs.Congruence.Natives

/-!
# The evaluator keeps relations

Expressions, statements and functions enter scopes and frames and go round in loops. A relation that
is kept by these too, and by `try` statements (`Evaluation.FullCongruence`), relates the evaluation
of every expression, statement and function to itself, given calls of functions that are related. In
loops the second evaluation may have more rounds.

What an operator or a statement does with its parts is compared for parts that are related, apart
from the walk over the tree.
-/
namespace ScriptEngine

open Evaluation Congruence Operation Evaluate

/-- A relation that is also kept in scopes, frames and loops, and by `try` statements. -/
structure Evaluation.FullCongruence extends Congruence where
  askControl {α : Type} (question : Control → α) (near : Control.Nearby question) :
    Holds (.askControl question near) (.askControl question near)
  withScope {α : Type} {x y : Evaluation α} (env : EnvironmentId) :
    Holds x y → Holds (.withScope env x) (.withScope env y)
  withFrame {α : Type} {x y : Evaluation α} (frame : Frame) :
    Holds x y → Holds (.withFrame frame x) (.withFrame frame y)
  iterate {α σ : Type} {bound bound' : Nat} {body body' : σ → Evaluation (Round σ α)} :
    bound ≤ bound' → (∀ state, Holds (body state) (body' state)) →
    ∀ state, Holds (.iterate bound body state) (.iterate bound' body' state)
  attempt {call call' : Caller} {bound bound' : Nat} {labels : List String} {span : Span}
    {block : Block} {handler : Option Handler} {finalizer : Option Block} :
    Holds (executeBlock call bound block) (executeBlock call' bound' block) →
    Option.Rel (fun handle handle' => ∀ raised : Raised, Holds (handle raised) (handle' raised))
      (executeHandler call bound handler) (executeHandler call' bound' handler) →
    Option.Rel Holds (executeFinalizer call bound finalizer)
      (executeFinalizer call' bound' finalizer) →
    Holds (execute call bound labels (.attempt span block handler finalizer))
      (execute call' bound' labels (.attempt span block handler finalizer))

namespace Evaluate

variable {R : FullCongruence}

/-! ## Parts of expressions -/

theorem openScopeHere_related : R.Covers openScopeHere :=
  .bind (R.askControl _ _) fun _ => .openEnvironment _

theorem resolveHere_related (name : String) : R.Covers (resolveHere name) :=
  .bind (R.askControl _ _) fun _ => .bind (R.askControl _ _) fun _ => R.ask _

theorem functionExpression_related (code : FunctionCode) (place : String) :
    R.Covers (functionExpression code place) := by
  unfold functionExpression
  split
  · exact .bind (R.askControl _ _) fun env => newFunction_related code env place
  · refine .bind openScopeHere_related fun env => ?_
    refine .bind (newFunction_related code env _) fun f => ?_
    refine .bind (create_related env _ _ _) fun _ => ?_
    exact .bind (R.editBindings _ _ _) fun _ => .pure _

section

variable {x x' y y' z z' : Evaluation Value}

theorem memberReference_related (object : R.Holds x x') (name : String) :
    R.Holds (memberReference x name) (memberReference x' name) := by
  refine .bind object fun base => ?_
  split
  · exact .asking fun _ => .fail _
  · exact .bind (R.askControl _ _) fun _ => .pure _

theorem deleteOf_related {place place' : Evaluation Reference} (target : R.Holds place place') :
    R.Holds (deleteOf place) (deleteOf place') :=
  .bind target fun r => .returning (deleteReference_related r)

theorem logical_related (operator : LogicalOperator) (left : R.Holds x x')
    (right : R.Holds y y') : R.Holds (logical operator x y) (logical operator x' y') := by
  refine .bind left fun value => ?_
  cases operator with
  | and =>
    dsimp only
    split
    · exact right
    · exact .pure _
  | or =>
    dsimp only
    split
    · exact .pure _
    · exact right

theorem conditional_related (test : R.Holds x x') (consequent : R.Holds y y')
    (alternate : R.Holds z z') : R.Holds (conditional x y z) (conditional x' y' z') := by
  refine .bind test fun value => ?_
  split
  · exact consequent
  · exact alternate

theorem named_related (place : String) (e : Expression) (value : R.Holds x x') :
    R.Holds (named place e x) (named place e x') := by
  cases e with
  | function code =>
    dsimp only [named]
    split
    · exact .map (functionExpression_related code place)
    · exact value
  | _ => exact value

theorem namedAfter_related (target e : Expression) (value : R.Holds x x') :
    R.Holds (namedAfter target e x) (namedAfter target e x') := by
  cases target with
  | identifier id => exact named_related id.name e value
  | _ => exact value

theorem addData_related (object : ObjectId) (key : String) (value : R.Holds x x') :
    R.Holds (addData object key x) (addData object key x') :=
  .bind value fun _ => .bind (.define _ _ _) fun _ => .pure ()

theorem addAccessor_related (object : ObjectId) (key : String) (role : AccessorRole)
    (code : FunctionCode) : R.Covers (addAccessor object key role code) :=
  .bind (functionExpression_related code key) fun _ => defineOrFail_related object key _

end

section

variable {call call' : Caller} (calls : R.Callers call call')

include calls

section

variable {x x' y y' : Evaluation Value} {place place' : Evaluation Reference}
  {arguments arguments' : Evaluation (List Value)}

theorem indexReference_related (object : R.Holds x x') (property : R.Holds y y') :
    R.Holds (indexReference call x y) (indexReference call' x' y') := by
  refine .bind object fun base => .bind property fun key => ?_
  split
  · exact .asking fun _ => .asking fun _ => .fail _
  · exact .bind (toKey_related calls key) fun _ => .bind (R.askControl _ _) fun _ => .pure _

theorem typeOfPlace_related (target : R.Holds place place') :
    R.Holds (typeOfPlace call place) (typeOfPlace call' place') :=
  .bind target fun r => .returning (typeOfReference_related calls r)

theorem applyUnary_related (operator : UnaryOperator) (value : Value) :
    R.Holds (applyUnary call operator value) (applyUnary call' operator value) := by
  cases operator with
  | minus | plus => exact .returning (toNumber_related calls value)
  | bitwiseNot => exact .returning (toInt32_related calls value)
  | typeOf => exact .asking fun _ => .pure _
  | delete | void | logicalNot => exact .pure _

theorem update_related (operator : UpdateOperator) (isPrefix : Bool)
    (target : R.Holds place place') :
    R.Holds (update call operator isPrefix place) (update call' operator isPrefix place') := by
  refine .bind target fun r => ?_
  refine .bind (getValue_related calls r) fun value => ?_
  refine .bind (toNumber_related calls value) fun old => ?_
  exact .bind (putValue_related calls r _) fun _ => .pure _

theorem binary_related (operator : BinaryOperator) (left : R.Holds x x') (right : R.Holds y y') :
    R.Holds (binary call operator x y) (binary call' operator x' y') :=
  .bind left fun a => .bind right fun b => applyBinary_related calls operator a b

theorem assignTo_related (target : R.Holds place place') (value : R.Holds x x') :
    R.Holds (assignTo call place x) (assignTo call' place' x') :=
  .bind target fun r => .bind value fun v => .bind (putValue_related calls r v) fun _ => .pure _

theorem assignCompound_related (operator : BinaryOperator) (target : R.Holds place place')
    (operand : R.Holds x x') :
    R.Holds (assignCompound call operator place x) (assignCompound call' operator place' x') := by
  refine .bind target fun r => .bind (getValue_related calls r) fun old => ?_
  refine .bind operand fun operand => ?_
  refine .bind (applyBinary_related calls operator old operand) fun value => ?_
  exact .bind (putValue_related calls r value) fun _ => .pure _

theorem applyCallee_related (callee : Expression) (f receiver : Value) (arguments : List Value) :
    R.Holds (applyCallee call callee f receiver arguments)
      (applyCallee call' callee f receiver arguments) := by
  refine .asking fun callable => ?_
  cases callable with
  | true => exact callValue_related calls f receiver arguments
  | false => exact .fail _

theorem callPlace_related (callee : Expression) (target : R.Holds place place')
    (given : R.Holds arguments arguments') :
    R.Holds (callPlace call callee place arguments)
      (callPlace call' callee place' arguments') := by
  refine .bind target fun r => .bind (getValue_related calls r) fun f => ?_
  exact .bind given fun values => applyCallee_related calls callee f r.receiver values

theorem callResult_related (callee : Expression) (value : R.Holds x x')
    (given : R.Holds arguments arguments') :
    R.Holds (callResult call callee x arguments) (callResult call' callee x' arguments') :=
  .bind value fun f => .bind given fun values => applyCallee_related calls callee f _ values

theorem constructWith_related (callee : Expression) (value : R.Holds x x')
    (given : R.Holds arguments arguments') :
    R.Holds (constructWith call callee x arguments)
      (constructWith call' callee x' arguments') := by
  refine .bind value fun f => .bind given fun values => .asking fun constructor => ?_
  cases constructor with
  | true => exact construct_related calls f values
  | false => exact .fail _

end

/-! ## The walk over an expression -/

set_option linter.unusedSectionVars false in
mutual

theorem evaluate_related (e : Expression) : R.Holds (evaluate call e) (evaluate call' e) := by
  unfold evaluate
  match e with
  | .literal .. => exact .pure _
  | .this _ => exact R.askControl _ _
  | .function code => exact .map (functionExpression_related code "")
  | .identifier id =>
    exact .bind (resolveHere_related id.name) fun place => getValue_related calls place
  | .array _ elements =>
    exact .bind (evaluatePlaces_related elements) fun _ => .returning (newArray_related _)
  | .object _ nodes =>
    exact .bind (newObject_related _) fun object => .returning (addProperties_related object nodes)
  | .unary _ operator argument =>
    dsimp only
    split
    · exact deleteOf_related (reference_related argument)
    split
    · exact typeOfPlace_related calls (reference_related argument)
    · exact .bind (evaluate_related argument)
        fun value => applyUnary_related calls operator value
  | .update _ operator isPrefix argument =>
    exact update_related calls operator isPrefix (reference_related argument)
  | .binary _ operator left right =>
    exact binary_related calls operator (evaluate_related left) (evaluate_related right)
  | .logical _ operator left right =>
    exact logical_related operator (evaluate_related left) (evaluate_related right)
  | .assign _ none target value =>
    exact assignTo_related calls (reference_related target)
      (namedAfter_related target value (evaluate_related value))
  | .assign _ (some operator) target value =>
    exact assignCompound_related calls operator (reference_related target)
      (evaluate_related value)
  | .conditional _ test consequent alternate =>
    exact conditional_related (evaluate_related test) (evaluate_related consequent)
      (evaluate_related alternate)
  | .member _ object property =>
    exact .bind (memberReference_related (evaluate_related object) property.name)
      fun place => getValue_related calls place
  | .index _ object property =>
    exact .bind (indexReference_related calls (evaluate_related object)
      (evaluate_related property)) fun place => getValue_related calls place
  | .call _ callee arguments =>
    dsimp only
    split
    · exact callPlace_related calls callee (reference_related callee)
        (evaluateAll_related arguments)
    · exact callResult_related calls callee (evaluate_related callee)
        (evaluateAll_related arguments)
  | .new _ callee arguments =>
    exact constructWith_related calls callee (evaluate_related callee)
      (evaluateAll_related arguments)
  | .sequence _ parts => exact .returning (evaluateAll_related parts)

theorem reference_related (e : Expression) : R.Holds (reference call e) (reference call' e) := by
  unfold reference
  match e with
  | .identifier id => exact resolveHere_related id.name
  | .member _ object property =>
    exact memberReference_related (evaluate_related object) property.name
  | .index _ object property =>
    exact indexReference_related calls (evaluate_related object) (evaluate_related property)
  | .literal .. | .this _ | .array .. | .object .. | .function _ | .unary .. | .update ..
  | .binary .. | .logical .. | .assign .. | .conditional .. | .call .. | .new .. | .sequence .. =>
    exact .raise _

theorem evaluateAll_related (es : List Expression) :
    R.Holds (evaluateAll call es) (evaluateAll call' es) := by
  unfold evaluateAll
  match es with
  | [] => exact .pure _
  | e :: rest =>
    exact .bind (evaluate_related e) fun value => .returning (evaluateAll_related rest)

theorem evaluatePlaces_related (places : List (Option Expression)) :
    R.Holds (evaluatePlaces call places) (evaluatePlaces call' places) := by
  unfold evaluatePlaces
  match places with
  | [] => exact .pure _
  | none :: rest => exact .returning (evaluatePlaces_related rest)
  | some e :: rest =>
    exact .bind (evaluate_related e) fun value => .returning (evaluatePlaces_related rest)

theorem addProperties_related (object : ObjectId) (nodes : List PropertyNode) :
    R.Holds (addProperties call object nodes) (addProperties call' object nodes) := by
  unfold addProperties
  match nodes with
  | [] => exact .pure _
  | .data _ key value :: rest =>
    have inside := named_related key value (evaluate_related value)
    exact .bind (addData_related object key inside) fun _ => addProperties_related object rest
  | .getter _ key code :: rest | .setter _ key code :: rest =>
    exact .bind (addAccessor_related object key _ code) fun _ => addProperties_related object rest

end

end

/-! ## Parts of statements -/

section

variable {x x' : Evaluation Value} {y y' z z' : Evaluation Ending} {bound bound' : Nat}

theorem afterRound_related {σ : Type} (labels : List String) (last : Value) (ending : Ending)
    {next next' : Value → Evaluation (Round σ Ending)}
    (onward : ∀ last, R.Holds (next last) (next' last)) :
    R.Holds (afterRound labels last ending next) (afterRound labels last ending next') := by
  unfold afterRound
  split
  · exact onward _
  · exact .pure _

theorem whileLoop_related (fewer : bound ≤ bound') (labels : List String) (test : R.Holds x x')
    (body : R.Holds y y') :
    R.Holds (whileLoop bound labels x y) (whileLoop bound' labels x' y') := by
  refine R.iterate fewer (fun last => .bind test fun value => ?_) _
  split
  · exact .bind body fun ending => afterRound_related labels last ending fun _ => .pure _
  · exact .pure _

theorem doLoop_related (fewer : bound ≤ bound') (labels : List String) (body : R.Holds y y')
    (test : R.Holds x x') :
    R.Holds (doLoop bound labels y x) (doLoop bound' labels y' x') := by
  refine R.iterate fewer (fun last => .bind body fun ending => ?_) _
  refine afterRound_related labels last ending fun last => .bind test fun value => ?_
  split <;> exact .pure _

theorem copyBinding_related (last env : EnvironmentId) (name : String) :
    R.Covers (copyBinding last env name) :=
  .bind (R.noteIf _ _) fun _ => .bind (getBinding_related last name true) fun value =>
    .bind (createLexical_related env name false) fun _ => initializeLexical_related env name value

theorem nextScope_related (names : List String) : R.Covers (nextScope names) := by
  refine .bind (R.askControl _ _) fun last => ?_
  split
  · exact .pure _
  · exact .asking fun outer => .bind (.openEnvironment outer) fun env =>
      .returning (.forM fun name _ => copyBinding_related last env name)

theorem forRounds_related (fewer : bound ≤ bound') (labels names : List String)
    {test test' update update' : Option (Evaluation Value)}
    (first : Option.Rel R.Holds test test') (body : R.Holds y y')
    (after : Option.Rel R.Holds update update') :
    R.Holds (forRounds bound labels names test update y)
      (forRounds bound' labels names test' update' y') := by
  refine .bind (nextScope_related names) fun env => R.iterate fewer (fun (env, last) => ?_) _
  -- The test comes first in each round, and the update last, among the names of the next one.
  refine .bind (R.withScope env ?_) fun proceed => ?_
  · cases first with
    | some inside => exact .map inside
    | none => exact .pure _
  · cases proceed with
    | true =>
      refine .bind (R.withScope env body) fun ending => ?_
      refine afterRound_related labels last ending fun last => ?_
      refine .bind (R.withScope env (nextScope_related names)) fun env => ?_
      cases after with
      | some inside => exact .bind (R.withScope env inside) fun _ => .pure _
      | none => exact .pure _
    | false => exact .pure _

theorem visitKeys_related (labels : List String) (object : ObjectId)
    {visit visit' : Value → Evaluation Ending} (each : ∀ key, R.Holds (visit key) (visit' key))
    (keys : List String) (last : Value) :
    R.Holds (visitKeys labels object visit keys last)
      (visitKeys labels object visit' keys last) := by
  induction keys generalizing last with
  | nil => exact .pure _
  | cons key rest ih =>
    refine .asking fun there => ?_
    cases there with
    | true =>
      refine .bind (each _) fun ending => ?_
      split
      · exact ih _
      · exact .pure _
    | false => exact ih last

theorem forInLoop_related (labels : List String) {visit visit' : Value → Evaluation Ending}
    (right : R.Holds x x') (each : ∀ key, R.Holds (visit key) (visit' key)) :
    R.Holds (forInLoop labels x visit) (forInLoop labels x' visit') := by
  refine .bind right fun value => ?_
  split
  · exact .pure _
  · exact .bind (toObject_related value) fun object =>
      .asking fun keys => visitKeys_related labels object each keys _

theorem forInObject_related (left : ForTarget) (right : R.Holds x x') :
    R.Holds (forInObject left x) (forInObject left x') := by
  match left with
  | .declaration .let id | .declaration .const id =>
    exact .bind openScopeHere_related fun env =>
      .bind (createLexical_related env id.name false) fun _ => R.withScope env right
  | .declaration .var id | .expression target => exact right

theorem visitScope_related (name : String) (isConst : Bool) (body : R.Holds y y') (key : Value) :
    R.Holds (visitScope name isConst y key) (visitScope name isConst y' key) :=
  .bind openScopeHere_related fun env =>
    .bind (createLexical_related env name isConst) fun _ =>
      .bind (initializeLexical_related env name key) fun _ => R.withScope env body

theorem branch_related (test : R.Holds x x') (consequent : R.Holds y y')
    (alternate : R.Holds z z') : R.Holds (branch x y z) (branch x' y' z') := by
  refine .bind test fun value => ?_
  dsimp only
  split
  · exact .returning consequent
  · exact .returning alternate

theorem fallThrough_related (last : Value) (clause : R.Holds y y')
    {next next' : Value → Evaluation Ending}
    (onward : ∀ last, R.Holds (next last) (next' last)) :
    R.Holds (fallThrough last y next) (fallThrough last y' next') := by
  refine .bind clause fun ending => ?_
  dsimp only
  split
  · exact onward _
  · exact .pure _

theorem thenNext_related (last : Option Value) (statement : R.Holds y y')
    {next next' : Option Value → Evaluation Ending}
    (onward : ∀ last, R.Holds (next last) (next' last)) :
    R.Holds (thenNext last y next) (thenNext last y' next') := by
  refine .bind statement fun ending => ?_
  split
  · exact onward _
  · exact .pure _

theorem catchClause_related (name : String) (body : R.Holds y y') (raised : Raised) :
    R.Holds (catchClause name y raised) (catchClause name y' raised) :=
  .bind (caught_related raised) fun value => .bind openScopeHere_related fun env =>
    .bind (declare_related env name false value) fun _ => R.withScope env body

theorem inBlock_related (scope : Scope) (inside : R.Holds y y') :
    R.Holds (inBlock scope y) (inBlock scope y') := by
  unfold inBlock
  split
  · exact .bind openScopeHere_related fun env =>
      .bind (declareBlock_related env scope) fun _ => R.withScope env inside
  · exact inside

end

section

variable {call call' : Caller} (calls : R.Callers call call')

include calls

theorem visitPlace_related {place place' : Evaluation Reference} {y y' : Evaluation Ending}
    (target : R.Holds place place') (body : R.Holds y y') (key : Value) :
    R.Holds (visitPlace call place y key) (visitPlace call' place' y' key) :=
  .bind target fun r => .bind (putValue_related calls r key) fun _ => body

theorem selectCase_related (value : Value) (index : Nat) (fallback : Option Nat)
    (clauses : List Case) :
    R.Holds (selectCase call value index fallback clauses)
      (selectCase call' value index fallback clauses) := by
  induction clauses generalizing index fallback with
  | nil => exact .pure _
  | cons clause rest ih =>
    obtain ⟨_, test, body⟩ := clause
    cases test with
    | none => exact ih _ _
    | some test =>
      refine .bind (evaluate_related calls test) fun found => ?_
      split
      · exact .pure _
      · exact ih _ _

theorem runDeclarator_related (kind : DeclarationKind) (d : Declarator) :
    R.Holds (runDeclarator call kind d) (runDeclarator call' kind d) := by
  have inside : Option.Rel R.Holds
      (d.init.map fun init => named d.id.name init (evaluate call init))
      (d.init.map fun init => named d.id.name init (evaluate call' init)) := by
    cases d.init with
    | none => exact .none
    | some init => exact .some (named_related d.id.name init (evaluate_related calls init))
  have initializes : ∀ value, R.Covers (do
      initializeLexical (← askControl (·.lexical)) d.id.name value) :=
    fun value => .bind (R.askControl _ _) fun env => initializeLexical_related env _ value
  unfold runDeclarator
  -- From here on it matters only whether there is an initial value.
  generalize (d.init.map fun init => named d.id.name init (evaluate call init)) = value,
    (d.init.map fun init => named d.id.name init (evaluate call' init)) = value' at inside ⊢
  cases inside with
  | none =>
    cases kind with
    | var => exact .pure ()
    | «let» | const => exact .bind (.pure _) initializes
  | some inside =>
    cases kind with
    | var =>
      exact .bind (resolveHere_related d.id.name) fun place =>
        .bind inside fun v => putValue_related calls place v
    | «let» | const => exact .bind inside initializes

theorem runDeclaration_related (d : Declaration) :
    R.Holds (runDeclaration call d) (runDeclaration call' d) :=
  .forM fun part _ => runDeclarator_related calls d.kind part

theorem forLoop_related (init : Option ForInit) (scope : Scope)
    {rounds rounds' : List String → Evaluation Ending}
    (inside : ∀ names, R.Holds (rounds names) (rounds' names)) :
    R.Holds (forLoop call init scope rounds) (forLoop call' init scope rounds') := by
  match init with
  | none => exact inside []
  | some (.expression value) => exact .bind (evaluate_related calls value) fun _ => inside []
  | some (.declaration ⟨span, kind, parts⟩) =>
    have declared := runDeclaration_related calls ⟨span, kind, parts⟩
    cases kind with
    | var => exact .bind declared fun _ => inside []
    | «let» | const =>
      exact .bind openScopeHere_related fun env =>
        .bind (declareLexical_related env scope) fun _ =>
          R.withScope env (.bind declared fun _ => inside _)

/-! ## The walk over a statement -/

theorem optional_related (part : Option Expression) :
    Option.Rel R.Holds (part.map (evaluate call)) (part.map (evaluate call')) := by
  cases part with
  | none => exact .none
  | some e => exact .some (evaluate_related calls e)

variable {bound bound' : Nat} (fewer : bound ≤ bound')

include fewer

set_option linter.unusedSectionVars false in
mutual

theorem execute_related (labels : List String) (statement : Statement) :
    R.Holds (execute call bound labels statement) (execute call' bound' labels statement) := by
  match statement with
  | .attempt _ body handler finalizer =>
    exact R.attempt (executeBlock_related body) (executeHandler_related handler)
      (executeFinalizer_related finalizer)
  | .expression _ value | .returns _ (some value) =>
    unfold execute
    exact .returning (evaluate_related calls value)
  | .throws _ value =>
    unfold execute
    exact .bind (evaluate_related calls value) fun _ => .raise _
  | .block body =>
    unfold execute
    exact executeBlock_related body
  | .empty _ | .debugger _ | .function _ | .breaks .. | .continues .. | .returns _ none =>
    unfold execute
    exact .pure _
  | .declaration d =>
    unfold execute
    exact .returning (runDeclaration_related calls d)
  | .labelled _ label body =>
    unfold execute
    exact .returning (execute_related (label.name :: labels) body)
  | .branch _ test consequent none =>
    unfold execute
    exact branch_related (evaluate_related calls test) (execute_related [] consequent) (.pure _)
  | .branch _ test consequent (some alternate) =>
    unfold execute
    exact branch_related (evaluate_related calls test) (execute_related [] consequent)
      (execute_related [] alternate)
  | .select _ discriminant clauses scope =>
    unfold execute
    refine .bind (evaluate_related calls discriminant) fun value => .returning ?_
    refine inBlock_related scope ?_
    refine .bind (selectCase_related calls value 0 none clauses) fun found => ?_
    cases found with
    | none => exact .pure _
    | some entry => exact executeCases_related entry .undefined clauses
  | .whileLoop _ test body =>
    unfold execute
    exact .returning (whileLoop_related fewer labels (evaluate_related calls test)
      (execute_related [] body))
  | .doLoop _ body test =>
    unfold execute
    exact .returning (doLoop_related fewer labels (execute_related [] body)
      (evaluate_related calls test))
  | .forLoop _ init test update body scope =>
    unfold execute
    refine .returning (forLoop_related calls init scope fun names => ?_)
    exact forRounds_related fewer labels names (optional_related calls test)
      (execute_related [] body) (optional_related calls update)
  | .forInLoop _ left right body _ =>
    unfold execute
    have inside := execute_related [] body
    have object := forInObject_related left (evaluate_related calls right)
    refine .returning (forInLoop_related labels object fun key => ?_)
    match left with
    | .expression target =>
      exact visitPlace_related calls (reference_related calls target) inside key
    | .declaration .var id =>
      exact visitPlace_related calls (resolveHere_related id.name) inside key
    | .declaration .let id | .declaration .const id =>
      exact visitScope_related id.name _ inside key

theorem executeList_related (last : Option Value) (statements : List Statement) :
    R.Holds (executeList call bound last statements)
      (executeList call' bound' last statements) := by
  unfold executeList
  match statements with
  | [] => exact .pure _
  | statement :: rest =>
    exact thenNext_related last (execute_related [] statement)
      fun last => executeList_related last rest

theorem executeBlock_related (block : Block) :
    R.Holds (executeBlock call bound block) (executeBlock call' bound' block) := by
  unfold executeBlock
  match block with
  | ⟨_, body, scope⟩ => exact inBlock_related scope (executeList_related none body)

theorem executeCases_related (skipped : Nat) (last : Value) (clauses : List Case) :
    R.Holds (executeCases call bound skipped last clauses)
      (executeCases call' bound' skipped last clauses) := by
  unfold executeCases
  match clauses with
  | [] => exact .pure _
  | ⟨_, _, body⟩ :: rest =>
    dsimp only
    split
    · exact fallThrough_related last (executeList_related none body)
        fun last => executeCases_related 0 last rest
    · exact executeCases_related (skipped - 1) last rest

theorem executeHandler_related (handler : Option Handler) :
    Option.Rel (fun handle handle' => ∀ raised : Raised, R.Holds (handle raised) (handle' raised))
      (executeHandler call bound handler) (executeHandler call' bound' handler) := by
  unfold executeHandler
  match handler with
  | none => exact .none
  | some ⟨_, parameter, body⟩ =>
    exact .some (catchClause_related parameter.name (executeBlock_related body))

theorem executeFinalizer_related (finalizer : Option Block) :
    Option.Rel R.Holds (executeFinalizer call bound finalizer)
      (executeFinalizer call' bound' finalizer) := by
  unfold executeFinalizer
  match finalizer with
  | none => exact .none
  | some block => exact .some (executeBlock_related block)

end

/-! ## Functions -/

omit calls fewer in
theorem receiverFor_related {R : Congruence} (strict : Bool) (receiver : Value) :
    R.Covers (receiverFor strict receiver) := by
  unfold receiverFor
  split
  · exact .pure _
  · split
    · exact .pure _
    · exact .returning (toObject_related receiver)

omit calls fewer in
theorem callResultOf_related {R : Congruence} (ending : Ending) :
    R.Covers (callResultOf ending) := by
  cases ending with
  | returns | normal => exact .pure _
  | throws | breaks | continues => exact .raise _

theorem runFunction_related (f : ObjectId) (code : FunctionCode) (closure : EnvironmentId)
    (receiver : Value) (arguments : List Value) :
    R.Holds (runFunction call bound f code closure receiver arguments)
      (runFunction call' bound' f code closure receiver arguments) := by
  refine .bind (receiverFor_related code.strict receiver) fun receiver => ?_
  refine .bind (.openEnvironment _) fun env => ?_
  refine .bind (R.withFrame _ ?_) fun ending => callResultOf_related ending
  exact .bind (declareCall_related f code env arguments) fun lexical =>
    R.withScope lexical (executeList_related calls fewer none code.body)

/-- Given what the constructor of functions does, so it is for every function that is called. -/
theorem applyFunction_related (f : ObjectId) (receiver : Value) (arguments : List Value)
    (constructor : R.Holds (Library.function ⟨call, runScript call bound⟩ receiver arguments)
      (Library.function ⟨call', runScript call' bound'⟩ receiver arguments)) :
    R.Holds (applyFunction call bound f receiver arguments)
      (applyFunction call' bound' f receiver arguments) := by
  refine .asking fun kind => ?_
  cases kind with
  | script code closure => exact runFunction_related calls fewer f code closure receiver arguments
  | native code =>
    exact Library.perform_related calls code.behaviour receiver arguments fun _ => constructor
  | _ => exact .asking fun _ => .fail _

end

end Evaluate

end ScriptEngine
