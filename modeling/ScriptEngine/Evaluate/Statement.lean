import ScriptEngine.Evaluate.Declaration
import ScriptEngine.Evaluate.Expression

/-!
# Statements

How statements end. Loops whose number of rounds nothing limits get a bound; the walk over the tree
itself ends because the tree does. What a statement does with its parts is defined apart from the
walk, for parts that are any evaluations.

A loop passes the value of its last round on, and a statement that has no value of its own keeps
the one before it.
-/
namespace ScriptEngine.Evaluate

open Evaluation Operation

variable (call : Caller) (bound : Nat)

/-- The completion of a statement. -/
abbrev Ending := Completion Value

/-- Goes on after a round of a loop that ended in some way: with another round, or at the end of
the loop. -/
def afterRound {σ : Type} (labels : List String) (last : Value) (ending : Ending)
    (next : Value → Evaluation (Round σ Ending)) : Evaluation (Round σ Ending) :=
  if ending.letsLoopContinue labels then next (ending.value?.getD last)
  else return .done (ending.updateEmpty (some last))

/-- A loop with its test before the body. -/
def whileLoop (labels : List String) (test : Evaluation Value) (body : Evaluation Ending) :
    Evaluation Ending :=
  iterate bound
    (fun last => do
      if (← test).isTrue then
        let ending ← body
        afterRound labels last ending fun last => return .again last
      else return .done (.normal (some last)))
    Value.undefined

/-- A loop with its test after the body. -/
def doLoop (labels : List String) (body : Evaluation Ending) (test : Evaluation Value) :
    Evaluation Ending :=
  iterate bound
    (fun last => do
      let ending ← body
      afterRound labels last ending fun last => do
        if (← test).isTrue then return .again last else return .done (.normal (some last)))
    Value.undefined

/-- Declares a name of the next round of a loop, with the value that it has in the last one. -/
def copyBinding (last env : EnvironmentId) (name : String) : Evaluation Unit := do
  noteIf (!·.isInitialized last name) (.unready last name)
  let value ← getBinding last name true
  createLexical env name false
  initializeLexical env name value

/-- A new environment beside that of the round before, with the same values for some names. A loop
that declares no names keeps its environment. -/
def nextScope (names : List String) : Evaluation EnvironmentId := do
  let last ← askControl (·.lexical)
  if names.isEmpty then return last
  else
    let env ← openEnvironment (← ask fun s => (s.environment last).outer)
    names.forM (copyBinding last env)
    return env

/-- The rounds of a loop with a head. Each round has an environment of its own for the names that
the head declares with `let`. -/
def forRounds (labels names : List String) (test update : Option (Evaluation Value))
    (body : Evaluation Ending) : Evaluation Ending := do
  let first ← nextScope names
  iterate bound
    (fun (env, last) => do
      let proceed ← withScope env (match test with
        | some test => Value.isTrue <$> test
        | none => return true)
      if proceed then
        let ending ← withScope env body
        afterRound labels last ending fun last => do
          -- The update is evaluated among the names of the round to come.
          let env ← withScope env (nextScope names)
          if let some update := update then
            let _ ← withScope env update
          return .again (env, last)
      else return .done (.normal (some last)))
    (first, Value.undefined)

/-- The rounds of a loop over the keys of an object. A key that has meanwhile gone is left out. -/
def visitKeys (labels : List String) (object : ObjectId) (visit : Value → Evaluation Ending) :
    List String → Value → Evaluation Ending
  | [], last => return .normal (some last)
  | key :: rest, last => do
    if ← ask (·.isEnumerable object key) then
      let ending ← visit (.string key)
      if ending.letsLoopContinue labels then
        visitKeys labels object visit rest (ending.value?.getD last)
      else return ending.updateEmpty (some last)
    else visitKeys labels object visit rest last

/-- A loop over the keys of what a value becomes as an object. -/
def forInLoop (labels : List String) (right : Evaluation Value)
    (visit : Value → Evaluation Ending) : Evaluation Ending := do
  let right ← right
  if right.isNullish then return .normal (some .undefined)
  else
    let object ← toObject right
    visitKeys labels object visit (← ask (·.forInKeys object)) .undefined

/-- The object of a loop over keys. A name that the loop declares with `let` or `const` is there
already, but it cannot be used yet. -/
def forInObject (left : ForTarget) (right : Evaluation Value) : Evaluation Value := do
  match left with
  | .declaration .let id | .declaration .const id =>
    -- The name never gets a value here, so it makes no difference that it may be a constant.
    let env ← openScopeHere
    createLexical env id.name false
    withScope env right
  | _ => right

/-- One round over a key that is written to a place. -/
def visitPlace (place : Evaluation Reference) (body : Evaluation Ending) (key : Value) :
    Evaluation Ending := do
  let place ← place
  putValue call place key
  body

/-- One round over a key that is the value of a name of its own. -/
def visitScope (name : String) (isConst : Bool) (body : Evaluation Ending) (key : Value) :
    Evaluation Ending := do
  let env ← openScopeHere
  createLexical env name isConst
  initializeLexical env name key
  withScope env body

def branch (test : Evaluation Value) (consequent alternate : Evaluation Ending) :
    Evaluation Ending := do
  let ending ← if (← test).isTrue then consequent else alternate
  return ending.updateEmpty (some .undefined)

/-- Looks for the clause whose test equals a value, and otherwise for the default clause. -/
def selectCase (value : Value) (index : Nat) (fallback : Option Nat) :
    List Case → Evaluation (Option Nat)
  | [] => return fallback
  | ⟨_, none, _⟩ :: rest => selectCase value (index + 1) (fallback.or (some index)) rest
  | ⟨_, some test, _⟩ :: rest => do
    if value.strictlyEqual (← evaluate call test) then return some index
    else selectCase value (index + 1) fallback rest

/-- Goes on to the next clause of a switch unless the clause before was left. -/
def fallThrough (last : Value) (clause : Evaluation Ending)
    (next : Value → Evaluation Ending) : Evaluation Ending := do
  let ending ← clause
  let last := ending.value?.getD last
  if ending.isNormal then next last else return ending.updateEmpty (some last)

/-- Goes on to the next statement of a list unless the one before was left. -/
def thenNext (last : Option Value) (statement : Evaluation Ending)
    (next : Option Value → Evaluation Ending) : Evaluation Ending := do
  let ending ← statement
  if ending.isNormal then next (ending.value?.or last) else return ending.updateEmpty last

/-- A `catch` clause, for something that was raised and is no fault. -/
def catchClause (name : String) (body : Evaluation Ending) (raised : Raised) :
    Evaluation Ending := do
  let value ← caught raised
  let env ← openScopeHere
  declare env name false value
  withScope env body

def isFault : Raised → Bool
  | .fault _ => true
  | _ => false

/-- The part of a `try` statement before its `finally` clause. -/
def tryCatch (block : Evaluation Ending) (handler : Option (Raised → Evaluation Ending)) :
    Evaluation Ending := do
  match ← attempt .statement block, handler with
  | .error raised, some handle => if isFault raised then raise raised else handle raised
  | result, _ => ofExcept result

/-- A `try` statement. A `finally` clause that is left early prevails over what it follows; no
clause runs after a fault. -/
def tryStatement (block : Evaluation Ending) (handler : Option (Raised → Evaluation Ending))
    (finalizer : Option (Evaluation Ending)) : Evaluation Ending := do
  let ending ← match finalizer with
    | none => tryCatch block handler
    | some finalizer => do
      let result ← attempt .statement (tryCatch block handler)
      match result with
      | .error (.fault fault) => raise (.fault fault)
      | _ =>
        let final ← finalizer
        if final.isNormal then ofExcept result else pure final
  return ending.updateEmpty (some .undefined)

/-- Runs a declarator: a `var` name is written if it has an initial value, a `let` or `const` name
gets its first value. -/
def runDeclarator (kind : DeclarationKind) (d : Declarator) : Evaluation Unit := do
  let value := d.init.map fun init => named d.id.name init (evaluate call init)
  match kind, value with
  | .var, some value =>
    let place ← resolveHere d.id.name
    putValue call place (← value)
  | .var, none => return ()
  | _, value =>
    let value ← value.getD (return .undefined)
    initializeLexical (← askControl (·.lexical)) d.id.name value

def runDeclaration (d : Declaration) : Evaluation Unit :=
  d.declarators.forM (runDeclarator call d.kind)

/-- A loop with a head, given its rounds for the names that get an environment for each round. -/
def forLoop (init : Option ForInit) (scope : Scope) (rounds : List String → Evaluation Ending) :
    Evaluation Ending := do
  match init with
  | none => rounds []
  | some (.expression value) =>
    let _ ← evaluate call value
    rounds []
  | some (.declaration d) =>
    match d.kind with
    | .var =>
      runDeclaration call d
      rounds []
    -- Of all that the scope lists only the `let` and `const` names come into being.
    | kind =>
      let env ← openScopeHere
      declareLexical env scope
      withScope env do
        runDeclaration call d
        rounds (if kind = .let then d.declarators.map (·.id.name) else [])

mutual

/-- How a statement ends. The labels are those that stand right before it. -/
def execute (labels : List String) : Statement → Evaluation Ending
  | .expression _ value => do return .normal (some (← evaluate call value))
  | .block body => executeBlock body
  | .empty _ | .debugger _ | .function _ => return .normal none
  | .declaration d => do
    runDeclaration call d
    return .normal none
  | .returns _ none => return .returns .undefined
  | .returns _ (some value) => do return .returns (← evaluate call value)
  | .breaks _ label => return .breaks (label.map Identifier.name) none
  | .continues _ label => return .continues (label.map Identifier.name) none
  | .throws _ value => do raise (.thrown (← evaluate call value))
  | .labelled _ label body => do
    return (← execute (label.name :: labels) body).endLabelledBreak label.name
  | .branch _ test consequent none =>
    branch (evaluate call test) (execute [] consequent) (return .normal none)
  | .branch _ test consequent (some alternate) =>
    branch (evaluate call test) (execute [] consequent) (execute [] alternate)
  | .select _ discriminant cases scope => do
    let value ← evaluate call discriminant
    let ending ← inBlock scope do
      match ← selectCase call value 0 none cases with
      | some entry => executeCases entry .undefined cases
      | none => return .normal (some .undefined)
    return ending.endBreak .undefined
  | .attempt _ block handler finalizer =>
    tryStatement (executeBlock block) (executeHandler handler) (executeFinalizer finalizer)
  | .whileLoop _ test body => do
    return (← whileLoop bound labels (evaluate call test) (execute [] body)).endBreak .undefined
  | .doLoop _ body test => do
    return (← doLoop bound labels (execute [] body) (evaluate call test)).endBreak .undefined
  | .forLoop _ init test update body scope => do
    let ending ← forLoop call init scope fun names =>
      forRounds bound labels names (test.map (evaluate call)) (update.map (evaluate call))
        (execute [] body)
    return ending.endBreak .undefined
  -- The name of the loop is known from its head, and nothing else of its scope is needed.
  | .forInLoop _ left right body _ => do
    let body := execute [] body
    let visit := match left with
      | .expression target => visitPlace call (reference call target) body
      | .declaration .var id => visitPlace call (resolveHere id.name) body
      | .declaration kind id => visitScope id.name (kind = .const) body
    let ending ← forInLoop labels (forInObject left (evaluate call right)) visit
    return ending.endBreak .undefined

/-- The statements of a list, given the value of what came before. -/
def executeList (last : Option Value) : List Statement → Evaluation Ending
  | [] => return .normal last
  | statement :: rest =>
    thenNext last (execute [] statement) fun last => executeList last rest

def executeBlock : Block → Evaluation Ending
  | ⟨_, body, scope⟩ => inBlock scope (executeList none body)

/-- The clauses of a switch from one on. -/
def executeCases (skipped : Nat) (last : Value) : List Case → Evaluation Ending
  | [] => return .normal (some last)
  | ⟨_, _, consequent⟩ :: rest =>
    if skipped = 0 then
      fallThrough last (executeList none consequent) fun last => executeCases 0 last rest
    else executeCases (skipped - 1) last rest

def executeHandler : Option Handler → Option (Raised → Evaluation Ending)
  | none => none
  | some ⟨_, parameter, body⟩ => some (catchClause parameter.name (executeBlock body))

def executeFinalizer : Option Block → Option (Evaluation Ending)
  | none => none
  | some block => some (executeBlock block)

end

end ScriptEngine.Evaluate
