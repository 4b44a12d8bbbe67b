import ScriptEngine.Source.Diagnostic
import ScriptEngine.Tree.Basic

/-!
# Static rules

What a tree must satisfy before it may run, beyond what the grammar says: labels and jumps that
find their target, names that do not clash, targets that can be assigned to, and the restrictions
of strict code. Every violation is reported, each at the offset of the offending part, in the
order in which a reader meets them.
-/
namespace ScriptEngine.Check

/-- A label around a place, and whether it labels a loop. -/
structure Label where
  name : String
  isLoop : Bool

/-- What surrounds a place inside the same function, the innermost label first. -/
structure Context where
  strict : Bool
  inFunction : Bool
  labels : List Label
  inBreakable : Bool
  inLoop : Bool

/-- The context of the statements of a script. -/
def Context.ofScript (strict : Bool) : Context := ⟨strict, false, [], false, false⟩

/-- The context inside a function: no label or loop outside of it can be reached. -/
def Context.ofFunction (strict : Bool) : Context := ⟨strict, true, [], false, false⟩

/-- The context of the body of a loop. -/
def Context.loopBody (context : Context) : Context :=
  { context with inBreakable := true, inLoop := true }

abbrev Violations := List LocatedProblem

def report (problem : Problem) (span : Span) : Violations := [⟨problem, span.start⟩]

/-- Names that strict code may neither bind nor assign. -/
def restrictedNames : List String := ["eval", "arguments"]

/-- Words that strict code reserves. -/
def strictWords : List String :=
  ["implements", "interface", "let", "package", "private", "protected", "public", "static",
    "yield"]

/-- A name that is being bound. -/
def bindingName (context : Context) (id : Identifier) : Violations :=
  if !context.strict then []
  else if restrictedNames.contains id.name then report .restrictedName id.span
  else if strictWords.contains id.name then report .reservedName id.span
  else []

/-- Whether a lexical name clashes with what else its scope declares. -/
def lexicalClash (isFunction : Bool) (scope : Scope) (name : String) : Bool :=
  scope.vars.any (·.name == name) || scope.functions.any (·.name == name) ||
    (isFunction && scope.parameters.any (·.name == name))

/-- The lexical names of a scope: none may repeat an earlier one or clash with the rest. -/
def lexicalNames (isFunction : Bool) (scope : Scope) (earlier : List String) :
    List LexicalName → Violations
  | [] => []
  | l :: rest =>
    (if earlier.contains l.name || lexicalClash isFunction scope l.name then
      report (.alreadyDeclared l.name) l.identifier.span else []) ++
      lexicalNames isFunction scope (l.name :: earlier) rest

/-- The functions of a block: none may clash with a `var`, nor in strict code repeat a name. -/
def blockFunctions (strict : Bool) (scope : Scope) (earlier : List String) :
    List FunctionCode → Violations
  | [] => []
  | code :: rest =>
    match code.id with
    | none => blockFunctions strict scope earlier rest
    | some id =>
      (if scope.vars.any (·.name == id.name) || (strict && earlier.contains id.name) then
        report (.alreadyDeclared id.name) id.span else []) ++
        blockFunctions strict scope (id.name :: earlier) rest

/-- The declarations of a scope. -/
def declarations (context : Context) (isFunction : Bool) (scope : Scope) : Violations :=
  lexicalNames isFunction scope [] scope.lexical ++
    (if isFunction then [] else blockFunctions context.strict scope [] scope.functions)

/-- The parameters of a function, which strict code may not repeat. -/
def parameters (context : Context) (earlier : List String) : List Identifier → Violations
  | [] => []
  | id :: rest =>
    bindingName context id ++
      (if context.strict && earlier.contains id.name then report .repeatedParameter id.span
        else []) ++
      parameters context (id.name :: earlier) rest

/-- A `break`, with or without a label. -/
def breakTarget (context : Context) (span : Span) : Option Identifier → Violations
  | some label =>
    if context.labels.any (·.name == label.name) then []
    else report (.undefinedLabel label.name) label.span
  | none => if context.inBreakable then [] else report .illegalBreak span

/-- A `continue`, with or without a label. -/
def continueTarget (context : Context) (span : Span) : Option Identifier → Violations
  | some label =>
    match context.labels.find? (·.name == label.name) with
    | none => report (.undefinedLabel label.name) label.span
    | some found => if found.isLoop then [] else report (.continueToNonLoop label.name) label.span
  | none => if context.inLoop then [] else report .continueOutsideLoop span

/-- What is assigned to, given the violations inside it. -/
def target (context : Context) (problem : Problem) (place : Expression) (inside : Violations) :
    Violations :=
  match place with
  | .identifier id =>
    if context.strict && restrictedNames.contains id.name then report .restrictedName id.span
    else []
  -- An access may always be assigned to; what is wrong inside of it stays wrong.
  | .member .. | .index .. => inside
  | place => report problem place.span ++ inside

/-- In strict code an identifier may not be deleted. -/
def deletion (context : Context) (operator : UnaryOperator) : Expression → Violations
  | .identifier id =>
    if operator = .delete ∧ context.strict then report .deleteOfIdentifier id.span else []
  | _ => []

/-- The parameter of a catch clause may not be declared again in its body. -/
def catchParameter (context : Context) (parameter : Identifier) (body : Block) : Violations :=
  bindingName context parameter ++
    (if body.scope.declaresLexically parameter.name then
      report (.alreadyDeclared parameter.name) body.span else [])

/-- A label may not be repeated inside its own statement. -/
def label (context : Context) (label : Identifier) : Violations :=
  if context.labels.any (·.name == label.name) then
    report (.repeatedLabel label.name) label.span
  else []

/-- The context behind a label. -/
def Context.labelled (context : Context) (label : Identifier) (body : Statement) : Context :=
  { context with labels := ⟨label.name, body.unlabelled.isLoop⟩ :: context.labels }

mutual

def expression (context : Context) : Expression → Violations
  | .literal .. | .identifier _ | .this _ => []
  | .array _ elements => slots context elements
  | .object _ nodes => properties context nodes
  | .function code => function code
  | .unary _ operator argument => deletion context operator argument ++ expression context argument
  | .update _ _ isPrefix argument =>
    target context (.invalidUpdateTarget isPrefix) argument (expression context argument)
  | .binary _ _ left right | .logical _ _ left right =>
    expression context left ++ expression context right
  | .assign _ _ place value =>
    target context .invalidAssignmentTarget place (expression context place) ++
      expression context value
  | .conditional _ test consequent alternate =>
    expression context test ++ expression context consequent ++ expression context alternate
  | .member _ object _ => expression context object
  | .index _ object property => expression context object ++ expression context property
  | .call _ callee arguments | .new _ callee arguments =>
    expression context callee ++ expressions context arguments
  | .sequence _ parts => expressions context parts

def expressions (context : Context) : List Expression → Violations
  | [] => []
  | e :: rest => expression context e ++ expressions context rest

def slots (context : Context) : List (Option Expression) → Violations
  | [] => []
  | none :: rest => slots context rest
  | some e :: rest => expression context e ++ slots context rest

def properties (context : Context) : List PropertyNode → Violations
  | [] => []
  | .data _ _ value :: rest => expression context value ++ properties context rest
  | .getter _ _ code :: rest | .setter _ _ code :: rest =>
    function code ++ properties context rest

/-- A function, whose inside is judged on its own. -/
def function : FunctionCode → Violations
  | ⟨_, id, names, _, body, scope⟩ =>
    let inside := Context.ofFunction scope.strict
    (match id with
      | some id => bindingName inside id
      | none => []) ++
      parameters inside [] names ++ declarations inside true scope ++ statements inside body

def statement (context : Context) : Statement → Violations
  | .expression _ value => expression context value
  | .block body => block context body
  | .empty _ | .debugger _ => []
  | .returns span argument =>
    (if context.inFunction then [] else report .illegalReturn span) ++
      (match argument with
        | some value => expression context value
        | none => [])
  | .breaks span label => breakTarget context span label
  | .continues span label => continueTarget context span label
  | .throws _ argument => expression context argument
  | .labelled _ id body => label context id ++ statement (context.labelled id body) body
  | .branch _ test consequent alternate =>
    expression context test ++ statement context consequent ++
      (match alternate with
        | some alternate => statement context alternate
        | none => [])
  | .select _ discriminant clauses scope =>
    expression context discriminant ++ declarations context false scope ++
      cases { context with inBreakable := true } clauses
  | .attempt _ body handler finalizer =>
    block context body ++
      (match handler with
        | some ⟨_, parameter, body⟩ => catchParameter context parameter body ++ block context body
        | none => []) ++
      (match finalizer with
        | some body => block context body
        | none => [])
  -- The test is looked at first, wherever it stands.
  | .whileLoop _ test body | .doLoop _ body test =>
    expression context test ++ statement context.loopBody body
  | .forLoop _ init test update body scope =>
    declarations context false scope ++
      (match init with
        | some (.declaration ⟨_, kind, parts⟩) => declarators context kind parts
        | some (.expression value) => expression context value
        | none => []) ++
      (match test with
        | some test => expression context test
        | none => []) ++
      (match update with
        | some update => expression context update
        | none => []) ++
      statement context.loopBody body
  | .forInLoop _ left right body scope =>
    declarations context false scope ++
      (match left with
        | .declaration _ id => bindingName context id
        | .expression place =>
          target context .invalidForInTarget place (expression context place)) ++
      expression context right ++ statement context.loopBody body
  | .function code => function code
  | .declaration ⟨_, kind, parts⟩ => declarators context kind parts

def statements (context : Context) : List Statement → Violations
  | [] => []
  | s :: rest => statement context s ++ statements context rest

def block (context : Context) : Block → Violations
  | ⟨_, body, scope⟩ => declarations context false scope ++ statements context body

def cases (context : Context) : List Case → Violations
  | [] => []
  | ⟨_, some test, body⟩ :: rest =>
    expression context test ++ statements context body ++ cases context rest
  | ⟨_, none, body⟩ :: rest => statements context body ++ cases context rest

/-- The declarators of a declaration; a constant needs an initializer. -/
def declarators (context : Context) (kind : DeclarationKind) : List Declarator → Violations
  | [] => []
  | ⟨_, id, some init⟩ :: rest =>
    bindingName context id ++ expression context init ++ declarators context kind rest
  | ⟨span, id, none⟩ :: rest =>
    bindingName context id ++
      (if kind = .const then report .missingInitializer span else []) ++
      declarators context kind rest

end

/-- All violations of a script. -/
def script (tree : ScriptTree) : Violations :=
  let context := Context.ofScript tree.scope.strict
  declarations context true tree.scope ++ statements context tree.body

end ScriptEngine.Check
