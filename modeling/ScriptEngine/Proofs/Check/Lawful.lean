import ScriptEngine.Check.Rules
import ScriptEngine.Proofs.Check.Pieces
import ScriptEngine.Proofs.Tree.Names

/-!
# The rules of a script

The static rules as conditions on single pieces of a tree and what is around them, with nothing said
of how a tree is walked through. `Piece.Obeys` lists them: where a jump may stand and what it may
name, what may be assigned to, which names may be declared together, and what strict code asks for
on top.

The rules are checked in one walk through the tree, which carries along what surrounds a place in the
same function. `Describes` says that this is what really stands around it; then a check that looks at
what surrounds it reports nothing if and only if the rule is obeyed. The checks that look at nothing
else are compared with their rules first.
-/
namespace ScriptEngine

/-! ## The rules -/

/-- A name that may be bound: strict code keeps some for itself. -/
def MayBind (strict : Bool) (id : Identifier) : Prop :=
  strict = true → id.name ∉ Check.restrictedNames ∧ id.name ∉ Check.strictWords

/-- What may be assigned to: an identifier or a property access, but in strict code neither `eval`
nor `arguments`. -/
def MayAssign (strict : Bool) (place : Expression) : Prop :=
  place.isReference = true ∧
    ∀ id, place = .identifier id → strict = true → id.name ∉ Check.restrictedNames

/-- The names that a scope declares do not clash; in the scope of a function parameters take part,
in other scopes functions are told apart from `var` names and, in strict code, from each other. -/
structure Scope.Lawful (strict isFunction : Bool) (scope : Scope) : Prop where
  lexical : (scope.lexical.map (·.name)).Nodup
  vars : ∀ l ∈ scope.lexical, l.name ∉ scope.vars.map (·.name)
  functions : ∀ l ∈ scope.lexical, l.name ∉ scope.functions.map (·.name)
  parameters : isFunction = true → ∀ l ∈ scope.lexical, l.name ∉ scope.parameters.map (·.name)
  functionVars : isFunction = false → ∀ code ∈ scope.functions, ∀ id ∈ code.id,
    id.name ∉ scope.vars.map (·.name)
  functionNames : isFunction = false → strict = true →
    (scope.functions.filterMap fun code => code.id.map (·.name)).Nodup

/-- The parameters of a function may be bound, and in strict code they differ. -/
structure LawfulParameters (strict : Bool) (parameters : List Identifier) : Prop where
  bind : ∀ id ∈ parameters, MayBind strict id
  distinct : strict = true → (parameters.map (·.name)).Nodup

namespace Statement

/-- The rules that a statement obeys, by what is around it: jumps find their targets in the same
function, and labels are not repeated in it. -/
def Obeys (path : Path) : Statement → Prop
  | .returns .. => ∃ outer ∈ path, outer.IsFunction
  | .breaks _ (some label) => ∃ outer ∈ path.here, ∃ isLoop, outer.label? = some (label.name, isLoop)
  | .breaks _ none => ∃ outer ∈ path.here, outer.isLoop = true ∨ outer.isSwitch = true
  | .continues _ (some label) => ∃ outer ∈ path.here, outer.label? = some (label.name, true)
  | .continues _ none => ∃ outer ∈ path.here, outer.isLoop = true
  | .labelled _ id _ => ∀ outer ∈ path.here, ∀ isLoop, outer.label? ≠ some (id.name, isLoop)
  | .select _ _ _ scope | .forLoop _ _ _ _ _ scope => scope.Lawful path.isStrict false
  | .forInLoop _ (.declaration _ id) _ _ scope =>
    scope.Lawful path.isStrict false ∧ MayBind path.isStrict id
  | .forInLoop _ (.expression place) _ _ scope =>
    scope.Lawful path.isStrict false ∧ MayAssign path.isStrict place
  | .expression .. | .block _ | .empty _ | .debugger _ | .throws .. | .branch .. | .attempt ..
  | .whileLoop .. | .doLoop .. | .function _ | .declaration _ => True

end Statement

/-- The rules that an expression obeys. -/
def Expression.Obeys (path : Path) : Expression → Prop
  | .unary _ .delete (.identifier _) => path.isStrict = false
  | .update _ _ _ place | .assign _ _ place _ => MayAssign path.isStrict place
  | _ => True

/-- The rules that a piece of a tree obeys, by what is around it. -/
def Piece.Obeys (path : Path) : Piece → Prop
  | .script tree => tree.scope.Lawful tree.scope.strict true
  | .function code =>
    (∀ id ∈ code.id, MayBind code.strict id) ∧ LawfulParameters code.strict code.parameters ∧
      code.scope.Lawful code.strict true
  | .statement s => s.Obeys path
  | .expression e => e.Obeys path
  | .block body => body.scope.Lawful path.isStrict false
  | .clause _ => True
  | .handler part =>
    MayBind path.isStrict part.parameter ∧
      part.parameter.name ∉ part.body.scope.lexical.map (·.name)
  | .declarator kind part => MayBind path.isStrict part.id ∧ (kind = .const → part.init.isSome)

/-- All pieces of a script obey the rules. -/
def ScriptTree.Lawful (tree : ScriptTree) : Prop :=
  ∀ path piece, Occurs (.script tree) path piece → piece.Obeys path

/-! ## Single rules -/

namespace Check

variable {context : Context}

theorem bindingName_eq_nil_iff {id : Identifier} :
    bindingName context id = [] ↔ MayBind context.strict id := by
  unfold bindingName MayBind
  cases context.strict with
  | false => simp
  | true =>
    simp only [Bool.not_true, Bool.false_eq_true, if_false, List.contains_eq_mem, decide_eq_true_eq,
      forall_const]
    by_cases id.name ∈ restrictedNames <;> by_cases id.name ∈ strictWords <;> simp [report, *]

theorem lexicalClash_eq_false_iff {isFunction : Bool} {scope : Scope} {name : String} :
    lexicalClash isFunction scope name = false ↔
      name ∉ scope.vars.map (·.name) ∧ name ∉ scope.functions.map (·.name) ∧
        (isFunction = true → name ∉ scope.parameters.map (·.name)) := by
  simp only [lexicalClash, Bool.or_eq_false_iff, Bool.and_eq_false_imp, List.any_eq_false,
    beq_iff_eq, List.mem_map, not_exists, not_and, and_assoc]

theorem declarations_eq_nil_iff {isFunction : Bool} {scope : Scope} :
    declarations context isFunction scope = [] ↔ scope.Lawful context.strict isFunction := by
  have functions : (if isFunction then [] else
      blockFunctions context.strict scope [] scope.functions) = [] ↔ (isFunction = false →
        (∀ code ∈ scope.functions, ∀ id ∈ code.id, id.name ∉ scope.vars.map (·.name)) ∧
        (context.strict = true → (declaredNames scope.functions).Nodup)) := by
    cases isFunction with
    | true => simp
    | false =>
      simp only [Bool.false_eq_true, if_false, blockFunctions_eq_nil_iff, apart_nil_iff,
        forall_const, declaredNames, List.mem_filterMap, Option.map_eq_some_iff]
      refine and_congr_left fun _ => ?_
      constructor
      · exact fun free code mem id named => free _ ⟨code, mem, id, named, rfl⟩
      · rintro free _ ⟨code, mem, id, named, rfl⟩
        exact free code mem id named
  -- The walk looks at each `let` and `const` name once and asks for all clashes with it, where the
  -- rules ask for each kind of clash over all names.
  simp only [declarations, List.append_eq_nil_iff, lexicalNames_eq_nil_iff, apart_nil_iff,
    lexicalClash_eq_false_iff, functions]
  constructor
  · rintro ⟨⟨distinct, apart⟩, inBlock⟩
    exact {
      lexical := distinct
      vars := fun l mem => (apart l mem).1
      functions := fun l mem => (apart l mem).2.1
      parameters := fun isFunction l mem => (apart l mem).2.2 isFunction
      functionVars := fun isBlock => (inBlock isBlock).1
      functionNames := fun isBlock => (inBlock isBlock).2 }
  · intro lawful
    exact ⟨⟨lawful.lexical, fun l mem => ⟨lawful.vars l mem, lawful.functions l mem,
      fun isFunction => lawful.parameters isFunction l mem⟩⟩,
      fun isBlock => ⟨lawful.functionVars isBlock, lawful.functionNames isBlock⟩⟩

theorem parameters_lawful_iff {names : List Identifier} :
    parameters context [] names = [] ↔ LawfulParameters context.strict names := by
  simp only [parameters_eq_nil_iff, apart_nil_iff, bindingName_eq_nil_iff]
  exact ⟨fun ⟨bind, distinct⟩ => ⟨bind, distinct⟩, fun ⟨bind, distinct⟩ => ⟨bind, distinct⟩⟩

/-- An identifier has nothing inside that could be reported. -/
theorem target_eq_nil_iff {problem : Problem} {place : Expression} :
    target context problem place (expression context place) = [] ↔
      MayAssign context.strict place ∧ expression context place = [] := by
  cases place with
  | identifier id =>
    simp only [target, ite_report_eq_nil_iff, MayAssign, Expression.isReference, expression,
      Expression.identifier.injEq, forall_eq', Bool.and_eq_true, List.contains_eq_mem,
      decide_eq_true_eq, not_and, true_and, and_true]
  -- A property access may always be assigned to; what is inside of it is checked as it is.
  | member | index => simp [target, MayAssign, Expression.isReference]
  | _ => simp [target, MayAssign, Expression.isReference, report]

theorem catchParameter_eq_nil_iff {parameter : Identifier} {body : Block} :
    catchParameter context parameter body = [] ↔
      MayBind context.strict parameter ∧
        parameter.name ∉ body.scope.lexical.map (·.name) := by
  simp only [catchParameter, List.append_eq_nil_iff, bindingName_eq_nil_iff, ite_report_eq_nil_iff,
    Scope.declaresLexically, List.any_eq_true, beq_iff_eq, List.mem_map]

end Check

/-! ## What surrounds a place -/

namespace Path

theorem here_cons {piece : Piece} {path : Path} (apart : piece.codeScope? = none) :
    here (piece :: path) = piece :: here path := by
  rw [here, List.takeWhile_cons_of_pos (by rw [apart]; rfl)]
  rfl

theorem isStrict_cons {piece : Piece} {path : Path} (apart : piece.codeScope? = none) :
    isStrict (piece :: path) = isStrict path := by
  rw [isStrict, List.findSome?_cons, apart]
  rfl

end Path

/-- The context is what surrounds a place behind the pieces of the path. -/
structure Describes (path : Path) (context : Check.Context) : Prop where
  strict : context.strict = path.isStrict
  inFunction : context.inFunction = true ↔ ∃ outer ∈ path, outer.IsFunction
  labels : context.labels.map (fun l => (l.name, l.isLoop)) = path.here.filterMap Piece.label?
  distinct : (context.labels.map (·.name)).Nodup
  breakable : context.inBreakable = true ↔
    ∃ outer ∈ path.here, outer.isLoop = true ∨ outer.isSwitch = true
  loop : context.inLoop = true ↔ ∃ outer ∈ path.here, outer.isLoop = true

namespace Describes

variable {path : Path} {context : Check.Context}

/-- No label or loop outside of a function can be reached from its inside. -/
theorem ofFunction (code : FunctionCode) (path : Path) :
    Describes (.function code :: path) (.ofFunction code.strict) where
  strict := rfl
  inFunction := ⟨fun _ => ⟨_, List.mem_cons_self, code, rfl⟩, fun _ => rfl⟩
  labels := rfl
  distinct := List.nodup_nil
  breakable := ⟨nofun, nofun⟩
  loop := ⟨nofun, nofun⟩

theorem ofScript (tree : ScriptTree) : Describes [.script tree] (.ofScript tree.scope.strict) where
  strict := rfl
  inFunction := by
    constructor
    · exact nofun
    · rintro ⟨_, mem, code, rfl⟩
      cases List.mem_singleton.1 mem
  labels := rfl
  distinct := List.nodup_nil
  breakable := ⟨nofun, nofun⟩
  loop := ⟨nofun, nofun⟩

/-- A label in the context is one of a statement around. -/
theorem exists_label_iff (described : Describes path context) {name : String} {isLoop : Bool} :
    (∃ l ∈ context.labels, l.name = name ∧ l.isLoop = isLoop) ↔
      ∃ outer ∈ path.here, outer.label? = some (name, isLoop) := by
  rw [← List.mem_filterMap, ← described.labels, List.mem_map]
  simp only [Prod.mk.injEq]

theorem any_label_iff (described : Describes path context) {name : String} :
    context.labels.any (·.name == name) = true ↔
      ∃ outer ∈ path.here, ∃ isLoop, outer.label? = some (name, isLoop) := by
  simp only [List.any_eq_true, beq_iff_eq]
  constructor
  · rintro ⟨l, mem, named⟩
    obtain ⟨outer, around, label⟩ := described.exists_label_iff.1 ⟨l, mem, named, rfl⟩
    exact ⟨outer, around, _, label⟩
  · rintro ⟨outer, around, isLoop, label⟩
    obtain ⟨l, mem, named, -⟩ := described.exists_label_iff.2 ⟨outer, around, label⟩
    exact ⟨l, mem, named⟩

theorem inside {piece : Piece} {inner : Check.Context} (described : Describes path context)
    (apart : piece.codeScope? = none) (strict : inner.strict = context.strict)
    (inFunction : inner.inFunction = context.inFunction)
    (labels : inner.labels.map (fun l => (l.name, l.isLoop)) =
      piece.label?.toList ++ context.labels.map fun l => (l.name, l.isLoop))
    (distinct : (inner.labels.map (·.name)).Nodup)
    (breakable : inner.inBreakable = (piece.isLoop || piece.isSwitch || context.inBreakable))
    (loop : inner.inLoop = (piece.isLoop || context.inLoop)) :
    Describes (piece :: path) inner where
  strict := by rw [strict, described.strict, Path.isStrict_cons apart]
  inFunction := by
    have other : ¬ piece.IsFunction := by
      rintro ⟨code, rfl⟩
      cases apart
    simp [inFunction, described.inFunction, other]
  labels := by
    rw [labels, described.labels, Path.here_cons apart, List.filterMap_cons]
    cases piece.label? <;> rfl
  distinct := distinct
  breakable := by
    simp [breakable, described.breakable, Path.here_cons apart]
  loop := by
    simp [loop, described.loop, Path.here_cons apart]

/-- Most pieces leave the context as it is. -/
theorem same (described : Describes path context) (piece : Piece)
    (apart : piece.codeScope? = none) (noLabel : piece.label? = none)
    (noTarget : (piece.isLoop || piece.isSwitch) = false) : Describes (piece :: path) context := by
  obtain ⟨noLoop, noSwitch⟩ := Bool.or_eq_false_iff.1 noTarget
  refine described.inside apart rfl rfl ?_ described.distinct ?_ ?_
  · rw [noLabel]
    rfl
  · rw [noLoop, noSwitch]
    rfl
  · rw [noLoop]
    rfl

theorem loopBody (described : Describes path context) {s : Statement} (loop : s.isLoop = true)
    (noLabel : Piece.label? (.statement s) = none) :
    Describes (.statement s :: path) context.loopBody := by
  have isLoop : Piece.isLoop (.statement s) = true := loop
  refine described.inside rfl rfl rfl ?_ described.distinct ?_ ?_
  · rw [noLabel]
    rfl
  · rw [isLoop]
    rfl
  · rw [isLoop]
    rfl

/-- A label that is not repeated is added to those around. -/
theorem labelled (described : Describes path context) {span : Span} {id : Identifier}
    {body : Statement} (free : context.labels.any (·.name == id.name) = false) :
    Describes (.statement (.labelled span id body) :: path) (context.labelled id body) := by
  refine described.inside rfl rfl rfl rfl ?_ rfl rfl
  refine List.nodup_cons.2 ⟨fun repeated => ?_, described.distinct⟩
  obtain ⟨l, mem, named⟩ := List.mem_map.1 repeated
  have met := List.any_eq_false.1 free l mem
  exact met (beq_iff_eq.2 named)

/-! ### Jumps and labels -/

theorem breakTarget_eq_nil_iff (described : Describes path context) {span : Span}
    {label : Option Identifier} :
    Check.breakTarget context span label = [] ↔ (Statement.breaks span label).Obeys path := by
  cases label with
  | none =>
    rw [Statement.Obeys, ← described.breakable]
    cases eq : context.inBreakable <;> simp [Check.breakTarget, Check.report, eq]
  | some label =>
    rw [Statement.Obeys, ← described.any_label_iff]
    cases eq : context.labels.any (·.name == label.name) <;>
      simp [Check.breakTarget, Check.report, eq]

/-- The innermost label of a name is the only one. -/
theorem find?_eq_some_iff (described : Describes path context) {name : String} {l : Check.Label} :
    context.labels.find? (·.name == name) = some l ↔ l ∈ context.labels ∧ l.name = name := by
  have distinct := described.distinct
  generalize context.labels = labels at distinct
  induction labels with
  | nil => simp
  | cons first rest ih =>
    rw [List.map_cons, List.nodup_cons] at distinct
    rw [List.find?_cons]
    cases named : first.name == name with
    -- No label behind the first one has its name.
    | true =>
      have same := beq_iff_eq.1 named
      simp only [Option.some.injEq, List.mem_cons]
      constructor
      · rintro rfl
        exact ⟨.inl rfl, same⟩
      · rintro ⟨rfl | mem, other⟩
        · rfl
        · exact absurd (List.mem_map.2 ⟨l, mem, other.trans same.symm⟩) distinct.1
    | false =>
      have other := beq_eq_false_iff_ne.1 named
      simp only [ih distinct.2, List.mem_cons]
      constructor
      · exact fun ⟨mem, named⟩ => ⟨.inr mem, named⟩
      · rintro ⟨rfl | mem, same⟩
        · exact absurd same other
        · exact ⟨mem, same⟩

theorem continueTarget_eq_nil_iff (described : Describes path context) {span : Span}
    {label : Option Identifier} :
    Check.continueTarget context span label = [] ↔
      (Statement.continues span label).Obeys path := by
  cases label with
  | none =>
    rw [Statement.Obeys, ← described.loop]
    cases eq : context.inLoop <;> simp [Check.continueTarget, Check.report, eq]
  | some label =>
    rw [Statement.Obeys, ← described.exists_label_iff, Check.continueTarget]
    split
    -- Without a label of that name there is none of a loop either.
    next none =>
      have free : ¬ ∃ l ∈ context.labels, l.name = label.name ∧ l.isLoop = true := by
        rintro ⟨l, mem, named, -⟩
        rw [(described.find?_eq_some_iff).2 ⟨mem, named⟩] at none
        cases none
      simp [Check.report, free]
    -- The label that was found is the only one of its name, so it has to be that of a loop.
    next found some =>
      obtain ⟨mem, named⟩ := described.find?_eq_some_iff.1 some
      have only : (∃ l ∈ context.labels, l.name = label.name ∧ l.isLoop = true) ↔
          found.isLoop = true := by
        constructor
        · rintro ⟨l, mem, named, isLoop⟩
          rw [(described.find?_eq_some_iff).2 ⟨mem, named⟩] at some
          cases some
          exact isLoop
        · exact fun isLoop => ⟨found, mem, named, isLoop⟩
      rw [only]
      cases found.isLoop <;> simp [Check.report]

theorem label_eq_nil_iff (described : Describes path context) (span : Span) (id : Identifier)
    (body : Statement) :
    Check.label context id = [] ↔ (Statement.labelled span id body).Obeys path := by
  simp only [Check.label, Check.ite_report_eq_nil_iff, described.any_label_iff, Statement.Obeys,
    not_exists, not_and, ne_eq]

end Describes

end ScriptEngine
