import ScriptEngine.Check.Rules

/-!
# Names of accepted scopes

When the static rules accept the names that a scope declares, and what they guarantee of them then:
its `let` and `const` names differ from each other, and from the names of its functions.
-/
namespace ScriptEngine.Check

/-- The names of those of some functions that have one. -/
def declaredNames (functions : List FunctionCode) : List String :=
  functions.filterMap fun code => code.id.map Identifier.name

/-- The names differ from each other and from all earlier ones. -/
def Apart (earlier names : List String) : Prop := names.Nodup ∧ ∀ name ∈ names, name ∉ earlier

theorem Apart.nil (earlier : List String) : Apart earlier [] := ⟨List.nodup_nil, nofun⟩

theorem apart_cons_iff {earlier rest : List String} {name : String} :
    Apart earlier (name :: rest) ↔ name ∉ earlier ∧ Apart (name :: earlier) rest := by
  rw [Apart, List.nodup_cons, List.forall_mem_cons]
  simp only [Apart, List.mem_cons, not_or]
  constructor
  · rintro ⟨⟨unrepeated, distinct⟩, free, later⟩
    exact ⟨free, distinct, fun n mem => ⟨fun same => unrepeated (same ▸ mem), later n mem⟩⟩
  · rintro ⟨free, distinct, later⟩
    exact ⟨⟨fun mem => (later name mem).1 rfl, distinct⟩, free, fun n mem => (later n mem).2⟩

theorem apart_nil_iff {names : List String} : Apart [] names ↔ names.Nodup :=
  and_iff_left fun _ _ => List.not_mem_nil

/-- What is reported where something is wrong is nothing where it is not. -/
theorem ite_report_eq_nil_iff {wrong : Prop} [Decidable wrong] {problem : Problem} {span : Span} :
    (if wrong then report problem span else []) = [] ↔ ¬ wrong := by
  by_cases wrong <;> simp [report, *]

/-- Lexical names are accepted if none repeats an earlier one or clashes with what else their scope
declares. -/
theorem lexicalNames_eq_nil_iff {isFunction : Bool} {scope : Scope} {earlier : List String}
    {names : List LexicalName} :
    lexicalNames isFunction scope earlier names = [] ↔
      Apart earlier (names.map LexicalName.name) ∧
        ∀ l ∈ names, lexicalClash isFunction scope l.name = false := by
  induction names generalizing earlier with
  | nil => simp [lexicalNames, Apart.nil]
  | cons l rest ih =>
    simp only [lexicalNames, List.append_eq_nil_iff, ite_report_eq_nil_iff, ih, List.map_cons,
      apart_cons_iff, List.forall_mem_cons, Bool.or_eq_true, List.contains_eq_mem,
      decide_eq_true_eq, not_or, Bool.not_eq_true]
    exact and_and_and_comm

/-- The functions of a block are accepted if none has the name of a `var` and, in strict code, none
repeats an earlier name. -/
theorem blockFunctions_eq_nil_iff {strict : Bool} {scope : Scope} {earlier : List String}
    {functions : List FunctionCode} :
    blockFunctions strict scope earlier functions = [] ↔
      (∀ name ∈ declaredNames functions, name ∉ scope.vars.map Identifier.name) ∧
        (strict = true → Apart earlier (declaredNames functions)) := by
  induction functions generalizing earlier with
  | nil => simp [blockFunctions, declaredNames, Apart.nil]
  | cons code rest ih =>
    unfold blockFunctions
    split
    next none => simp [ih, declaredNames, none]
    next id named =>
      have names : declaredNames (code :: rest) = id.name :: declaredNames rest := by
        simp [declaredNames, named]
      have clash : scope.vars.any (·.name == id.name) = true ↔
          id.name ∈ scope.vars.map Identifier.name := by
        simp [List.mem_map]
      simp only [List.append_eq_nil_iff, ite_report_eq_nil_iff, ih, names, List.forall_mem_cons,
        apart_cons_iff, Bool.or_eq_true, Bool.and_eq_true, List.contains_eq_mem,
        decide_eq_true_eq, clash]
      grind

/-- Parameters are accepted if each may be bound and, in strict code, none repeats an earlier
one. -/
theorem parameters_eq_nil_iff {context : Context} {earlier : List String}
    {names : List Identifier} :
    parameters context earlier names = [] ↔
      (∀ id ∈ names, bindingName context id = []) ∧
        (context.strict = true → Apart earlier (names.map Identifier.name)) := by
  induction names generalizing earlier with
  | nil => simp [parameters, Apart.nil]
  | cons id rest ih =>
    simp only [parameters, List.append_eq_nil_iff, ite_report_eq_nil_iff, ih, List.map_cons,
      apart_cons_iff, List.forall_mem_cons, Bool.and_eq_true, List.contains_eq_mem,
      decide_eq_true_eq]
    grind

/-- The `let` and `const` names of an accepted scope differ. -/
theorem nodup_lexical {context : Context} {isFunction : Bool} {scope : Scope}
    (accepted : declarations context isFunction scope = []) :
    (scope.lexical.map LexicalName.name).Nodup := by
  simp only [declarations, List.append_eq_nil_iff] at accepted
  exact (lexicalNames_eq_nil_iff.1 accepted.1).1.1

/-- No function of an accepted scope has one of its `let` and `const` names. -/
theorem name_ne_of_mem_lexical {context : Context} {isFunction : Bool} {scope : Scope}
    (accepted : declarations context isFunction scope = []) {l : LexicalName}
    (mem : l ∈ scope.lexical) {code : FunctionCode} (declared : code ∈ scope.functions) :
    code.name ≠ l.name := by
  simp only [declarations, List.append_eq_nil_iff] at accepted
  have free := (lexicalNames_eq_nil_iff.1 accepted.1).2 l mem
  simp only [lexicalClash, Bool.or_eq_false_iff, List.any_eq_false, beq_iff_eq] at free
  exact free.1.2 code declared

end ScriptEngine.Check
