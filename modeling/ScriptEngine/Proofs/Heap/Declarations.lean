import ScriptEngine.Proofs.Evaluation.Declarations
import ScriptEngine.Proofs.Heap.Operations

/-!
# Declarations on a heap

Making functions, and the names that come into being on entering a script, a function or a block.
Only the names of a script that runs in some other environment than the global one get bindings that
can be removed.
-/
namespace ScriptEngine.Regime

open Evaluation Operation Evaluate

variable {R : Regime} {s : Store}

/-! ### Functions -/

theorem openScope_keeps {outer : EnvironmentId} (has : s.HasEnvironment outer) :
    R.Keeps s (openScope outer) Store.HasEnvironment := by
  refine .openEnvironment ?_
  rintro _ ⟨⟩
  exact has

theorem openScopeHere_keeps : R.Keeps s openScopeHere Store.HasEnvironment :=
  .askingControl fun _ allows has => openScope_keeps (allows.lexical has)

theorem functionProperties_there (name : String) (parameters : Nat) :
    R.HasSlots s (functionProperties name parameters) :=
  (Dictionary.Each.singleton "length" (by trivial)).insert "name" (by trivial)

/-- A function and the object that its `new` objects inherit from refer to each other. -/
theorem newFunction_keeps {code : FunctionCode} {env : EnvironmentId} {name : String}
    (allowed : R.code code) (has : s.HasEnvironment env) :
    R.Keeps s (newFunction code env name) R.HasObject := by
  refine Keeps.bind (.allocate allowed fun allows => ⟨?_, ?_, ?_⟩) fun f reached made => ?_
  · exact allows.refers.inherits_wellKnown (by decide)
  · rintro _ _ ⟨⟩
    exact has
  · exact functionProperties_there name code.parameters.length
  refine Keeps.bind (.allocate trivial fun allows =>
      ⟨allows.refers.inherits_wellKnown (by decide), nofun, .singleton "constructor" made⟩)
    fun prototype reached' made' => ?_
  -- The function refers back by a property, not by a link, so that links still go down.
  exact (Keeps.define made.2 (.ofProperty (.data made'.value ..))).bind
    fun _ reached'' _ => .pure (made.mono (reached'.trans reached''))

theorem newDeclared_keeps {code : FunctionCode} {env : EnvironmentId} (allowed : R.code code)
    (has : s.HasEnvironment env) : R.Keeps s (newDeclared code env) R.HasObject :=
  newFunction_keeps allowed has

theorem functionExpression_keeps {code : FunctionCode} {place : String} (allowed : R.code code) :
    R.Keeps s (functionExpression code place) R.HasObject := by
  unfold functionExpression
  split
  · exact .askingControl fun _ allows has => newFunction_keeps allowed (allows.lexical has)
  · refine openScopeHere_keeps.bind fun env _ opened => ?_
    refine (newFunction_keeps allowed opened).bind fun f reached made => ?_
    refine (Keeps.create (opened.mono reached) fun _ => rfl).bind fun _ reached' _ => ?_
    have made := made.mono reached'
    exact (Keeps.setInitial made.value).bind fun _ reached'' _ => .pure (made.mono reached'')

theorem newArguments_keeps {f : ObjectId} {arguments : List Value} {strict : Bool}
    (has : R.HasObject s f) (all : R.HasAll s arguments) :
    R.Keeps s (newArguments f arguments strict) R.HasObject := by
  unfold newArguments
  refine .allocate trivial fun allows =>
    ⟨allows.refers.inherits_wellKnown (by decide), nofun, ?_⟩
  have counted : R.HasSlots s
      ((Dictionary.indexed (arguments.map fun value => some (Property.plain value))).insert
        "length" (.hidden (.ofNat arguments.length))) := by
    refine Dictionary.Each.insert (.indexed fun p mem => ?_) "length" (by trivial)
    obtain ⟨value, there, eq⟩ := List.mem_map.1 mem
    cases eq
    exact all value there
  change R.HasSlots s (if strict then _ else _)
  split
  · exact counted
  · exact counted.insert "callee" has

theorem newError_keeps {cause : Cause} : R.Keeps s (newError cause) R.HasObject := by
  refine .allocate trivial fun allows =>
    ⟨allows.refers.inherits_wellKnown ?_, nofun, .singleton "message" (by trivial)⟩
  cases cause.kind <;> decide

/-- What a script gets to see of something raised is there. -/
theorem caught_keeps {raised : Raised} (has : R.HasRaised s raised) :
    R.Keeps s (caught raised) R.HasValue := by
  cases raised with
  | thrown value => exact .pure has
  | error cause => exact newError_keeps.bind fun _ _ made => .pure made
  | fault fault => exact .raise trivial

/-! ### Names -/

section

variable {env : EnvironmentId} {deletable : Bool}

theorem declareLexical_keeps {scope : Scope} (has : s.HasEnvironment env) :
    R.Safe s (declareLexical env scope) :=
  .forM fun _ _ _ reached => createLexical_keeps (has.mono reached)

variable (permanent : R.confined → deletable = false)

include permanent

/-- Where no binding can be removed, the name is bound for good afterwards. -/
theorem declareOnce_keeps {name : String} (has : s.HasEnvironment env) :
    R.Keeps s (declareOnce env deletable name) fun t _ => R.confined → t.Fast env name := by
  refine .asking fun allows => ?_
  cases bound : s.hasBinding env name with
  | true => exact .pure fun confined => (allows.lasting confined).fast bound
  | false => exact declare_keeps has permanent trivial

theorem bindFunction_keeps {name : String} {f : ObjectId} (has : s.HasEnvironment env)
    (there : R.HasObject s f) : R.Safe s (bindFunction env deletable name f) := by
  refine .asking fun allows => ?_
  split
  next bound =>
    exact setBinding_keeps there.value fun confined => (allows.lasting confined).fast bound
  · exact (declare_keeps has permanent there.value).safe

omit permanent in
theorem lexicalScope_keeps {varScope : EnvironmentId} {scope : Scope}
    (has : s.HasEnvironment varScope) :
    R.Keeps s (lexicalScope varScope scope) Store.HasEnvironment := by
  unfold lexicalScope
  split
  · exact .pure has
  · refine (openScope_keeps has).bind fun env _ opened => ?_
    exact (declareLexical_keeps opened).bind fun _ reached _ => .pure (opened.mono reached)

theorem declareFunctions_keeps {varScope : EnvironmentId} {scope : Scope}
    (allowed : ∀ code ∈ scope.functions, R.code code) (has : s.HasEnvironment varScope)
    (inner : s.HasEnvironment env) : R.Safe s (declareFunctions varScope env deletable scope) := by
  refine .forM fun code mem _ reached => ?_
  refine (newDeclared_keeps (allowed code mem) (inner.mono reached)).bind fun f reached' made => ?_
  exact bindFunction_keeps permanent (has.mono (reached.trans reached')) made

theorem declareInside_keeps {varScope : EnvironmentId} {scope : Scope}
    (allowed : ∀ code ∈ scope.functions, R.code code) (has : s.HasEnvironment varScope) :
    R.Keeps s (declareInside varScope deletable scope) Store.HasEnvironment := by
  refine (lexicalScope_keeps has).bind fun lexical reached opened => ?_
  exact (declareFunctions_keeps permanent allowed (has.mono reached) opened).bind
    fun _ reached' _ => .pure (opened.mono reached')

end

theorem declareBlock_keeps {env : EnvironmentId} {scope : Scope}
    (allowed : ∀ code ∈ scope.functions, R.code code) (has : s.HasEnvironment env) :
    R.Safe s (declareBlock env scope) := by
  refine (declareLexical_keeps has).bind fun _ reached _ => .forM fun code mem _ reached' => ?_
  have has := has.mono (reached.trans reached')
  refine (newDeclared_keeps (allowed code mem) has).bind fun f reached'' made => .asking fun _ => ?_
  split
  · exact (createMutable_keeps (has.mono reached'') fun _ => rfl).bind
      fun _ further _ => setInitialBinding_keeps (made.mono further).value
  · exact setInitialBinding_keeps made.value

theorem inBlock_keeps {α : Type} {x : Evaluation α} {Q : Store → α → Prop} {scope : Scope}
    (allowed : ∀ code ∈ scope.functions, R.code code) (inside : R.Always x Q) :
    R.Keeps s (inBlock scope x) Q := by
  unfold inBlock
  split
  · refine openScopeHere_keeps.bind fun env _ opened => ?_
    exact (declareBlock_keeps allowed opened).bind
      fun _ reached _ => .withScope (opened.mono reached) (inside _)
  · exact inside s

/-! ### Calls -/

/-- Parameters have been declared by the time they are assigned to. -/
theorem assignParameters_keeps {env : EnvironmentId} {parameters : List Identifier}
    {arguments : List Value} (all : R.HasAll s arguments)
    (fast : ∀ parameter ∈ parameters, R.confined → s.Fast env parameter.name) :
    R.Safe s (assignParameters env parameters arguments) := by
  induction parameters generalizing s arguments with
  | nil => exact .pure trivial
  | cons parameter rest ih =>
    obtain ⟨first, others⟩ := List.forall_mem_cons.1 fast
    have given : R.HasValue s (arguments.head?.getD .undefined) := by
      cases arguments with
      | nil => trivial
      | cons argument _ => exact all argument List.mem_cons_self
    refine (setBinding_keeps given first).bind fun _ reached _ => ih ?_ ?_
    · exact fun value mem => (all value (List.mem_of_mem_tail mem)).mono reached
    · exact fun parameter mem confined => (others parameter mem confined).mono reached

theorem declareVariables_keeps {f : ObjectId} {code : FunctionCode} {env : EnvironmentId}
    {arguments : List Value} (has : s.HasEnvironment env) (there : R.HasObject s f)
    (all : R.HasAll s arguments) : R.Safe s (declareVariables f code env arguments) := by
  unfold declareVariables
  extract_lets varNames fromParameters
  -- `varNames` and `fromParameters` are what follows the two points where branches meet again.
  have varNamesSafe : ∀ {t : Store}, s.Reaches t → ∀ done, R.Safe t (varNames done) :=
    fun reached _ => .forM fun _ _ _ reached' =>
      (declareOnce_keeps (fun _ => rfl) (has.mono (reached.trans reached'))).safe
  have fromParametersSafe : ∀ {t : Store}, s.Reaches t → ∀ object : Option ObjectId,
      (∀ o ∈ object, R.HasObject t o) → R.Safe t (fromParameters object) := by
    intro t reached object made
    have declared : R.Keeps t
        (code.parameters.forM fun parameter => declareOnce env false parameter.name)
        fun u _ => ∀ parameter ∈ code.parameters, R.confined → u.Fast env parameter.name :=
      .forM_each (I := fun u (parameter : Identifier) => R.confined → u.Fast env parameter.name)
        (fun _ _ _ reached' =>
          declareOnce_keeps (fun _ => rfl) (has.mono (reached.trans reached')))
        fun reached' fast confined => (fast confined).mono reached'
    refine declared.bind fun _ reached₁ fast => ?_
    refine (assignParameters_keeps (all.mono (reached.trans reached₁)) fast).bind
      fun _ reached₂ _ => ?_
    have further := reached₁.trans reached₂
    have has := has.mono (reached.trans further)
    split
    next object =>
      have made := (made object rfl).mono further
      have bound : ∀ {make : Evaluation Unit} {u : Store}, t.Reaches u → R.HasObject u object →
          R.Safe u make →
          R.Safe u (make >>= fun _ =>
            setInitialBinding env "arguments" (.object object) >>= varNames) := by
        intro make u reached₃ made safe
        refine safe.bind fun _ reached₄ _ => ?_
        exact (setInitialBinding_keeps (made.mono reached₄).value).bind fun done reached₅ _ =>
          varNamesSafe (reached.trans (reached₃.trans (reached₄.trans reached₅))) done
      split
      · exact bound further made (createImmutable_keeps has)
      · exact bound further made (createMutable_keeps has fun _ => rfl).safe
    · exact varNamesSafe (reached.trans further) ()
  split
  · refine Keeps.bind (P := fun t object => ∀ o ∈ object, R.HasObject t o) (.map ?_)
      fun object reached made => fromParametersSafe reached object made
    refine (newArguments_keeps there all).weaken fun object _ made => ?_
    rintro _ ⟨⟩
    exact made
  · exact fromParametersSafe (.refl s) none nofun

theorem declareCall_keeps {f : ObjectId} {code : FunctionCode} {env : EnvironmentId}
    {arguments : List Value} (allowed : ∀ inner ∈ code.scope.functions, R.code inner)
    (has : s.HasEnvironment env) (there : R.HasObject s f) (all : R.HasAll s arguments) :
    R.Keeps s (declareCall f code env arguments) Store.HasEnvironment :=
  (declareVariables_keeps has there all).bind
    fun _ reached _ => declareInside_keeps (fun _ => rfl) allowed (has.mono reached)

/-! ### Scripts -/

theorem failOnDeclared_keeps {env : EnvironmentId} {names : List String} :
    R.Safe s (failOnDeclared env names) := by
  refine .forM fun name _ _ _ => .asking fun _ => ?_
  split
  · exact .fail _
  · exact .pure trivial

theorem checkGlobalFunction_keeps {code : FunctionCode} :
    R.Safe s (checkGlobalFunction code) := by
  refine .asking fun _ => ?_
  split
  · exact .fail _
  · exact .pure trivial

theorem declareGlobalFunction_keeps {env : EnvironmentId} {code : FunctionCode}
    (allowed : R.code code) (has : s.HasEnvironment env) :
    R.Safe s (declareGlobalFunction env code) := by
  refine (newDeclared_keeps allowed has).bind fun f _ made => .asking fun allows => ?_
  refine defineOrFail_keeps allows.known.globalObject ?_
  split
  · exact .ofProperty (.data made.value ..)
  · exact .ofValue made.value

theorem declareGlobalVariable_keeps {name : String} : R.Safe s (declareGlobalVariable name) := by
  refine .asking fun allows => ?_
  have has : s.HasEnvironment WellKnown.globalObjectEnvironment :=
    Nat.lt_of_le_of_lt (Nat.zero_le _) allows.closed.globalEnvironment
  split
  · exact (createMutable_keeps has fun _ => rfl).safe
  · exact .pure trivial

theorem declareGlobal_keeps {env : EnvironmentId} {scope : Scope}
    (allowed : ∀ code ∈ scope.functions, R.code code) (has : s.HasEnvironment env) :
    R.Safe s (declareGlobal env scope) := by
  unfold declareGlobal
  refine Keeps.bind (P := fun _ _ => True) (.forM fun _ _ _ _ => ?_) fun _ reached₁ _ => ?_
  · refine .asking fun _ => .asking fun _ => ?_
    split
    · exact .fail _
    · exact .pure trivial
  refine failOnDeclared_keeps.bind fun _ reached₂ _ => ?_
  extract_lets functions
  refine Keeps.bind (P := fun _ _ => True) (.forM fun _ _ _ _ => checkGlobalFunction_keeps)
    fun _ reached₃ _ => ?_
  have has := has.mono (reached₁.trans (reached₂.trans reached₃))
  refine Keeps.bind (P := fun _ _ => True) (.forM fun code mem _ reached => ?_)
    fun _ reached₄ _ => ?_
  · exact declareGlobalFunction_keeps (allowed code (mem_lastOfEach_iff.1 mem).mem)
      (has.mono reached)
  refine Keeps.bind (P := fun _ _ => True) (.forM fun _ _ _ _ => declareGlobalVariable_keeps)
    fun _ reached₅ _ => ?_
  exact declareLexical_keeps (has.mono (reached₄.trans reached₅))

/-- Only where scripts run anywhere are there names that can be removed. -/
theorem declareScoped_keeps {env : EnvironmentId} {scope : Scope} (free : ¬ R.confined)
    (allowed : ∀ code ∈ scope.functions, R.code code) (has : s.HasEnvironment env) :
    R.Keeps s (declareScoped env scope) Store.HasEnvironment := by
  have permanent : R.confined → true = false := fun confined => absurd confined free
  refine Keeps.bind (P := fun _ _ => True) (.forM fun _ _ _ reached => ?_) fun _ reached _ => ?_
  · exact (declareOnce_keeps permanent (has.mono reached)).safe
  · exact declareInside_keeps permanent allowed (has.mono reached)

theorem declareScript_keeps {env : EnvironmentId} {scope : Scope}
    (place : R.confined → env = WellKnown.globalEnvironment)
    (allowed : ∀ code ∈ scope.functions, R.code code) (has : s.HasEnvironment env) :
    R.Keeps s (declareScript env scope) Store.HasEnvironment := by
  unfold declareScript
  split
  · exact (declareGlobal_keeps allowed has).bind fun _ reached _ => .pure (has.mono reached)
  next elsewhere =>
    exact declareScoped_keeps (fun confined => elsewhere (place confined)) allowed has

end ScriptEngine.Regime
