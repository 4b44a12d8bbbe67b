import ScriptEngine.Evaluate.Expression
import ScriptEngine.Proofs.Evaluation.Binding
import ScriptEngine.Proofs.Heap.Engines
import ScriptEngine.Proofs.Heap.Regime
import ScriptEngine.Proofs.Store.Entries

/-!
# What object literals make

Each node of an object literal is evaluated to what it adds (`entryOf`) before that is defined on
the new object. All nodes together either gather what they add (`Gathers`), or one of them
halts the literal (`Halts`), which only a value can do: a function can always be made
(`functionExpression_run`). While the object has just what has been added so far, one more node adds
what it is evaluated to (`addNode_run`).

The object of a literal has been made before the values in the literal are evaluated, but nothing
refers to it until the literal is done. An object that only the evaluation knows that made it may be
hidden (`Allows.hide_new`): scripts run as if it were not there, and it stays as it is. A property
may be defined on it, and then it is hidden as what it has become (`Holds.define_hidden`).

So whatever the values do, the object stays what the entries so far have made of it, and every entry
can be added. Main result: unless a value stops it, a literal has a new object that is what all its
entries make of it (`object_literal_gathers`).
-/
namespace ScriptEngine

/-! ## Entries -/

def PropertyNode.key : PropertyNode → String
  | .data _ key _ | .getter _ key _ | .setter _ key _ => key

namespace Evaluate

open Evaluation Operation

/-! ### Making functions -/

/-- A function can always be made, and no names come into being with it. -/
theorem newFunction_run (code : FunctionCode) (env : EnvironmentId) (name : String) (m : Machine) :
    ∃ f after, (newFunction code env name).run m = (.value f, after) ∧
      after.store.environments = m.store.environments :=
  ⟨_, _, rfl, rfl⟩

/-- The function of an expression can always be made. If it has a name of its own, the environment
for that is new, so that the name is free there. -/
theorem functionExpression_run (code : FunctionCode) (place : String) (m : Machine) :
    ∃ f after, (functionExpression code place).run m = (.value f, after) := by
  unfold functionExpression
  cases code.id with
  | none =>
    obtain ⟨f, after, run, -⟩ := newFunction_run code m.control.lexical place m
    exact ⟨f, after, run⟩
  | some id =>
    let opened : EnvironmentId × Store :=
      m.store.openEnvironment (.declarative .empty) (some m.control.lexical)
    have opens : openScopeHere.run m = (.value opened.1, { m with store := opened.2 }) := rfl
    have unbound : opened.2.Unbound opened.1 := m.store.unbound_openEnvironment _
    obtain ⟨f, made, run, same⟩ :=
      newFunction_run code opened.1 id.name { m with store := opened.2 }
    have unbound := unbound.of_environments same
    let bound : Machine :=
      { made with store := made.store.withBinding opened.1 id.name (.constant false) }
    have created : (create opened.1 id.name (.constant false)).run made = (.value (), bound) :=
      create_of_absent unbound.declarative (unbound.absent id.name) (.constant false) rfl
    have there : bound.store.binding? opened.1 id.name = some (.constant false) := by
      rw [unbound.declarative.binding?_withBinding, if_pos ⟨rfl, rfl⟩]
    let after : Machine := { bound with
      store := bound.store.withBinding opened.1 id.name
        { Binding.constant false with value := some (.object f) } }
    have set : (setInitial opened.1 id.name (.object f)).run bound = (.value (), after) :=
      setInitial_run there (.object f)
    refine ⟨f, after, ?_⟩
    rw [run_bind, opens, andThen_value, run_bind, run, andThen_value, run_bind, created,
      andThen_value, run_bind, set, andThen_value, run_pure]

/-! ### Nodes of a literal -/

section

variable (call : Caller) (object : ObjectId)

/-- What a node adds: a value, or a function that has been made for it. -/
def entryOf : PropertyNode → Evaluation Entry
  | .data _ key value => .data <$> named key value (evaluate call value)
  | .getter _ key code => .getter <$> functionExpression code key
  | .setter _ key code => .setter <$> functionExpression code key

/-- Adds one node to an object. -/
def addNode : PropertyNode → Evaluation Unit
  | .data _ key value => addData object key (named key value (evaluate call value))
  | .getter _ key code => addAccessor object key .getter code
  | .setter _ key code => addAccessor object key .setter code

theorem addProperties_cons (node : PropertyNode) (rest : List PropertyNode) :
    addProperties call object (node :: rest) =
      addNode call object node >>= fun _ => addProperties call object rest := by
  cases node <;> rw [addProperties] <;> rfl

/-- The nodes add these entries, each under its key, one after another. -/
inductive Gathers : Machine → List PropertyNode → List (String × Entry) → Machine → Prop where
  | nil (m : Machine) : Gathers m [] [] m
  | cons {m between after : Machine} {node : PropertyNode} {rest : List PropertyNode}
    {entry : Entry} {entries : List (String × Entry)}
    (first : (entryOf call node).run m = (.value entry, between))
    (others : Gathers
      { between with store := (between.store.define object node.key entry.descriptor).2 }
      rest entries after) :
    Gathers m (node :: rest) ((node.key, entry) :: entries) after

/-- One of the nodes has a value that evaluation does not get to. -/
inductive Halts : Machine → List PropertyNode → Outcome Value → Machine → Prop where
  | here {m after : Machine} {span : Span} {key : String} {value : Expression}
    {rest : List PropertyNode} {outcome : Outcome Value}
    (ended : (named key value (evaluate call value)).run m = (outcome, after))
    (abrupt : ∀ v, outcome ≠ .value v) : Halts m (.data span key value :: rest) outcome after
  | later {m between after : Machine} {node : PropertyNode} {rest : List PropertyNode}
    {entry : Entry} {outcome : Outcome Value}
    (first : (entryOf call node).run m = (.value entry, between))
    (halts : Halts
      { between with store := (between.store.define object node.key entry.descriptor).2 }
      rest outcome after) :
    Halts m (node :: rest) outcome after

end

variable {call : Caller} {object : ObjectId} {m between after : Machine} {node : PropertyNode}
  {nodes : List PropertyNode}

theorem Gathers.keys {entries : List (String × Entry)}
    (gathers : Gathers call object m nodes entries after) :
    entries.map Prod.fst = nodes.map PropertyNode.key := by
  induction gathers with
  | nil => rfl
  | cons _ _ ih => rw [List.map_cons, List.map_cons, ih]

/-- Only the value of a node can keep evaluation from going on. -/
theorem data_of_entryOf (node : PropertyNode) (m : Machine)
    (stuck : ∀ entry between, (entryOf call node).run m ≠ (.value entry, between)) :
    ∃ span key value, node = .data span key value ∧
      ∀ v after, (named key value (evaluate call value)).run m ≠ (.value v, after) := by
  cases node with
  | data span key value =>
    exact ⟨span, key, value, rfl, fun v after run =>
      stuck (.data v) after (run_map_of_value Entry.data run)⟩
  | getter _ key code =>
    obtain ⟨f, after, run⟩ := functionExpression_run code key m
    exact absurd (run_map_of_value Entry.getter run) (stuck (.getter f) after)
  | setter _ key code =>
    obtain ⟨f, after, run⟩ := functionExpression_run code key m
    exact absurd (run_map_of_value Entry.setter run) (stuck (.setter f) after)

theorem defineOrFail_run {id : ObjectId} {key : String} {d : Descriptor} {m : Machine}
    (allowed : (m.store.define id key d).1 = true) :
    (defineOrFail id key d).run m =
      (.value (), { m with store := (m.store.define id key d).2 }) := by
  rw [defineOrFail, run_bind, run_define, andThen_value, allowed]
  rfl

/-- What a node is evaluated to is added to an object that has just what was added before. -/
theorem addNode_run {past : List (String × Entry)} {entry : Entry}
    (first : (entryOf call node).run m = (.value entry, between))
    (gathered : (between.store.object object).Gathered past) :
    (addNode call object node).run m = (.value (),
      { between with store := (between.store.define object node.key entry.descriptor).2 }) := by
  have allowed : (between.store.define object node.key entry.descriptor).1 = true :=
    congrArg Prod.snd (gathered.define node.key entry)
  cases node with
  | data span key value =>
    obtain ⟨v, _, run, ended⟩ := bind_eq_value first
    cases ended
    rw [addNode, addData, run_bind, run]
    rfl
  | getter span key code | setter span key code =>
    obtain ⟨f, _, run, ended⟩ := bind_eq_value first
    cases ended
    rw [addNode, addAccessor, run_bind, run, andThen_value]
    exact defineOrFail_run allowed

end Evaluate

end ScriptEngine

namespace ScriptEngine.Regime

/-! ## An object that nothing refers to yet -/

variable {R : Regime} {s : Store} {m : Machine} {id other : ObjectId} {o o' : Object}

/-- One more object is hidden, which is this one. -/
def hide (R : Regime) (id : ObjectId) (o : Object) : Regime :=
  { R with hidden := fun other => if other = id then some o else R.hidden other }

theorem known_hide_iff : (R.hide id o).Known other ↔ other ≠ id ∧ R.Known other := by
  unfold Known hide
  by_cases same : other = id <;> simp [same]

/-- Which functions there may be does not depend on what is hidden. -/
theorem Sound.hide (sound : R.Sound) (id : ObjectId) (o : Object) : (R.hide id o).Sound where
  code := sound.code
  constructed := sound.constructed

theorem Fits.hide {whole : Piece} (fits : R.Fits whole) (id : ObjectId) (o : Object) :
    (R.hide id o).Fits whole := fits

theorem hidden_hide_iff {p : Object} :
    (R.hide id o).hidden other = some p ↔
      other = id ∧ o = p ∨ other ≠ id ∧ R.hidden other = some p := by
  unfold hide
  by_cases same : other = id <;> simp [same]

/-- In an allowed store there is the hidden object. -/
theorem Allows.kept_hide (allows : (R.hide id o).Allows s) :
    s.HasObject id ∧ s.object id = o :=
  allows.kept (hidden_hide_iff.2 (.inl ⟨rfl, rfl⟩))

/-! ### A new object -/

/-- What was there before is not the object that is new. -/
theorem HasObject.hide_new (has : R.HasObject s id) :
    (R.hide (s.allocate o).1 o).HasObject (s.allocate o).2 id := by
  refine ⟨has.1.of_size_le (Nat.le_of_lt (s.hasObject_allocate o)), known_hide_iff.2 ⟨?_, has.2⟩⟩
  rintro rfl
  exact Nat.lt_irrefl _ has.1

theorem HasControl.hide_new {c : Control} (has : R.HasControl s c) :
    (R.hide (s.allocate o).1 o).HasControl (s.allocate o).2 c := fun frame mem =>
  ⟨(has frame mem).lexical, Value.Refers.mono (has frame mem).receiver fun _ there =>
    there.hide_new⟩

theorem Allows.hide_new (allows : R.Allows s) (own : R.kind o.kind) (parts : R.HasParts s o) :
    (R.hide (s.allocate o).1 o).Allows (s.allocate o).2 := by
  have allowed := allows.allocate own parts
  have refers := (allows.refers.mono fun _ has => (has.hide_new (o := o)).2).allocate
    (fun p mem => ((parts.prototype p mem).hide_new (o := o)).2)
    (Object.Refers.mono parts.slots fun _ has => (has.hide_new (o := o)).2)
  refine ⟨allowed.closed, allowed.kinds, allowed.lasting, refers, fun {other p} apart => ?_⟩
  rcases hidden_hide_iff.1 apart with ⟨rfl, rfl⟩ | ⟨-, apart⟩
  · exact ⟨s.hasObject_allocate o, by rw [Store.object_allocate, if_pos (by rfl)]⟩
  · exact allowed.kept apart

/-! ### What a hidden object becomes -/

theorem HasObject.rehide (has : (R.hide id o).HasObject s other) :
    (R.hide id o').HasObject s other :=
  ⟨has.1, known_hide_iff.2 (known_hide_iff.1 has.2)⟩

/-- A hidden object may get a property that refers to what is known. Nothing refers to the object
even then. -/
theorem Holds.define_hidden {d : Descriptor} (holds : (R.hide id o).Holds m) (key : String)
    (given : (R.hide id o).HasDescriptor m.store d) :
    (R.hide id (o.define key d).1).Holds { m with store := (m.store.define id key d).2 } where
  store := by
    obtain ⟨there, same⟩ := holds.store.kept_hide
    have size := Nat.le_of_eq (m.store.size_setObject id ((m.store.object id).define key d).1).symm
    have refers := holds.store.known.define id key (given.mono fun _ has => has.2)
    refine ⟨holds.store.closed.define id key (given.mono fun _ has => has.1),
      holds.store.kinds_of_step (.define m.store id key d) (m.store.size_setObject id _),
      fun confined => (holds.store.lasting confined).of_environments rfl,
      refers.mono fun _ known => known_hide_iff.2 (known_hide_iff.1 known),
      fun {other p} apart => ?_⟩
    have object := m.store.object_setObject id ((m.store.object id).define key d).1 other
    rcases hidden_hide_iff.1 apart with ⟨rfl, rfl⟩ | ⟨ne, apart⟩
    · rw [if_pos ⟨rfl, there⟩] at object
      exact ⟨there.of_size_le size, object.trans (by rw [same])⟩
    · obtain ⟨there', same'⟩ := holds.store.kept (hidden_hide_iff.2 (.inr ⟨ne, apart⟩))
      rw [if_neg fun eq => ne eq.1] at object
      exact ⟨there'.of_size_le size, object.trans same'⟩
  control frame mem :=
    have size := Nat.le_of_eq (m.store.size_setObject id _).symm
    ⟨(holds.control frame mem).lexical, Value.Refers.mono (holds.control frame mem).receiver
      fun _ there => (there.of_size_le size).rehide⟩

end ScriptEngine.Regime

namespace ScriptEngine

/-! ## Whole literals -/

open Evaluation Operation Evaluate

namespace Regime

variable {R : Regime} {call : Caller} {id : ObjectId} {o : Object} {m between : Machine}
  {node : PropertyNode} {past : List (String × Entry)}

/-- What a node adds is there and known. -/
theorem entryOf_keeps {s : Store} (calls : R.Calls call) (fits : R.Fits node.piece) :
    R.Keeps s (entryOf call node) fun t entry => R.HasDescriptor t entry.descriptor := by
  have own : ∀ {t : Store} {f : ObjectId}, R.HasObject t f →
      ∀ place ∈ some (some f), ∀ g ∈ place, R.HasObject t g := by
    rintro t f made _ ⟨⟩ _ ⟨⟩
    exact made
  cases node with
  | data _ key value =>
    have inside := evaluate_keeps calls value fits
    exact .map ((named_keeps fits inside).weaken fun v _ has => .ofProperty (.data has ..))
  | getter _ key code =>
    exact .map ((functionExpression_keeps fits.admits.1).weaken
      fun f _ made => ⟨nofun, own made, nofun⟩)
  | setter _ key code =>
    exact .map ((functionExpression_keeps fits.admits.1).weaken
      fun f _ made => ⟨nofun, nofun, own made⟩)

/-- A node is evaluated to what it adds, while the object that is hidden stays as it is. -/
theorem Holds.after_entryOf {entry : Entry} (holds : R.Holds m) (calls : R.Calls call)
    (fits : R.Fits node.piece) (first : (entryOf call node).run m = (.value entry, between)) :
    R.Holds between ∧ R.HasDescriptor between.store entry.descriptor := by
  obtain ⟨-, stop, suits⟩ := entryOf_keeps calls fits m.control holds.store holds.control
  have reached := (entryOf call node).steps m
  have returns := (entryOf call node).returns m
  change R.Allows ((entryOf call node).run m).2.store at stop
  change R.Suits _ ((entryOf call node).run m) at suits
  rw [first] at stop suits reached returns
  exact ⟨⟨stop, returns ▸ holds.control.mono reached⟩, suits⟩

/-- The object after one more entry. -/
theorem Holds.gathered {entry : Entry} (holds : (R.hide id o).Holds between)
    (given : (R.hide id o).HasDescriptor between.store entry.descriptor)
    (gathered : o.Gathered past) (key : String) :
    ∃ o' : Object, o'.Gathered (past ++ [(key, entry)]) ∧ (R.hide id o').Holds
      { between with store := (between.store.define id key entry.descriptor).2 } := by
  have next := holds.define_hidden key given
  rw [gathered.define] at next
  exact ⟨_, gathered.add key entry, next⟩

/-- The nodes of a literal are added to an object that is hidden meanwhile, unless a value stops
this. -/
theorem addProperties_run (sound : R.Sound) (bound remaining : Nat)
    (nodes : List PropertyNode) (each : ∀ node ∈ nodes, R.Fits node.piece)
    (holds : (R.hide id o).Holds m) (gathered : o.Gathered past) (v : Value) :
    let call := invoke bound remaining
    (∃ entries after, Gathers call id m nodes entries after ∧
      (after.store.object id).Gathered (past ++ entries) ∧
      (addProperties call id nodes >>= fun _ => pure v).run m = (.value v, after)) ∨
    ∃ outcome after, Halts call id m nodes outcome after ∧
      (addProperties call id nodes >>= fun _ => pure v).run m = (outcome, after) := by
  intro call
  induction nodes generalizing m o past with
  | nil =>
    refine .inl ⟨[], m, .nil m, ?_, ?_⟩
    · rw [holds.store.kept_hide.2, List.append_nil]
      exact gathered
    · rw [addProperties]
      rfl
  -- The object after the first node is the one that the rest goes on with.
  | cons node rest ih =>
    obtain ⟨first, others⟩ := List.forall_mem_cons.1 each
    have split : (addProperties call id (node :: rest) >>= fun _ => pure v) =
        addNode call id node >>= fun _ => addProperties call id rest >>= fun _ => pure v := by
      rw [addProperties_cons, bind_assoc]
    rw [split]
    by_cases evaluated : ∃ entry between, (entryOf call node).run m = (.value entry, between)
    · obtain ⟨entry, between, run⟩ := evaluated
      have calls : (R.hide id o).Calls call := invoke_keeps (sound.hide id o) bound remaining
      obtain ⟨holds, given⟩ := holds.after_entryOf calls (first.hide id o) run
      have added := addNode_run run (holds.store.kept_hide.2.symm ▸ gathered)
      obtain ⟨o', gathered, holds⟩ := holds.gathered given gathered node.key
      rw [run_bind, added, andThen_value]
      rcases ih others holds gathered with
        ⟨entries, after, gathers, all, ended⟩ | ⟨outcome, after, halts, ended⟩
      · rw [List.append_assoc] at all
        exact .inl ⟨_, after, .cons run gathers, all, ended⟩
      · exact .inr ⟨outcome, after, .later run halts, ended⟩
    · obtain ⟨span, key, value, rfl, stuck⟩ := data_of_entryOf node m
        fun entry between run => evaluated ⟨entry, between, run⟩
      cases ended : (named key value (evaluate call value)).run m with
      | mk outcome after =>
        have abrupt : ∀ v, outcome ≠ .value v := fun v eq => stuck v after (eq ▸ ended)
        refine .inr ⟨outcome, after, .here ended abrupt, ?_⟩
        rw [addNode, addData, bind_assoc, run_bind, ended]
        cases outcome with
        | value v => exact absurd rfl (abrupt v)
        | raised | exhausted => rfl

end Regime

namespace Engine

variable {confined : Prop} {e : Engine}

/-- Whatever has happened on an engine, and wherever an object literal is evaluated: either all its
nodes gather what they add, in order, or one of the values in it stops the literal, which then ends
as that value does. In the first case the literal has a new object, which is what the entries make
of an extensible one that inherits from `Object.prototype`. Its keys are those of the nodes, each
where it comes first, and all its properties can be enumerated and reconfigured. -/
theorem object_literal_gathers {moments : List Moment}
    (history : GroundedHistory confined moments e) {now : Moment} (mem : now ∈ moments)
    (bound remaining : Nat) (span : Span) (nodes : List PropertyNode) :
    let call := invoke bound remaining
    let literal := evaluate call (.object span nodes)
    ∃ object start, (newObject WellKnown.objectPrototype).run now.machine = (.value object, start) ∧
      ¬ now.machine.store.HasObject object ∧
      ((∃ entries after, Gathers call object start nodes entries after ∧
          literal.run now.machine = (.value (.object object), after) ∧
          (after.store.object object).Gathered entries ∧
          (after.store.object object).keys = (nodes.map PropertyNode.key).eraseDups ∧
          ∀ key p, (after.store.object object).property? key = some p →
            p.enumerable = true ∧ p.configurable = true) ∨
        ∃ outcome after, Halts call object start nodes outcome after ∧
          literal.run now.machine = (outcome, after)) := by
  intro call literal
  let empty : Object := { kind := .ordinary, prototype := some WellKnown.objectPrototype }
  have holds := history.holds.1 now mem
  have sound := Regime.free_sound confined
  let object : ObjectId := (now.machine.store.allocate empty).1
  let start : Machine := { now.machine with store := (now.machine.store.allocate empty).2 }
  have hidden : ((Regime.free confined).hide object empty).Holds start :=
    ⟨holds.store.hide_new trivial
      ⟨holds.store.refers.inherits_wellKnown (by decide), nofun, nofun⟩, holds.control.hide_new⟩
  have gathered : empty.Gathered [] := ⟨rfl, rfl, rfl, rfl, fun _ => rfl⟩
  have run : literal.run now.machine =
      (addProperties call object nodes >>= fun _ => pure (.object object)).run start := by
    simp only [literal]
    rw [evaluate]
    rfl
  refine ⟨object, start, rfl, Nat.lt_irrefl _, ?_⟩
  rw [run]
  rcases Regime.addProperties_run sound bound remaining nodes
    (fun node _ => Regime.free_fits confined _) hidden gathered (.object object) with
    ⟨entries, after, gathers, all, ended⟩ | halted
  · exact .inl ⟨entries, after, gathers, ended, all, gathers.keys ▸ all.keys,
      fun _ _ found => all.flags found⟩
  · exact .inr halted

/-- A literal in which both keys are repeated: a getter and a setter come after the value of one,
and a value after the getter of the other. -/
theorem object_literal_gathers_repeated :
    let e := create { builtins := false }
    let code : FunctionCode := ⟨default, none, [], default, [], ⟨false, [], [], [], []⟩⟩
    let nodes : List PropertyNode :=
      [.data default "x" (.literal default (.boolean false)), .getter default "y" code,
        .getter default "x" code, .data default "y" (.literal default (.boolean true)),
        .setter default "x" code]
    ∃ object after,
      (evaluate e.caller (.object default nodes)).run e.machine = (.value (.object object), after) ∧
      (after.store.object object).keys = ["x", "y"] ∧
      (∃ f g, (after.store.object object).property? "x" =
        some (.accessor (some f) (some g) true true)) ∧
      (after.store.object object).property? "y" = some (.plain (.boolean true)) := by
  intro e code nodes
  have created : GroundedHistory False [e.moment] e := .create _
  obtain ⟨object, start, -, -, all | halted⟩ :=
    object_literal_gathers created List.mem_cons_self loopBound e.config.maxCallDepth default nodes
  · obtain ⟨entries, after, gathers, run, gathered, keys, -⟩ := all
    -- What the nodes are evaluated to, one after the other.
    simp only [nodes] at gathers
    obtain _ | ⟨first, gathers⟩ := gathers
    obtain _ | ⟨second, gathers⟩ := gathers
    obtain _ | ⟨third, gathers⟩ := gathers
    obtain _ | ⟨fourth, gathers⟩ := gathers
    obtain _ | ⟨fifth, gathers⟩ := gathers
    obtain _ | _ := gathers
    obtain ⟨_, _, value, made⟩ := bind_eq_value first
    cases value
    cases made
    obtain ⟨_, _, value, made⟩ := bind_eq_value fourth
    cases value
    cases made
    obtain ⟨_, _, -, made⟩ := bind_eq_value second
    cases made
    obtain ⟨_, _, -, made⟩ := bind_eq_value third
    cases made
    obtain ⟨_, _, -, made⟩ := bind_eq_value fifth
    cases made
    exact ⟨object, _, run, keys, ⟨_, _, gathered.property? "x"⟩, gathered.property? "y"⟩
  -- A literal has a value, so it stops nothing.
  · obtain ⟨outcome, after, halts, -⟩ := halted
    simp only [nodes] at halts
    obtain ⟨ended, abrupt⟩ | ⟨-, halts⟩ := halts
    · cases ended
      exact absurd rfl (abrupt _)
    obtain _ | ⟨-, halts⟩ := halts
    obtain _ | ⟨-, halts⟩ := halts
    obtain ⟨ended, abrupt⟩ | ⟨-, halts⟩ := halts
    · cases ended
      exact absurd rfl (abrupt _)
    obtain _ | ⟨-, halts⟩ := halts
    cases halts

end Engine

end ScriptEngine
