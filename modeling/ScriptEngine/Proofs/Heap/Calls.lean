import ScriptEngine.Evaluate.Call
import ScriptEngine.Library.Perform
import ScriptEngine.Proofs.Heap.Statements
import ScriptEngine.Proofs.Library.Natives

/-!
# Calls and scripts on a heap

A native function that is given what is there goes through stores that are allowed and returns what
is there, as long as the services that it uses do. Only the `Function` constructor runs scripts, in
the global environment.

A call of a function that is there, with what is there, goes through stores that are allowed,
however many calls may be in progress at a time; so does a whole script, in an environment that is
there.
-/
namespace ScriptEngine

namespace Regime

/-- What a statement of a script left is there. -/
def HasRemainder (R : Regime) (s : Store) : Remainder → Prop
  | .value v => R.HasValue s v
  | .reference r => R.HasReference s r

/-- What a script left, if anything, is there. -/
def HasCompletion (R : Regime) (s : Store) (completion : Completion Remainder) : Prop :=
  ∀ rest ∈ completion.value?, R.HasRemainder s rest

/-- What the engine does for native functions goes through stores that are allowed. -/
structure Serves (R : Regime) (services : Services) : Prop where
  call : R.Calls services.call
  run : R.native .function → ∀ {p : Program}, p.Constructed →
    R.Always (services.run p.tree WellKnown.globalEnvironment) R.HasCompletion

variable {R : Regime} {s : Store}

theorem HasCompletion.leftValue {completion : Completion Remainder}
    (has : R.HasCompletion s completion) : R.HasValue s (Library.leftValue completion) := by
  dsimp only [Library.leftValue]
  split
  next v left => exact has _ left
  · trivial

end Regime

/-! ## Native functions -/

namespace Library

open Evaluation Operation Regime

variable {R : Regime} {s : Store} {receiver : Value} {arguments : List Value}

theorem argument_there (all : R.HasAll s arguments) (index : Nat) :
    R.HasValue s (argument arguments index) := by
  unfold argument
  cases given : arguments[index]? with
  | none => trivial
  | some value => exact all value (List.mem_of_getElem? given)

theorem collect_keeps {item : Nat → Evaluation Value} {collected : List Value} {index count : Nat}
    (each : ∀ index, ∀ {t : Store}, s.Reaches t → R.Keeps t (item index) R.HasValue)
    (all : R.HasAll s collected) : R.Keeps s (collect item collected index count) R.HasAll := by
  induction count generalizing s collected index with
  | zero => exact .pure fun v mem => all v (List.mem_reverse.1 mem)
  | succ count ih =>
    refine (each index (.refl s)).bind fun value reached has => ih ?_ ?_
    · exact fun index _ reached' => each index (reached.trans reached')
    · exact List.forall_mem_cons.2 ⟨has, all.mono reached⟩

/-! ### Objects -/

theorem object_keeps (all : R.HasAll s arguments) :
    R.Keeps s (object receiver arguments) R.HasValue := by
  unfold object
  extract_lets value
  split
  · exact newPlainObject_keeps.bind fun _ _ made => .pure made
  · exact (toObject_keeps (argument_there all 0)).bind fun _ _ there => .pure there

theorem objectKeys_keeps (all : R.HasAll s arguments) :
    R.Keeps s (objectKeys receiver arguments) R.HasValue := by
  refine (toObject_keeps (argument_there all 0)).bind fun o _ _ => .asking fun _ => ?_
  refine (newArrayOf_keeps fun v mem => ?_).bind fun _ _ made => .pure made
  obtain ⟨_, _, rfl⟩ := List.mem_map.1 mem
  trivial

theorem freezeProperty_keeps {o : ObjectId} {key : String} (known : R.Known o) :
    R.Safe s (freezeProperty o key) :=
  .asking fun _ => defineOrFail_keeps known (.flags ..)

theorem objectFreeze_keeps (all : R.HasAll s arguments) :
    R.Keeps s (objectFreeze receiver arguments) R.HasValue := by
  have there := argument_there all 0
  unfold objectFreeze
  generalize argument arguments 0 = value at there
  cases value with
  | object o =>
    refine .asking fun _ => Keeps.bind (P := fun _ _ => True)
      (.forM fun _ _ _ _ => freezeProperty_keeps there.2) fun _ reached _ => ?_
    exact (Keeps.preventExtensions there.2).bind
      fun _ reached' _ => .pure (there.mono (reached.trans reached'))
  | _ => exact .pure there

theorem objectIsFrozen_keeps : R.Keeps s (objectIsFrozen receiver arguments) R.HasValue := by
  unfold objectIsFrozen
  split
  · exact .asking fun _ => .pure trivial
  · exact .pure trivial

theorem describedAccessor_keeps {role : AccessorRole} {value : Value} (there : R.HasValue s value) :
    R.Keeps s (describedAccessor role value) fun t f => ∀ g ∈ f, R.HasObject t g := by
  unfold describedAccessor
  split
  · exact .pure nofun
  next f =>
    refine .asking fun _ => ?_
    split
    · refine .pure ?_
      rintro _ ⟨⟩
      exact there
    · exact failAsking_keeps _ _
  · exact failAsking_keeps _ _

theorem objectGetPrototypeOf_keeps (all : R.HasAll s arguments) :
    R.Keeps s (objectGetPrototypeOf receiver arguments) R.HasValue := by
  refine (toObject_keeps (argument_there all 0)).bind fun {t} o _ _ => ?_
  refine .asking fun allows => .pure ?_
  cases link : (t.object o).prototype with
  | none => trivial
  | some p => exact allows.refers.prototypes link

theorem objectToString_keeps : R.Keeps s (objectToString receiver arguments) R.HasValue := by
  refine Keeps.bind (P := fun _ _ => True) ?_ fun _ _ _ => .pure trivial
  unfold classOf
  split
  case h_6 => exact .ask fun _ => trivial
  all_goals exact .pure trivial

theorem objectValueOf_keeps (has : R.HasValue s receiver) :
    R.Keeps s (objectValueOf receiver arguments) R.HasValue :=
  (toObject_keeps has).bind fun _ _ there => .pure there

/-! ### Functions -/

theorem receiverFunction_keeps {method : String} (has : R.HasValue s receiver) :
    R.Keeps s (receiverFunction method receiver) R.HasObject := by
  unfold receiverFunction
  split
  · refine .asking fun _ => ?_
    split
    · exact .pure has
    · exact .fail _
  · exact .fail _

theorem functionToString_keeps (has : R.HasValue s receiver) :
    R.Keeps s (functionToString receiver arguments) R.HasValue :=
  (receiverFunction_keeps has).bind fun _ _ _ => .asking fun _ => .pure trivial

/-! ### Arrays -/

/-- An array without elements. -/
private theorem newEmpty_keeps : R.Keeps s (newArray []) R.HasObject :=
  newArray_keeps fun _ absent => absurd absent List.not_mem_nil

theorem array_keeps (all : R.HasAll s arguments) :
    R.Keeps s (array receiver arguments) R.HasValue := by
  unfold array
  split
  · split
    · split
      · refine newEmpty_keeps.bind fun {t} o _ made => ?_
        have stated : ∀ n, R.HasValue t (.ofInt n) := fun _ => trivial
        exact (Keeps.define made.2 (.ofValue (stated _))).bind
          fun _ reached _ => .pure (made.mono reached)
      · exact .fail _
    · split
      · exact newEmpty_keeps.bind fun _ _ made => .pure made
      · exact .fail _
  · exact (newArrayOf_keeps all).bind fun _ _ made => .pure made

theorem arrayIsArray_keeps : R.Keeps s (arrayIsArray receiver arguments) R.HasValue := by
  unfold arrayIsArray
  split
  · exact .asking fun _ => .pure trivial
  · exact .pure trivial

/-! ### Errors -/

theorem errorPrototypeFor_keeps {kind : Option ErrorKind} :
    R.Keeps s (errorPrototypeFor kind receiver) R.HasObject := by
  refine .given fun allows => ?_
  -- Where the receiver is not a new object, the prototype is the one of the kind.
  have own : R.HasObject s (WellKnown.errorPrototype kind) := by
    refine allows.refers.wellKnown ?_
    cases kind with
    | none => decide
    | some kind => cases kind <;> decide
  unfold errorPrototypeFor
  split
  next o =>
    refine .asking fun _ => .pure ?_
    split
    · cases link : (s.object o).prototype with
      | none => exact own
      | some p => exact allows.refers.prototypes link
    · exact own
  · exact .pure own

/-! ### Functions that use services -/

section

variable {services : Services} (serves : R.Serves services)

include serves

theorem described_keeps {o : ObjectId} {key : String} (has : R.HasObject s o) :
    R.Keeps s (described services o key) fun t value => ∀ v ∈ value, R.HasValue t v := by
  refine .asking fun _ => ?_
  split
  · refine .map ((getOwn_keeps serves.call has).weaken fun value _ there => ?_)
    rintro _ ⟨⟩
    exact there
  · exact .pure fun v absent => absurd absent (Option.not_mem_none v)

/-- The definition that an object describes refers to what the object has. -/
theorem describedProperty_keeps {o : ObjectId} (has : R.HasObject s o) :
    R.Keeps s (describedProperty services o) R.HasDescriptor := by
  -- The getter and the setter are looked at alike.
  have accessor : ∀ {t : Store} (role : AccessorRole) {value : Option Value},
      (∀ v ∈ value, R.HasValue t v) → R.Keeps t (value.mapM (describedAccessor role))
        fun u place => ∀ f ∈ place, ∀ g ∈ f, R.HasObject u g := by
    intro t role value there
    cases value with
    | none => exact .pure nofun
    | some value =>
      refine .map ((describedAccessor_keeps (there value rfl)).weaken fun f _ made => ?_)
      rintro _ ⟨⟩
      exact made
  refine (described_keeps serves has).bind fun enumerable reached _ => ?_
  have has := has.mono reached
  refine (described_keeps serves has).bind fun configurable reached _ => ?_
  have has := has.mono reached
  refine (described_keeps serves has).bind fun value reached₃ there => ?_
  have has := has.mono reached₃
  refine (described_keeps serves has).bind fun writable reached₄ _ => ?_
  have has := has.mono reached₄
  refine (described_keeps serves has).bind fun getter reached₅ there₅ => ?_
  refine (accessor .getter there₅).bind fun getter reached₆ made => ?_
  have has := has.mono (reached₅.trans reached₆)
  refine (described_keeps serves has).bind fun setter reached₇ there₇ => ?_
  refine (accessor .setter there₇).bind fun setter reached₈ made' => ?_
  extract_lets d
  split
  · exact .fail _
  · have later := reached₇.trans reached₈
    have further := reached₄.trans (reached₅.trans (reached₆.trans later))
    exact .pure ⟨fun v mem => (there v mem).mono further,
      fun f mem g mem' => (made f mem g mem').mono later, made'⟩

theorem objectDefineProperty_keeps (all : R.HasAll s arguments) :
    R.Keeps s (objectDefineProperty services receiver arguments) R.HasValue := by
  have target := argument_there all 0
  have description := argument_there all 2
  unfold objectDefineProperty
  generalize argument arguments 0 = value at target
  cases value with
  | object o =>
    refine (toKey_keeps serves.call (argument_there all 1)).bind fun key reached _ => ?_
    split
    next d eq =>
      rw [eq] at description
      have there : R.HasObject s d := description
      refine (describedProperty_keeps serves (there.mono reached)).bind fun d reached' has => ?_
      exact (defineOrFail_keeps target.2 has).bind
        fun _ reached'' _ => .pure (target.mono (reached.trans (reached'.trans reached'')))
    · exact .fail _
  | _ => exact .fail _

theorem hasOwnProperty_keeps (has : R.HasValue s receiver) (all : R.HasAll s arguments) :
    R.Keeps s (hasOwnProperty services receiver arguments) R.HasValue :=
  (toKey_keeps serves.call (argument_there all 0)).bind fun _ reached _ =>
    (toObject_keeps (has.mono reached)).bind fun _ _ _ => .asking fun _ => .pure trivial

theorem texts_keeps {values : List Value} (all : R.HasAll s values) :
    R.Safe s (texts services values) := by
  induction values generalizing s with
  | nil => exact .pure trivial
  | cons value rest ih =>
    obtain ⟨first, others⟩ := List.forall_mem_cons.1 all
    refine (toText_keeps serves.call first).bind fun _ reached _ => ?_
    exact (ih fun v mem => (others v mem).mono reached).bind fun _ _ _ => .pure trivial

/-- The `Function` constructor runs what it has compiled. -/
theorem function_keeps (native : R.native .function) (all : R.HasAll s arguments) :
    R.Keeps s (function services receiver arguments) R.HasValue := by
  refine Keeps.compiling.bind fun _ reached _ => ?_
  refine (texts_keeps serves (all.mono reached)).bind fun given _ _ => ?_
  extract_lets source
  split
  · split
    · exact .fail _
    · exact .fail _
  next program compiled =>
    refine (serves.run native ⟨_, _, compiled⟩ _).bind fun completion _ has => ?_
    split
    · exact .raise has.leftValue
    · exact .pure has.leftValue

theorem functionCall_keeps (has : R.HasValue s receiver) (all : R.HasAll s arguments) :
    R.Keeps s (functionCall services receiver arguments) R.HasValue := by
  refine (receiverFunction_keeps has).bind fun f reached there => ?_
  have all := all.mono reached
  exact callValue_keeps serves.call there.value (argument_there all 0)
    fun v mem => all v (List.mem_of_mem_tail mem)

theorem elementsOf_keeps {list : ObjectId} (has : R.HasObject s list) :
    R.Keeps s (elementsOf services list) R.HasAll := by
  refine (getOwn_keeps serves.call has).bind fun value reached there => ?_
  refine (toNumber_keeps serves.call there).bind fun length reached' _ => ?_
  have has := has.mono (reached.trans reached')
  extract_lets count
  split
  · exact .fail _
  · exact collect_keeps (fun _ _ reached => getOwn_keeps serves.call (has.mono reached)) .nil

theorem functionApply_keeps (has : R.HasValue s receiver) (all : R.HasAll s arguments) :
    R.Keeps s (functionApply services receiver arguments) R.HasValue := by
  refine (receiverFunction_keeps has).bind fun {t} f reached there => ?_
  have all := all.mono reached
  have called : ∀ {u : Store}, t.Reaches u → ∀ {spread : List Value}, R.HasAll u spread →
      R.Keeps u (callValue services.call (.object f) (argument arguments 0) spread)
        R.HasValue := fun reached _ spread =>
    callValue_keeps serves.call (there.mono reached).value ((argument_there all 0).mono reached)
      spread
  have list := argument_there all 1
  split
  · exact called (.refl _) .nil
  · exact called (.refl _) .nil
  next o eq =>
    rw [eq] at list
    exact (elementsOf_keeps serves list).bind fun _ reached spread => called reached spread
  · exact (Keeps.fail (Q := R.HasAll) _).bind fun _ reached spread => called reached spread

theorem lengthOf_keeps {o : ObjectId} (has : R.HasObject s o) : R.Safe s (lengthOf services o) :=
  (getOwn_keeps serves.call has).bind fun _ _ there =>
    (toNumber_keeps serves.call there).bind fun _ _ _ => .pure trivial

theorem elementText_keeps {value : Value} (there : R.HasValue s value) :
    R.Safe s (elementText services value) := by
  unfold elementText
  split
  · exact .pure trivial
  · exact .pure trivial
  · exact toText_keeps serves.call there

theorem joinFrom_keeps {o : ObjectId} {separator joined : String} {index count : Nat}
    (has : R.HasObject s o) : R.Safe s (joinFrom services o separator joined index count) := by
  induction count generalizing s joined index with
  | zero => exact .pure trivial
  | succ count ih =>
    unfold joinFrom
    extract_lets separated
    refine (getOwn_keeps serves.call has).bind fun element reached there => ?_
    refine (elementText_keeps serves there).bind fun text reached' _ => ?_
    extract_lets joined
    split
    · exact .fail _
    · exact ih (has.mono (reached.trans reached'))

theorem arrayJoin_keeps (has : R.HasValue s receiver) (all : R.HasAll s arguments) :
    R.Keeps s (arrayJoin services receiver arguments) R.HasValue := by
  refine (toObject_keeps has).bind fun o reached made => ?_
  refine (lengthOf_keeps serves made).bind fun length reached' _ => ?_
  have joined : ∀ {t : Store} (separator : String), R.HasObject t o → R.Keeps t (do
      if maxJoined < (length - 1) * separator.utf8ByteSize then fail .textLength
      else return .string (← joinFrom services o separator "" 0 length) : Evaluation Value)
        R.HasValue := by
    intro t separator made
    split
    · exact .fail _
    · exact (joinFrom_keeps serves made).bind fun _ _ _ => .pure trivial
  have made := made.mono reached'
  have given := (argument_there all 0).mono (reached.trans reached')
  split
  · exact joined "," made
  · exact (toText_keeps serves.call given).bind
      fun separator reached _ => joined separator (made.mono reached)

theorem pushEach_keeps {o : ObjectId} {length : Nat} {values : List Value} (has : R.HasObject s o)
    (all : R.HasAll s values) : R.Safe s (pushEach services o length values) := by
  induction values generalizing s length with
  | nil => exact .pure trivial
  | cons value rest ih =>
    obtain ⟨first, others⟩ := List.forall_mem_cons.1 all
    refine (set_keeps serves.call first has.value).bind fun written reached _ => ?_
    split
    · exact ih (has.mono reached) fun v mem => (others v mem).mono reached
    · exact .fail _

theorem arrayPush_keeps (has : R.HasValue s receiver) (all : R.HasAll s arguments) :
    R.Keeps s (arrayPush services receiver arguments) R.HasValue := by
  refine (toObject_keeps has).bind fun o reached made => ?_
  refine (lengthOf_keeps serves made).bind fun start reached' _ => ?_
  have all := all.mono (reached.trans reached')
  have made := made.mono reached'
  refine (pushEach_keeps serves made all).bind fun {t} length reached'' _ => ?_
  have stated : R.HasValue t (.ofNat length) := trivial
  refine (set_keeps serves.call stated (made.mono reached'').value).bind fun written _ _ => ?_
  split
  · exact .pure trivial
  · exact .fail _

/-! ### Errors and numbers -/

theorem error_keeps {kind : Option ErrorKind} (all : R.HasAll s arguments) :
    R.Keeps s (error services kind receiver arguments) R.HasValue := by
  refine errorPrototypeFor_keeps.bind fun prototype reached there => ?_
  have made : ∀ {t : Store} (message : Option String), R.HasObject t prototype → R.Keeps t (do
      return .object (← allocate (errorObject prototype message)
        (Object.wellFormed_of_not_array rfl)) : Evaluation Value) R.HasValue := by
    intro t message there
    refine Keeps.bind (.allocate trivial fun _ => ⟨?_, nofun, ?_⟩) fun _ _ made => .pure made
    · rintro _ ⟨⟩
      exact there
    · cases message with
      | none => exact .empty
      | some message => exact .singleton "message" trivial
  have given := (argument_there all 0).mono reached
  split
  · exact made none there
  · have message : R.Safe _ (some <$> toText services.call (argument arguments 0)) :=
      .map (toText_keeps serves.call given)
    exact message.bind fun message reached _ => made message (there.mono reached)

theorem errorPart_keeps {key default : String} (has : R.HasValue s receiver) :
    R.Safe s (errorPart services receiver key default) := by
  refine (getV_keeps serves.call has).bind fun part _ there => ?_
  split
  · exact .pure trivial
  · exact toText_keeps serves.call there

theorem errorToString_keeps (has : R.HasValue s receiver) :
    R.Keeps s (errorToString services receiver arguments) R.HasValue := by
  unfold errorToString
  split
  · exact .fail _
  · refine (errorPart_keeps serves has).bind fun name reached _ => ?_
    exact (errorPart_keeps serves (has.mono reached)).bind fun _ _ _ => .pure trivial

theorem choose_keeps {pick : Number → Number → Number} {best : Number} {values : List Value}
    (all : R.HasAll s values) : R.Safe s (choose services pick best values) := by
  induction values generalizing s best with
  | nil => exact .pure trivial
  | cons value rest ih =>
    obtain ⟨first, others⟩ := List.forall_mem_cons.1 all
    exact (toNumber_keeps serves.call first).bind
      fun _ reached _ => ih fun v mem => (others v mem).mono reached

theorem ofOne_keeps {f : Number → Number} (all : R.HasAll s arguments) :
    R.Keeps s (ofOne services f arguments) R.HasValue :=
  (toNumber_keeps serves.call (argument_there all 0)).bind fun _ _ _ => .pure trivial

theorem math_keeps {function : MathFunction} (all : R.HasAll s arguments) :
    R.Keeps s (math services function receiver arguments) R.HasValue := by
  cases function with
  | log | abs | floor | ceil | sqrt => exact ofOne_keeps serves all
  | pow =>
    refine (toNumber_keeps serves.call (argument_there all 0)).bind fun _ reached _ => ?_
    exact (toNumber_keeps serves.call (argument_there (all.mono reached) 1)).bind
      fun _ _ _ => .pure trivial
  | max | min => exact (choose_keeps serves all).bind fun _ _ _ => .pure trivial

theorem isNaN_keeps (all : R.HasAll s arguments) :
    R.Keeps s (isNaN services receiver arguments) R.HasValue :=
  (toNumber_keeps serves.call (argument_there all 0)).bind fun _ _ _ => .pure trivial

/-! ### Host functions -/

theorem sumFrom_keeps {total : Number} {values : List Value} (all : R.HasAll s values) :
    R.Safe s (sumFrom services total values) := by
  induction values generalizing s total with
  | nil => exact .pure trivial
  | cons value rest ih =>
    obtain ⟨first, others⟩ := List.forall_mem_cons.1 all
    exact (toNumber_keeps serves.call first).bind
      fun _ reached _ => ih fun v mem => (others v mem).mono reached

theorem host_keeps {function : HostFunction} (has : R.HasValue s receiver)
    (all : R.HasAll s arguments) :
    R.Keeps s (host services function receiver arguments) R.HasValue := by
  have first := argument_there all 0
  have text := toText_keeps serves.call first
  cases function with
  | sum => exact (sumFrom_keeps serves all).bind fun _ _ _ => .pure trivial
  | receiver => exact .pure has
  | arguments => exact (newArrayOf_keeps all).bind fun _ _ made => .pure made
  | typeOf => exact .asking fun _ => .pure trivial
  | string => exact text.bind fun _ _ _ => .pure trivial
  | depth => exact .askingControl fun _ _ _ => .pure trivial
  | call =>
    exact callValue_keeps serves.call first (argument_there all 1)
      fun v mem => all v (List.mem_of_mem_drop mem)
  | construct =>
    exact construct_keeps serves.call first fun v mem => all v (List.mem_of_mem_tail mem)
  | throw => exact .raise first
  | fault => exact text.bind fun _ _ _ => .raise trivial
  | raise kind => exact text.bind fun _ _ _ => .fail _
  | print => exact .asking fun _ => Keeps.print.bind fun _ _ _ => .pure trivial

/-- A native function that there may be returns what is there. -/
theorem perform_keeps {behaviour : Native} (native : R.native behaviour) (has : R.HasValue s receiver)
    (all : R.HasAll s arguments) :
    R.Keeps s (perform services behaviour receiver arguments) R.HasValue := by
  unfold perform
  cases behaviour with
  | nothing => exact .pure trivial
  | object => exact object_keeps all
  | objectKeys => exact objectKeys_keeps all
  | objectFreeze => exact objectFreeze_keeps all
  | objectIsFrozen => exact objectIsFrozen_keeps
  | objectDefineProperty => exact objectDefineProperty_keeps serves all
  | objectGetPrototypeOf => exact objectGetPrototypeOf_keeps all
  | hasOwnProperty => exact hasOwnProperty_keeps serves has all
  | objectToString => exact objectToString_keeps
  | objectValueOf => exact objectValueOf_keeps has
  | function => exact function_keeps serves native all
  | functionCall => exact functionCall_keeps serves has all
  | functionApply => exact functionApply_keeps serves has all
  | functionToString => exact functionToString_keeps has
  | array => exact array_keeps all
  | arrayIsArray => exact arrayIsArray_keeps
  | arrayJoin => exact arrayJoin_keeps serves has all
  | arrayPush => exact arrayPush_keeps serves has all
  | arrayToString => exact arrayJoin_keeps serves has .nil
  | error kind => exact error_keeps serves all
  | errorToString => exact errorToString_keeps serves has
  | math function => exact math_keeps serves all
  | isNaN => exact isNaN_keeps serves all
  | host function => exact (host_keeps serves has all).reporting

end

end Library

/-! ## Functions and scripts -/

namespace Regime

open Evaluation Operation Evaluate

variable {R : Regime} {s : Store}

theorem receiverFor_keeps {strict : Bool} {receiver : Value} (has : R.HasValue s receiver) :
    R.Keeps s (receiverFor strict receiver) R.HasValue := by
  refine .given fun allows => ?_
  unfold receiverFor
  split
  · exact .pure has
  split
  · exact .pure allows.refers.globalObject
  · exact (toObject_keeps has).bind fun _ _ there => .pure there

theorem callResultOf_keeps {ending : Ending} (has : R.HasEnding s ending) :
    R.Keeps s (callResultOf ending) R.HasValue := by
  unfold callResultOf
  split
  · exact .pure (has _ rfl)
  · exact .pure trivial
  · exact .raise (has _ rfl)
  · exact .raise trivial
  · exact .raise trivial

section

variable {call : Caller} (calls : R.Calls call) {bound : Nat}

include calls

/-! ### Scripts -/

theorem readRemainder_keeps {last : Option Remainder} (has : ∀ rest ∈ last, R.HasRemainder s rest) :
    R.Keeps s (readRemainder call last) fun t last => ∀ rest ∈ last, R.HasRemainder t rest := by
  unfold readRemainder
  split
  next r =>
    have there : R.HasReference s r := has _ rfl
    refine (getValue_keeps calls there).bind fun value _ has => .pure ?_
    rintro _ ⟨⟩
    exact has
  · exact .pure has

theorem executeOutermost_keeps {statement : Statement} (fits : R.Fits (.statement statement)) :
    R.Keeps s (executeOutermost call bound statement) R.HasCompletion := by
  unfold executeOutermost
  split
  next e =>
    have inner : R.Fits (.expression e) := fits.inside (.head _)
    split
    · refine (reference_keeps calls e inner s).bind fun place _ has => .pure ?_
      rintro _ ⟨⟩
      exact has
    · refine (evaluate_keeps calls e inner s).bind fun value _ has => .pure ?_
      rintro _ ⟨⟩
      exact has
  · refine (execute_keeps calls bound [] statement fits s).bind fun ending _ has => ?_
    have left : ∀ {t : Store} {value : Option Value}, (∀ v ∈ value, R.HasValue t v) →
        ∀ rest ∈ value.map Remainder.value, R.HasRemainder t rest := by
      rintro t value there _ eq
      obtain ⟨v, given, rfl⟩ := Option.map_eq_some_iff.1 eq
      exact there v given
    cases ending with
    | normal | breaks | continues => exact .pure (left has)
    | returns value | throws value => exact .pure (left has)

theorem executeScript_keeps {statements : List Statement} {last : Option Remainder}
    (each : ∀ statement ∈ statements, R.Fits (.statement statement))
    (has : ∀ rest ∈ last, R.HasRemainder s rest) :
    R.Keeps s (executeScript call bound last statements) R.HasCompletion := by
  induction statements generalizing s last with
  | nil => exact .pure has
  | cons statement rest ih =>
    obtain ⟨first, others⟩ := List.forall_mem_cons.1 each
    -- A reference that the statement before has left is read before this one runs.
    refine (readRemainder_keeps calls has).bind fun last reached has => ?_
    refine (executeOutermost_keeps calls first).bind fun ending reached' ended => ?_
    split
    · refine ih others fun left mem => ?_
      cases own : ending.value? with
      | some value => exact ended left (by simpa only [own, Option.some_or] using mem)
      | none =>
        have before := has left (by simpa only [own, Option.none_or] using mem)
        cases left with
        | value v => exact HasValue.mono before reached'
        | reference r => exact HasReference.mono before reached'
    · exact .pure ended

/-- A script runs in an environment that is there, and that is the global one where scripts run
nowhere else. -/
theorem runScript_keeps {tree : ScriptTree} {env : EnvironmentId} (fits : R.Fits (.script tree))
    (has : s.HasEnvironment env) (place : R.confined → env = WellKnown.globalEnvironment) :
    R.Keeps s (runScript call bound tree env) R.HasCompletion := by
  have each : ∀ statement ∈ tree.body, R.Fits (.statement statement) := fits.each rfl
  have body : R.Keeps s (do
      let lexical ← declareScript env tree.scope
      withFrame ⟨lexical, env, .object WellKnown.globalObject, tree.scope.strict, none⟩
        (executeScript call bound none tree.body)) R.HasCompletion := by
    refine (declareScript_keeps place fits.admits has).bind fun lexical _ opened => ?_
    refine .given fun allows => .withFrame ⟨opened, allows.refers.globalObject⟩ ?_
    exact executeScript_keeps calls each nofun
  refine body.attempt.bind fun result _ attempted => ?_
  cases result with
  | ok ending =>
    dsimp only
    split
    · exact .pure attempted
    · exact .raise trivial
  | error raised =>
    refine (caught_keeps attempted).bind fun value _ there => .pure ?_
    rintro _ ⟨⟩
    exact there

/-! ### Functions -/

theorem runFunction_keeps {f : ObjectId} {code : FunctionCode} {closure : EnvironmentId}
    {receiver : Value} {arguments : List Value} (fits : R.Fits (.function code))
    (there : R.HasObject s f) (has : s.HasEnvironment closure) (given : R.HasValue s receiver)
    (all : R.HasAll s arguments) :
    R.Keeps s (runFunction call bound f code closure receiver arguments) R.HasValue := by
  have each : ∀ statement ∈ code.body, R.Fits (.statement statement) := fits.each rfl
  refine (receiverFor_keeps given).bind fun receiver reached given => ?_
  refine (openScope_keeps (has.mono reached)).bind fun env reached' opened => ?_
  have further := reached.trans reached'
  refine Keeps.bind (P := R.HasEnding) (.withFrame ⟨opened, given.mono reached'⟩ ?_)
    fun ending _ ended => callResultOf_keeps ended
  refine (declareCall_keeps fits.admits.2 opened (there.mono further) (all.mono further)).bind
    fun lexical _ made => .withScope made ?_
  exact executeList_keeps calls bound none code.body each HasEnding.empty

end

/-! ### Calls -/

/-- Calls go through stores that are allowed, whatever the limit on calls. -/
theorem invoke_keeps (sound : R.Sound) (bound remaining : Nat) :
    R.Calls (invoke bound remaining) := by
  induction remaining with
  | zero => exact fun _ _ _ => .fail _
  -- The induction is on how many more calls there may be; those of the body have one less.
  | succ remaining ih =>
    intro s f receiver arguments there has all
    refine .enteringCall (.asking fun allows => ?_)
    have made := allows.kinds f
    cases kind : (s.object f).kind with
    | script code closure =>
      rw [kind] at made
      exact runFunction_keeps ih (sound.code made) there (allows.closed.closures kind) has all
    | native code =>
      rw [kind] at made
      have serves : R.Serves ⟨invoke bound remaining, runScript (invoke bound remaining) bound⟩ :=
        ⟨ih, fun native _ constructed _ => .given fun allows =>
          runScript_keeps ih (sound.constructed native constructed)
            allows.closed.globalEnvironment fun _ => rfl⟩
      exact Library.perform_keeps serves made has all
    | _ => exact failAsking_keeps _ _

end Regime

end ScriptEngine
