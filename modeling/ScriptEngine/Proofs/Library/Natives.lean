import ScriptEngine.Library.Perform
import ScriptEngine.Proofs.Evaluation.Operations
import ScriptEngine.Proofs.Tree.Accepted

/-!
# Native functions keep contracts

What a native function does keeps every lawful contract, as long as the services that it uses do.
The one that compiles source text runs only programs that were compiled. A host function that fails
on purpose only keeps a contract under which it may.
-/
namespace ScriptEngine

/-- A program that the `Function` constructor compiles. -/
def Program.Constructed (p : Program) : Prop :=
  ∃ parameters body, compile (Library.functionSource parameters body) "anonymous" false = .ok p

theorem Program.Constructed.accepted {p : Program} (constructed : p.Constructed) : p.Accepted := by
  obtain ⟨parameters, body, compiled⟩ := constructed
  exact ⟨_, _, _, compiled⟩

/-- What the engine does for native functions keeps a contract. -/
structure Services.Keep (C : Contract) (services : Services) : Prop where
  call : C.Calls services.call
  run : ∀ {p : Program}, p.Constructed → ∀ env, C.Safe (services.run p.tree env)

namespace Library

open Evaluation Operation Contract

variable {C : Contract} (lawful : C.Lawful)

theorem collect_safe {α : Type} {item : Nat → Evaluation α} (each : ∀ index, C.Safe (item index))
    (collected : List α) (index count : Nat) : C.Safe (collect item collected index count) := by
  induction count generalizing collected index with
  | zero => exact .pure trivial
  | succ count ih => exact (each index).bind fun value => ih (value :: collected) (index + 1)

include lawful

/-! ### Objects -/

theorem object_safe (receiver : Value) (arguments : List Value) :
    C.Safe (object receiver arguments) := by
  unfold object
  extract_lets value
  split
  · exact (newObject_safe lawful _).bind fun _ => .pure trivial
  · exact (toObject_safe lawful value).bind fun _ => .pure trivial

theorem objectKeys_safe (receiver : Value) (arguments : List Value) :
    C.Safe (objectKeys receiver arguments) := by
  refine (toObject_safe lawful _).bind fun o => .asking fun keys => ?_
  exact (newArrayOf_safe lawful _).bind fun _ => .pure trivial

theorem freezeProperty_safe (o : ObjectId) (key : String) : C.Safe (freezeProperty o key) :=
  .asking fun _ => defineOrFail_safe lawful o key _

theorem objectFreeze_safe (receiver : Value) (arguments : List Value) :
    C.Safe (objectFreeze receiver arguments) := by
  unfold objectFreeze
  generalize argument arguments 0 = value
  cases value with
  | object o =>
    refine .asking fun keys => Safe.bind (.forM fun key _ => freezeProperty_safe lawful o key) ?_
    exact fun _ => (lawful.preventExtensions o).bind fun _ => .pure trivial
  | _ => exact .pure trivial

omit lawful in
theorem objectIsFrozen_safe (receiver : Value) (arguments : List Value) :
    C.Safe (objectIsFrozen receiver arguments) := by
  unfold objectIsFrozen
  split
  · exact .asking fun _ => .pure trivial
  · exact .pure trivial

theorem describedAccessor_safe (role : AccessorRole) (value : Value) :
    C.Safe (describedAccessor role value) := by
  unfold describedAccessor
  split
  · exact .pure trivial
  · refine .asking fun callable => ?_
    split
    · exact .pure trivial
    · exact failAsking_keeps lawful _ _
  · exact failAsking_keeps lawful _ _

theorem objectGetPrototypeOf_safe (receiver : Value) (arguments : List Value) :
    C.Safe (objectGetPrototypeOf receiver arguments) :=
  (toObject_safe lawful _).bind fun _ => .asking fun _ => .pure trivial

omit lawful in
theorem objectToString_safe (receiver : Value) (arguments : List Value) :
    C.Safe (objectToString receiver arguments) := by
  refine Safe.bind ?_ fun _ => .pure trivial
  unfold classOf
  split
  case h_6 => exact .asked _
  all_goals exact .pure trivial

theorem objectValueOf_safe (receiver : Value) (arguments : List Value) :
    C.Safe (objectValueOf receiver arguments) :=
  (toObject_safe lawful receiver).bind fun _ => .pure trivial

/-! ### Functions -/

theorem receiverFunction_safe (method : String) (receiver : Value) :
    C.Safe (receiverFunction method receiver) := by
  unfold receiverFunction
  split
  · refine .asking fun callable => ?_
    split
    · exact .pure trivial
    · exact lawful.fail _
  · exact lawful.fail _

theorem functionToString_safe (receiver : Value) (arguments : List Value) :
    C.Safe (functionToString receiver arguments) :=
  (receiverFunction_safe lawful _ receiver).bind fun _ => .asking fun _ => .pure trivial

/-! ### Arrays -/

theorem array_safe (receiver : Value) (arguments : List Value) :
    C.Safe (array receiver arguments) := by
  unfold array
  split
  · split
    · split
      · refine (newArray_safe lawful []).bind fun o => ?_
        exact (lawful.define o "length" _).bind fun _ => .pure trivial
      · exact lawful.fail _
    · split
      · exact (newArray_safe lawful []).bind fun _ => .pure trivial
      · exact lawful.fail _
  · exact (newArrayOf_safe lawful _).bind fun _ => .pure trivial

omit lawful in
theorem arrayIsArray_safe (receiver : Value) (arguments : List Value) :
    C.Safe (arrayIsArray receiver arguments) := by
  unfold arrayIsArray
  split
  · exact .asking fun _ => .pure trivial
  · exact .pure trivial

omit lawful in
theorem errorPrototypeFor_safe (kind : Option ErrorKind) (receiver : Value) :
    C.Safe (errorPrototypeFor kind receiver) := by
  unfold errorPrototypeFor
  split
  · exact .asking fun _ => .pure trivial
  · exact .pure trivial

/-! ### Functions that use services -/

variable {services : Services} (keep : services.Keep C)

include keep

theorem described_safe (o : ObjectId) (key : String) : C.Safe (described services o key) := by
  refine .asking fun present => ?_
  split
  · exact (getOwn_safe lawful keep.call o key).map
  · exact .pure trivial

theorem describedProperty_safe (o : ObjectId) : C.Safe (describedProperty services o) := by
  have part := described_safe lawful keep o
  have accessor : ∀ (role : AccessorRole) (value : Option Value),
      C.Safe (value.mapM (describedAccessor role)) := by
    intro role value
    cases value with
    | none => exact .pure trivial
    | some value => exact (describedAccessor_safe lawful role value).map
  refine (part _).bind fun enumerable => (part _).bind fun configurable => ?_
  refine (part _).bind fun value => (part _).bind fun writable => ?_
  refine (part _).bind fun getter => (accessor .getter getter).bind fun getter => ?_
  refine (part _).bind fun setter => (accessor .setter setter).bind fun setter => ?_
  extract_lets d
  split
  · exact lawful.fail _
  · exact .pure trivial

theorem objectDefineProperty_safe (receiver : Value) (arguments : List Value) :
    C.Safe (objectDefineProperty services receiver arguments) := by
  unfold objectDefineProperty
  generalize argument arguments 0 = target
  cases target with
  | object o =>
    refine (toKey_safe lawful keep.call _).bind fun key => ?_
    split
    next description _ =>
      refine (describedProperty_safe lawful keep description).bind fun d => ?_
      exact (defineOrFail_safe lawful o key d).bind fun _ => .pure trivial
    · exact lawful.fail _
  | _ => exact lawful.fail _

theorem hasOwnProperty_safe (receiver : Value) (arguments : List Value) :
    C.Safe (hasOwnProperty services receiver arguments) :=
  (toKey_safe lawful keep.call _).bind fun _ =>
    (toObject_safe lawful receiver).bind fun _ => .asking fun _ => .pure trivial

theorem texts_safe (values : List Value) : C.Safe (texts services values) := by
  induction values with
  | nil => exact .pure trivial
  | cons value rest ih =>
    exact (toText_safe lawful keep.call value).bind fun _ => ih.bind fun _ => .pure trivial

/-- What the `Function` constructor runs has been compiled. -/
theorem function_safe (receiver : Value) (arguments : List Value) :
    C.Safe (function services receiver arguments) := by
  refine Safe.bind .compiling fun _ => (texts_safe lawful keep arguments).bind fun given => ?_
  extract_lets source
  split
  · split
    · exact lawful.fail _
    · exact lawful.fail _
  next program compiled =>
    refine (keep.run ⟨_, _, compiled⟩ _).bind fun completion => ?_
    split
    · exact lawful.throw _
    · exact .pure trivial

theorem functionCall_safe (receiver : Value) (arguments : List Value) :
    C.Safe (functionCall services receiver arguments) :=
  (receiverFunction_safe lawful _ receiver).bind
    fun _ => callValue_safe lawful keep.call _ _ arguments.tail

theorem elementsOf_safe (list : ObjectId) : C.Safe (elementsOf services list) := by
  refine (getOwn_safe lawful keep.call list "length").bind fun value => ?_
  refine (toNumber_safe lawful keep.call value).bind fun length => ?_
  extract_lets count
  split
  · exact lawful.fail _
  · exact collect_safe (fun index => getOwn_safe lawful keep.call list _) [] 0 count

theorem functionApply_safe (receiver : Value) (arguments : List Value) :
    C.Safe (functionApply services receiver arguments) := by
  refine (receiverFunction_safe lawful _ receiver).bind fun f => ?_
  have called := callValue_safe lawful keep.call (.object f) (argument arguments 0)
  split
  · exact called []
  · exact called []
  · exact (elementsOf_safe lawful keep _).bind called
  · exact (lawful.fail (Q := fun _ => True) _).bind fun spread _ => called spread

theorem lengthOf_safe (o : ObjectId) : C.Safe (lengthOf services o) :=
  (getOwn_safe lawful keep.call o "length").bind
    fun value => (toNumber_safe lawful keep.call value).bind fun _ => .pure trivial

theorem elementText_safe (value : Value) : C.Safe (elementText services value) := by
  unfold elementText
  split
  · exact .pure trivial
  · exact .pure trivial
  · exact toText_safe lawful keep.call value

theorem joinFrom_safe (o : ObjectId) (separator joined : String) (index count : Nat) :
    C.Safe (joinFrom services o separator joined index count) := by
  induction count generalizing joined index with
  | zero => exact .pure trivial
  | succ count ih =>
    unfold joinFrom
    extract_lets separated
    refine (getOwn_safe lawful keep.call o _).bind fun element => ?_
    refine (elementText_safe lawful keep element).bind fun text => ?_
    extract_lets joined
    split
    · exact lawful.fail _
    · exact ih _ _

theorem arrayJoin_safe (receiver : Value) (arguments : List Value) :
    C.Safe (arrayJoin services receiver arguments) := by
  refine (toObject_safe lawful receiver).bind fun o => ?_
  refine (lengthOf_safe lawful keep o).bind fun length => ?_
  have joined : ∀ separator : String, C.Safe (do
      if maxJoined < (length - 1) * separator.utf8ByteSize then fail .textLength
      else return .string (← joinFrom services o separator "" 0 length) : Evaluation Value) := by
    intro separator
    split
    · exact lawful.fail _
    · exact (joinFrom_safe lawful keep o separator "" 0 length).bind fun _ => .pure trivial
  split
  · exact joined ","
  · exact (toText_safe lawful keep.call _).bind joined

theorem pushEach_safe (o : ObjectId) (length : Nat) (values : List Value) :
    C.Safe (pushEach services o length values) := by
  induction values generalizing length with
  | nil => exact .pure trivial
  | cons value rest ih =>
    refine (set_safe lawful keep.call o _ value _).bind fun written => ?_
    split
    · exact ih (length + 1)
    · exact lawful.fail _

theorem arrayPush_safe (receiver : Value) (arguments : List Value) :
    C.Safe (arrayPush services receiver arguments) := by
  refine (toObject_safe lawful receiver).bind fun o => ?_
  refine (lengthOf_safe lawful keep o).bind fun start => ?_
  refine (pushEach_safe lawful keep o start arguments).bind fun length => ?_
  refine (set_safe lawful keep.call o "length" _ _).bind fun written => ?_
  split
  · exact .pure trivial
  · exact lawful.fail _

/-! ### Errors and numbers -/

theorem error_safe (kind : Option ErrorKind) (receiver : Value) (arguments : List Value) :
    C.Safe (error services kind receiver arguments) := by
  refine (errorPrototypeFor_safe kind receiver).bind fun prototype => ?_
  have made : ∀ message, C.Safe (do
      return .object (← allocate (errorObject prototype message)
        (Object.wellFormed_of_not_array rfl)) : Evaluation Value) :=
    fun message => (lawful.allocate _ rfl).bind fun _ => .pure trivial
  split
  · exact made none
  · exact (toText_safe lawful keep.call _).map.bind made

theorem errorPart_safe (receiver : Value) (key default : String) :
    C.Safe (errorPart services receiver key default) := by
  refine (getV_safe lawful keep.call receiver key).bind fun part => ?_
  split
  · exact .pure trivial
  · exact toText_safe lawful keep.call part

theorem errorToString_safe (receiver : Value) (arguments : List Value) :
    C.Safe (errorToString services receiver arguments) := by
  unfold errorToString
  split
  · exact lawful.fail _
  · refine (errorPart_safe lawful keep receiver "name" "Error").bind fun name => ?_
    exact (errorPart_safe lawful keep receiver "message" "").bind fun _ => .pure trivial

theorem choose_safe (pick : Number → Number → Number) (best : Number) (values : List Value) :
    C.Safe (choose services pick best values) := by
  induction values generalizing best with
  | nil => exact .pure trivial
  | cons value rest ih => exact (toNumber_safe lawful keep.call value).bind fun n => ih _

theorem ofOne_safe (f : Number → Number) (arguments : List Value) :
    C.Safe (ofOne services f arguments) :=
  (toNumber_safe lawful keep.call _).bind fun _ => .pure trivial

theorem math_safe (function : MathFunction) (receiver : Value) (arguments : List Value) :
    C.Safe (math services function receiver arguments) := by
  cases function with
  | log | abs | floor | ceil | sqrt => exact ofOne_safe lawful keep _ arguments
  | pow =>
    exact (toNumber_safe lawful keep.call _).bind
      fun _ => (toNumber_safe lawful keep.call _).bind fun _ => .pure trivial
  | max | min => exact (choose_safe lawful keep _ _ arguments).bind fun _ => .pure trivial

theorem isNaN_safe (receiver : Value) (arguments : List Value) :
    C.Safe (isNaN services receiver arguments) :=
  (toNumber_safe lawful keep.call _).bind fun _ => .pure trivial

/-! ### Host functions -/

theorem sumFrom_safe (total : Number) (values : List Value) :
    C.Safe (sumFrom services total values) := by
  induction values generalizing total with
  | nil => exact .pure trivial
  | cons value rest ih => exact (toNumber_safe lawful keep.call value).bind fun n => ih _

theorem host_safe {function : HostFunction}
    (faults : function = .fault → ∀ fault, C.raised (.fault fault)) (receiver : Value)
    (arguments : List Value) : C.Safe (host services function receiver arguments) := by
  have text := toText_safe lawful keep.call (argument arguments 0)
  cases function with
  | sum => exact (sumFrom_safe lawful keep .zero arguments).bind fun _ => .pure trivial
  | receiver => exact .pure trivial
  | arguments => exact (newArrayOf_safe lawful arguments).bind fun _ => .pure trivial
  | typeOf => exact .asking fun _ => .pure trivial
  | string => exact text.bind fun _ => .pure trivial
  | depth => exact .askingControl fun _ => .pure trivial
  | call => exact callValue_safe lawful keep.call _ _ _
  | construct => exact construct_safe lawful keep.call _ _
  | throw => exact lawful.throw _
  | fault => exact text.bind fun _ => .raise (faults rfl _)
  | raise kind => exact text.bind fun _ => lawful.fail _
  | print => exact .asking fun line => (lawful.print line).bind fun _ => .pure trivial

/-- Every native function keeps the contract, if the one that fails on purpose may fail. -/
theorem perform_safe {behaviour : Native}
    (faults : behaviour = .host .fault → ∀ fault, C.raised (.fault fault)) (receiver : Value)
    (arguments : List Value) : C.Safe (perform services behaviour receiver arguments) := by
  cases behaviour with
  | nothing => exact .pure trivial
  | object => exact object_safe lawful receiver arguments
  | objectKeys => exact objectKeys_safe lawful receiver arguments
  | objectFreeze => exact objectFreeze_safe lawful receiver arguments
  | objectIsFrozen => exact objectIsFrozen_safe receiver arguments
  | objectDefineProperty => exact objectDefineProperty_safe lawful keep receiver arguments
  | objectGetPrototypeOf => exact objectGetPrototypeOf_safe lawful receiver arguments
  | hasOwnProperty => exact hasOwnProperty_safe lawful keep receiver arguments
  | objectToString => exact objectToString_safe receiver arguments
  | objectValueOf => exact objectValueOf_safe lawful receiver arguments
  | function => exact function_safe lawful keep receiver arguments
  | functionCall => exact functionCall_safe lawful keep receiver arguments
  | functionApply => exact functionApply_safe lawful keep receiver arguments
  | functionToString => exact functionToString_safe lawful receiver arguments
  | array => exact array_safe lawful receiver arguments
  | arrayIsArray => exact arrayIsArray_safe receiver arguments
  | arrayJoin => exact arrayJoin_safe lawful keep receiver arguments
  | arrayPush => exact arrayPush_safe lawful keep receiver arguments
  | arrayToString => exact arrayJoin_safe lawful keep receiver []
  | error kind => exact error_safe lawful keep kind receiver arguments
  | errorToString => exact errorToString_safe lawful keep receiver arguments
  | math function => exact math_safe lawful keep function receiver arguments
  | isNaN => exact isNaN_safe lawful keep receiver arguments
  | host function =>
    exact (host_safe lawful keep (fun eq => faults (congrArg Native.host eq)) receiver
      arguments).reporting

end Library

end ScriptEngine
