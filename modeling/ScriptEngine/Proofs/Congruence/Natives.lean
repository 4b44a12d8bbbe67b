import ScriptEngine.Library.Perform
import ScriptEngine.Proofs.Congruence.Operations

/-!
# Native functions keep relations

What a native function does is put together of operations on values, so that it is related to itself
if the calls that it makes are related. The constructor of functions runs whole scripts besides, and
it is left to each relation to say what these are.
-/
namespace ScriptEngine.Library

open Evaluation Congruence Operation

variable {R : Congruence}

theorem collect_related {α : Type} {item item' : Nat → Evaluation α}
    (each : ∀ index, R.Holds (item index) (item' index)) (collected : List α)
    (index count : Nat) :
    R.Holds (collect item collected index count) (collect item' collected index count) := by
  induction count generalizing collected index with
  | zero => exact .pure _
  | succ count ih => exact .bind (each index) fun _ => ih _ _

/-! ### Native functions that call nothing -/

theorem object_related (receiver : Value) (arguments : List Value) :
    R.Covers (object receiver arguments) := by
  unfold object
  dsimp only
  split
  · exact .returning (newObject_related _)
  · exact .returning (toObject_related _)

theorem objectKeys_related (receiver : Value) (arguments : List Value) :
    R.Covers (objectKeys receiver arguments) :=
  .bind (toObject_related _) fun _ => .asking fun _ => .returning (newArray_related _)

theorem objectFreeze_related (receiver : Value) (arguments : List Value) :
    R.Covers (objectFreeze receiver arguments) := by
  unfold objectFreeze
  dsimp only
  split
  · refine .asking fun keys => .bind (.forM fun key _ => ?_) fun _ => ?_
    · exact .asking fun _ => defineOrFail_related _ key _
    · exact .bind (R.step _ _) fun _ => .pure _
  · exact .pure _

theorem objectIsFrozen_related (receiver : Value) (arguments : List Value) :
    R.Covers (objectIsFrozen receiver arguments) := by
  unfold objectIsFrozen
  split
  · exact .asking fun _ => .pure _
  · exact .pure _

theorem objectGetPrototypeOf_related (receiver : Value) (arguments : List Value) :
    R.Covers (objectGetPrototypeOf receiver arguments) :=
  .bind (toObject_related _) fun _ => .asking fun _ => .pure _

theorem classOf_related (value : Value) : R.Covers (classOf value) := by
  cases value with
  | object o => exact R.ask fun s => (s.object o).kind.className
  | _ => exact .pure _

theorem describedAccessor_related (role : AccessorRole) (value : Value) :
    R.Covers (describedAccessor role value) := by
  cases value with
  | undefined => exact .pure _
  | object f =>
    refine .asking fun callable => ?_
    cases callable with
    | true => exact .pure _
    | false => exact .asking fun _ => .fail _
  | _ => exact .asking fun _ => .fail _

theorem receiverFunction_related (method : String) (receiver : Value) :
    R.Covers (receiverFunction method receiver) := by
  cases receiver with
  | object f =>
    refine .asking fun callable => ?_
    cases callable with
    | true => exact .pure _
    | false => exact .fail _
  | _ => exact .fail _

theorem functionToString_related (receiver : Value) (arguments : List Value) :
    R.Covers (functionToString receiver arguments) :=
  .bind (receiverFunction_related _ _) fun _ => .asking fun _ => .pure _

theorem array_related (receiver : Value) (arguments : List Value) :
    R.Covers (array receiver arguments) := by
  unfold array
  split
  next n =>
    split
    · split
      · exact .bind (newArray_related []) fun _ => .bind (.define _ _ _) fun _ => .pure _
      · exact .fail _
    · split
      · exact .returning (newArray_related [])
      · exact .fail _
  · exact .returning (newArray_related _)

theorem arrayIsArray_related (receiver : Value) (arguments : List Value) :
    R.Covers (arrayIsArray receiver arguments) := by
  unfold arrayIsArray
  split
  · exact .asking fun _ => .pure _
  · exact .pure _

theorem errorPrototypeFor_related (kind : Option ErrorKind) (receiver : Value) :
    R.Covers (errorPrototypeFor kind receiver) := by
  cases receiver with
  | object o => exact .asking fun _ => .pure _
  | _ => exact .pure _

/-! ### Native functions that call others -/

variable {services services' : Services} (calls : R.Callers services.call services'.call)

include calls

theorem described_related (o : ObjectId) (key : String) :
    R.Holds (described services o key) (described services' o key) := by
  refine .asking fun there => ?_
  cases there with
  | true => exact .map (getOwn_related calls o key)
  | false => exact .pure _

theorem describedProperty_related (o : ObjectId) :
    R.Holds (describedProperty services o) (describedProperty services' o) := by
  have described := described_related calls o
  have accessor : ∀ role (given : Option Value),
      R.Covers (given.mapM (describedAccessor role)) := by
    intro role given
    cases given with
    | none => exact .pure _
    | some value => exact .map (describedAccessor_related role value)
  refine .bind (described _) fun enumerable => .bind (described _) fun configurable => ?_
  refine .bind (described _) fun value => .bind (described _) fun writable => ?_
  refine .bind (described _) fun getter => .bind (accessor _ getter) fun getter => ?_
  refine .bind (described _) fun setter => .bind (accessor _ setter) fun setter => ?_
  dsimp only
  split
  · exact .fail _
  · exact .pure _

theorem objectDefineProperty_related (receiver : Value) (arguments : List Value) :
    R.Holds (objectDefineProperty services receiver arguments)
      (objectDefineProperty services' receiver arguments) := by
  unfold objectDefineProperty
  dsimp only
  cases argument arguments 0 with
  | object o =>
    refine .bind (toKey_related calls _) fun key => ?_
    cases argument arguments 2 with
    | object description =>
      exact .bind (describedProperty_related calls description) fun d =>
        .returning (defineOrFail_related o key d)
    | _ => exact .fail _
  | _ => exact .fail _

theorem hasOwnProperty_related (receiver : Value) (arguments : List Value) :
    R.Holds (hasOwnProperty services receiver arguments)
      (hasOwnProperty services' receiver arguments) :=
  .bind (toKey_related calls _) fun _ =>
    .bind (toObject_related receiver) fun _ => .asking fun _ => .pure _

/-! ### Functions -/

theorem texts_related (arguments : List Value) :
    R.Holds (texts services arguments) (texts services' arguments) := by
  induction arguments with
  | nil => exact .pure _
  | cons value rest ih => exact .bind (toText_related calls value) fun _ => .returning ih

/-- The constructor of functions runs what it compiles in the global environment. -/
theorem function_related (runs : ∀ tree, R.Holds (services.run tree WellKnown.globalEnvironment)
      (services'.run tree WellKnown.globalEnvironment)) (receiver : Value)
    (arguments : List Value) :
    R.Holds (function services receiver arguments) (function services' receiver arguments) := by
  refine .bind R.compiling fun _ => .bind (texts_related calls arguments) fun given => ?_
  dsimp only
  cases Program.compile _ "anonymous" false with
  | error e =>
    dsimp only
    cases e.diagnostics <;> exact .fail _
  | ok program =>
    refine .bind (runs program.tree) fun completion => ?_
    cases completion with
    | throws => exact .raise _
    | _ => exact .pure _

theorem functionCall_related (receiver : Value) (arguments : List Value) :
    R.Holds (functionCall services receiver arguments)
      (functionCall services' receiver arguments) :=
  .bind (receiverFunction_related _ _) fun _ => callValue_related calls _ _ _

theorem elementsOf_related (list : ObjectId) :
    R.Holds (elementsOf services list) (elementsOf services' list) := by
  have reads := fun key => getOwn_related calls list key
  refine .bind (reads "length") fun given => .bind (toNumber_related calls given) fun length => ?_
  dsimp only
  split
  · exact .fail _
  · exact collect_related (fun index => reads _) [] 0 _

theorem functionApply_related (receiver : Value) (arguments : List Value) :
    R.Holds (functionApply services receiver arguments)
      (functionApply services' receiver arguments) := by
  refine .bind (receiverFunction_related _ _) fun f => ?_
  have called := fun spread =>
    callValue_related calls (.object f) (argument arguments 0) spread
  dsimp only
  cases argument arguments 1 with
  | undefined | null => exact called []
  | object list => exact .bind (elementsOf_related calls list) called
  | _ => exact .fail _

/-! ### Arrays -/

theorem lengthOf_related (o : ObjectId) :
    R.Holds (lengthOf services o) (lengthOf services' o) :=
  .bind (getOwn_related calls o "length") fun length => .returning (toNumber_related calls length)

theorem elementText_related (element : Value) :
    R.Holds (elementText services element) (elementText services' element) := by
  cases element with
  | undefined | null => exact .pure _
  | _ => exact toText_related calls _

theorem joinFrom_related (o : ObjectId) (separator joined : String) (index count : Nat) :
    R.Holds (joinFrom services o separator joined index count)
      (joinFrom services' o separator joined index count) := by
  induction count generalizing joined index with
  | zero => exact .pure _
  | succ count ih =>
    refine .bind (getOwn_related calls o _) fun element => ?_
    refine .bind (elementText_related calls element) fun text => ?_
    generalize (if index = 0 then joined else joined ++ separator) = begun
    dsimp only
    split
    · exact .fail _
    · exact ih _ _

theorem arrayJoin_related (receiver : Value) (arguments : List Value) :
    R.Holds (arrayJoin services receiver arguments) (arrayJoin services' receiver arguments) := by
  refine .bind (toObject_related receiver) fun o => ?_
  refine .bind (lengthOf_related calls o) fun length => ?_
  have joined : ∀ separator : String, R.Holds
      (if maxJoined < (length - 1) * separator.utf8ByteSize then fail .textLength
        else do return Value.string (← joinFrom services o separator "" 0 length))
      (if maxJoined < (length - 1) * separator.utf8ByteSize then fail .textLength
        else do return Value.string (← joinFrom services' o separator "" 0 length)) := by
    intro separator
    split
    · exact .fail _
    · exact .returning (joinFrom_related calls o separator "" 0 length)
  dsimp only
  cases argument arguments 0 with
  | undefined => exact joined ","
  | _ => exact .bind (toText_related calls _) joined

theorem pushEach_related (o : ObjectId) (length : Nat) (values : List Value) :
    R.Holds (pushEach services o length values) (pushEach services' o length values) := by
  induction values generalizing length with
  | nil => exact .pure _
  | cons value rest ih =>
    refine .bind (set_related calls o _ value _) fun written => ?_
    cases written with
    | true => exact ih (length + 1)
    | false => exact .fail _

theorem arrayPush_related (receiver : Value) (arguments : List Value) :
    R.Holds (arrayPush services receiver arguments) (arrayPush services' receiver arguments) := by
  refine .bind (toObject_related receiver) fun o => ?_
  refine .bind (lengthOf_related calls o) fun length => ?_
  refine .bind (pushEach_related calls o length arguments) fun length => ?_
  refine .bind (set_related calls o "length" _ _) fun written => ?_
  cases written with
  | true => exact .pure _
  | false => exact .fail _

/-! ### Errors -/

theorem error_related (kind : Option ErrorKind) (receiver : Value) (arguments : List Value) :
    R.Holds (error services kind receiver arguments) (error services' kind receiver arguments) := by
  refine .bind (errorPrototypeFor_related kind receiver) fun prototype => ?_
  dsimp only
  cases argument arguments 0 with
  | undefined => exact .returning (.allocate _ _)
  | _ => exact .bind (.map (toText_related calls _)) fun _ => .returning (.allocate _ _)

theorem errorPart_related (receiver : Value) (key default : String) :
    R.Holds (errorPart services receiver key default)
      (errorPart services' receiver key default) := by
  refine .bind (getV_related calls receiver key) fun part => ?_
  cases part with
  | undefined => exact .pure _
  | _ => exact toText_related calls _

theorem errorToString_related (receiver : Value) (arguments : List Value) :
    R.Holds (errorToString services receiver arguments)
      (errorToString services' receiver arguments) := by
  unfold errorToString
  split
  · exact .fail _
  · exact .bind (errorPart_related calls receiver "name" "Error")
      fun _ => .returning (errorPart_related calls receiver "message" "")

/-! ### Numbers -/

theorem choose_related (pick : Number → Number → Number) (best : Number) (values : List Value) :
    R.Holds (choose services pick best values) (choose services' pick best values) := by
  induction values generalizing best with
  | nil => exact .pure _
  | cons value rest ih => exact .bind (toNumber_related calls value) fun n => ih _

theorem ofOne_related (f : Number → Number) (arguments : List Value) :
    R.Holds (ofOne services f arguments) (ofOne services' f arguments) :=
  .returning (toNumber_related calls _)

theorem math_related (function : MathFunction) (receiver : Value) (arguments : List Value) :
    R.Holds (math services function receiver arguments)
      (math services' function receiver arguments) := by
  cases function with
  | log | abs | floor | ceil | sqrt => exact ofOne_related calls _ arguments
  | pow =>
    exact .bind (toNumber_related calls _) fun _ => .returning (toNumber_related calls _)
  | max | min => exact .returning (choose_related calls _ _ arguments)

theorem isNaN_related (receiver : Value) (arguments : List Value) :
    R.Holds (isNaN services receiver arguments) (isNaN services' receiver arguments) :=
  .returning (toNumber_related calls _)

/-! ### Functions of the host -/

theorem sumFrom_related (total : Number) (values : List Value) :
    R.Holds (sumFrom services total values) (sumFrom services' total values) := by
  induction values generalizing total with
  | nil => exact .pure _
  | cons value rest ih => exact .bind (toNumber_related calls value) fun n => ih _

theorem host_related (function : HostFunction) (receiver : Value) (arguments : List Value) :
    R.Holds (host services function receiver arguments)
      (host services' function receiver arguments) := by
  cases function with
  | sum => exact .returning (sumFrom_related calls .zero arguments)
  | receiver => exact .pure _
  | arguments => exact .returning (newArray_related _)
  | typeOf => exact .asking fun _ => .pure _
  | depth => exact .returning R.askDepth
  | throw => exact .raise _
  | print => exact .asking fun _ => .bind (R.step _ _) fun _ => .pure _
  | string => exact .returning (toText_related calls _)
  | fault => exact .bind (toText_related calls _) fun _ => .raise _
  | raise => exact .bind (toText_related calls _) fun _ => .fail _
  | call => exact callValue_related calls _ _ _
  | construct => exact construct_related calls _ _

/-! ### All native functions -/

/-- Given what the constructor of functions does, so it is for every native function. -/
theorem perform_related (native : Native) (receiver : Value) (arguments : List Value)
    (constructor : native = .function →
      R.Holds (function services receiver arguments) (function services' receiver arguments)) :
    R.Holds (perform services native receiver arguments)
      (perform services' native receiver arguments) := by
  cases native with
  | nothing => exact .pure _
  | object => exact object_related receiver arguments
  | objectKeys => exact objectKeys_related receiver arguments
  | objectFreeze => exact objectFreeze_related receiver arguments
  | objectIsFrozen => exact objectIsFrozen_related receiver arguments
  | objectDefineProperty => exact objectDefineProperty_related calls receiver arguments
  | objectGetPrototypeOf => exact objectGetPrototypeOf_related receiver arguments
  | hasOwnProperty => exact hasOwnProperty_related calls receiver arguments
  | objectToString => exact .returning (classOf_related receiver)
  | objectValueOf => exact .returning (toObject_related receiver)
  | function => exact constructor rfl
  | functionCall => exact functionCall_related calls receiver arguments
  | functionApply => exact functionApply_related calls receiver arguments
  | functionToString => exact functionToString_related receiver arguments
  | array => exact array_related receiver arguments
  | arrayIsArray => exact arrayIsArray_related receiver arguments
  | arrayJoin => exact arrayJoin_related calls receiver arguments
  | arrayPush => exact arrayPush_related calls receiver arguments
  | arrayToString => exact arrayJoin_related calls receiver []
  | error kind => exact error_related calls kind receiver arguments
  | errorToString => exact errorToString_related calls receiver arguments
  | math function => exact math_related calls function receiver arguments
  | isNaN => exact isNaN_related calls receiver arguments
  | host function => exact R.reporting (host_related calls function receiver arguments)

end ScriptEngine.Library
