import ScriptEngine.Library.Basic

/-!
# Host functions
-/
namespace ScriptEngine.Library

open Evaluation Operation

variable (services : Services)

/-- The sum of values as numbers. -/
def sumFrom (total : Number) : List Value → Evaluation Number
  | [] => return total
  | value :: rest => do sumFrom (total.add (← toNumber services.call value)) rest

def host (function : HostFunction) : NativeBody := fun receiver arguments => do
  let first := argument arguments 0
  match function with
  | .sum => return .number (← sumFrom services .zero arguments)
  | .receiver => return receiver
  | .arguments => return .object (← newArrayOf arguments)
  | .typeOf => return .string (← ask (·.typeOf first))
  | .string => return .string (← toText services.call first)
  | .depth => return .ofNat (← askControl (·.depth))
  | .call => callValue services.call first (argument arguments 1) (arguments.drop 2)
  | .construct => construct services.call first arguments.tail
  | .throw => raise (.thrown first)
  | .fault => raise (.fault (.host (← toText services.call first)))
  | .raise kind => fail (.host kind (← toText services.call first))
  | .print =>
    print (← ask fun s => " ".intercalate (arguments.map s.display))
    return .undefined

end ScriptEngine.Library
