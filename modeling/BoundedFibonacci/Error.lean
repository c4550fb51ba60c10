import BoundedFibonacci.Text.Quoted
import BoundedFibonacci.Text.Record
import BoundedFibonacci.Width

namespace BoundedFibonacci

inductive Error where
  | invalidInput (index : Int) (reason : String)
  | overflow (index : Nat) (width : Width)
  | config (reason : String)
  | io (reason : String)
  deriving DecidableEq, Repr

namespace Error

def negativeIndex (index : Int) : Error := .invalidInput index "negative index"

def notRepresentable (index : Int) (w : Width) : Error :=
  .invalidInput index ("not representable in " ++ w.name)

def exceedsMaxIndex (index : Int) (bound : UInt64) : Error :=
  .invalidInput index ("exceeds max_index " ++ toString bound)

def message : Error → String
  | .invalidInput index reason => "Invalid input: index " ++ toString index ++ " - " ++ reason
  | .overflow index w => "Overflow: F(" ++ toString index ++ ") does not fit in " ++ w.name
  | .config reason => "Configuration error: " ++ reason
  | .io reason => "IO error: " ++ reason

def isUserFacing : Error → Bool
  | .invalidInput .. | .overflow .. => true
  | .config _ | .io _ => false

def isRetryable (_ : Error) : Bool := false

def hasCause : Error → Bool
  | .io _ => true
  | _ => false

def describe? : Error → Option String
  | .invalidInput index reason =>
    some (Text.record "InvalidInput" [("index", toString index), ("reason", Text.quoted reason)])
  | .overflow index w =>
    some (Text.record "Overflow" [("index", toString index), ("width", Text.quoted w.name)])
  | .config reason => some (Text.wrapped "Config" (Text.quoted reason))
  | .io _ => none

end Error

end BoundedFibonacci
