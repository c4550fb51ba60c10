import BoundedFibonacci.Text.Record
import BoundedFibonacci.Word

namespace BoundedFibonacci

structure Step (w : Width) where
  index : Nat
  prev : Word w
  curr : Word w
  deriving DecidableEq

namespace Step

variable {w : Width}

def fields (s : Step w) : List (String × String) :=
  [("index", toString s.index), ("prev", s.prev.text), ("curr", s.curr.text)]

def text (s : Step w) : String :=
  "F(" ++ toString s.index ++ ") = " ++ s.curr.text ++ " (prev " ++ s.prev.text ++ ")"

def describe (s : Step w) : String := Text.record "StepState" s.fields

def describeLines (s : Step w) : String := Text.recordLines "StepState" s.fields

end Step

end BoundedFibonacci
