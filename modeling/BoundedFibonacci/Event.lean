import BoundedFibonacci.Settings.Basic
import BoundedFibonacci.Width

namespace BoundedFibonacci

inductive Level where
  | error | warn | info | debug | trace
  deriving DecidableEq, Repr

namespace Level

def rank : Level → Nat
  | .error => 0
  | .warn => 1
  | .info => 2
  | .debug => 3
  | .trace => 4

def admits (threshold level : Level) : Bool := level.rank ≤ threshold.rank

def label : Level → String
  | .error => "ERROR"
  | .warn => "WARN"
  | .info => "INFO"
  | .debug => "DEBUG"
  | .trace => "TRACE"

def ofPriority : Priority → Level
  | .low => .trace
  | .normal => .debug
  | .high => .info

end Level

inductive Event where
  | started (index : Int) (width : Width) (policy : OverflowPolicy)
  | step (priority : Priority) (index : Nat) (prev curr : Int)
  -- The sum at `place` is the one that does not fit; `index` is the number asked for.
  | overflowed (index place : Nat) (width : Width)
  | saturated (index place : Nat)
  | merging (path : String)
  | loaded (settings : Settings)
  | wrote (path : String)
  deriving DecidableEq, Repr

namespace Event

def level : Event → Level
  | .started .. => .debug
  | .step priority .. => .ofPriority priority
  | .overflowed .. => .warn
  | .saturated .. => .debug
  | .merging _ => .trace
  | .loaded _ => .debug
  | .wrote _ => .debug

def stepTarget : String := "fibcalc::step"

def target : Event → String
  | .step .. => stepTarget
  | .started .. | .overflowed .. | .saturated .. => "fib_core::compute::computer"
  | .merging _ | .loaded _ => "fib_foundation::config::compute"
  | .wrote _ => "fib_foundation::storage::config_store"

def message : Event → String
  | .started .. => "computing fibonacci"
  | .step .. => "fibonacci step"
  | .overflowed .. => "fibonacci value overflowed"
  | .saturated .. => "saturated, stopping early"
  | .merging _ => "merging compute config"
  | .loaded _ => "loaded compute config"
  | .wrote _ => "wrote compute config"

def fields : Event → List (String × String)
  | .started index w policy =>
    [("index", toString index), ("width", w.name), ("overflow", Choice.word policy)]
  | .step _ index prev curr =>
    [("index", toString index), ("prev", toString prev), ("curr", toString curr)]
  | .overflowed index place w =>
    [("index", toString index), ("step", toString place), ("width", w.name)]
  | .saturated index place => [("index", toString index), ("step", toString place)]
  | .merging path => [("path", path)]
  | .loaded s =>
    [("negative", Choice.label s.negative), ("overflow", Choice.word s.overflow),
      ("max_index", Text.optional (s.maxIndex.map toString)), ("trace", toString s.trace.enabled)]
  | .wrote path => [("path", path)]

end Event

end BoundedFibonacci
