import BoundedFibonacci.Policy
import BoundedFibonacci.Text.Record

namespace BoundedFibonacci

structure Trace where
  enabled : Bool := false
  priority : Priority := .normal
  deriving DecidableEq, Repr, Inhabited

structure Settings where
  negative : NegativePolicy := .reject
  overflow : OverflowPolicy := .error
  maxIndex : Option UInt64 := none
  trace : Trace := {}
  deriving DecidableEq, Repr, Inhabited

structure Overlay where
  negative : Option NegativePolicy := none
  overflow : Option OverflowPolicy := none
  maxIndex : Option UInt64 := none
  trace : Option Trace := none
  deriving DecidableEq, Repr, Inhabited

namespace Trace

def active (priority : Priority) : Trace := ⟨true, priority⟩

def describe (t : Trace) : String :=
  Text.record "TraceConfig"
    [("enabled", toString t.enabled), ("priority", Choice.label t.priority)]

end Trace

namespace Settings

def merge (s : Settings) (o : Overlay) : Settings where
  negative := o.negative.getD s.negative
  overflow := o.overflow.getD s.overflow
  maxIndex := o.maxIndex.or s.maxIndex
  trace := o.trace.getD s.trace

def withNegative (s : Settings) (policy : NegativePolicy) : Settings := { s with negative := policy }

def withOverflow (s : Settings) (policy : OverflowPolicy) : Settings := { s with overflow := policy }

def withMaxIndex (s : Settings) (bound : UInt64) : Settings := { s with maxIndex := some bound }

def withTrace (s : Settings) (priority : Priority) : Settings := { s with trace := .active priority }

def toOverlay (s : Settings) : Overlay := ⟨some s.negative, some s.overflow, s.maxIndex, some s.trace⟩

@[simp] theorem merge_empty (s : Settings) : s.merge {} = s := by
  simp [merge]

theorem merge_toOverlay (s t : Settings) :
    s.merge t.toOverlay = { t with maxIndex := t.maxIndex.or s.maxIndex } := rfl

def describe (s : Settings) : String :=
  Text.record "ComputeConfig"
    [("negative", Choice.label s.negative), ("overflow", Choice.label s.overflow),
      ("max_index", Text.optional (s.maxIndex.map toString)), ("trace", s.trace.describe)]

end Settings

def Overlay.describe (o : Overlay) : String :=
  Text.record "ComputeConfigFile"
    [("negative", Text.optional (o.negative.map Choice.label)),
      ("overflow", Text.optional (o.overflow.map Choice.label)),
      ("max_index", Text.optional (o.maxIndex.map toString)),
      ("trace", Text.optional (o.trace.map Trace.describe))]

end BoundedFibonacci
