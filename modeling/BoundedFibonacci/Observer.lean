import BoundedFibonacci.Event
import BoundedFibonacci.Step

namespace BoundedFibonacci

structure Observer (w : Width) (σ : Type) where
  onStep : σ → Step w → σ × List Event

namespace Observer

variable {w : Width} {σ τ : Type}

def silent : Observer w Unit := ⟨fun s _ => (s, [])⟩

def ofFun (f : σ → Step w → σ) : Observer w σ := ⟨fun s step => (f s step, [])⟩

def tracer (priority : Priority) : Observer w Unit :=
  ⟨fun s step => (s, [.step priority step.index step.prev.toInt step.curr.toInt])⟩

@[simp] theorem events_tracer (priority : Priority) (s : Unit) (step : Step w) :
    ((tracer priority).onStep s step).2 = [.step priority step.index step.prev.toInt step.curr.toInt] := rfl

def recorder : Observer w (Array (Step w)) := ofFun Array.push

def sum (add : Word w → Word w → Word w) (part : Step w → Word w) : Observer w (Word w) :=
  ofFun fun total step => add total (part step)

def counter : Observer w Nat := ofFun fun n _ => n + 1

def chain (a : Observer w σ) (b : Observer w τ) : Observer w (σ × τ) where
  onStep s step :=
    let x := a.onStep s.1 step
    let y := b.onStep s.2 step
    ((x.1, y.1), x.2 ++ y.2)

def describeRecorder (steps : Array (Step w)) : String :=
  Text.record "RecordingObserver" [("steps", Text.listed (steps.toList.map Step.describe))]

def describeChain (first second : String) : String :=
  Text.record "ChainObserver" [("first", first), ("second", second)]

end Observer

end BoundedFibonacci
