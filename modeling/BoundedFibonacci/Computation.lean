import BoundedFibonacci.Error
import BoundedFibonacci.Observer

namespace BoundedFibonacci

structure Run (w : Width) (σ : Type) where
  result : Except Error (Word w)
  state : σ
  log : List Event

def OverflowPolicy.add {w : Width} (policy : OverflowPolicy) (a b : Word w) : Option (Word w) :=
  match policy with
  | .error => a.checkedAdd b
  | .wrapping => some (a.wrappingAdd b)
  | .saturating => some (a.saturatingAdd b)

inductive Accepted (w : Width) where
  | value (v : Word w)
  | place (n : Nat)

namespace Settings

variable {w : Width} {σ : Type}

def accept (c : Settings) (w : Width) (n : Int64) : Except Error (Accepted w) :=
  if n.toInt < 0 then
    match c.negative with
    | .reject => .error (.negativeIndex n.toInt)
    | .passThrough =>
      match Word.ofIndex? w n with
      | some v => .ok (.value v)
      | none => .error (.notRepresentable n.toInt w)
  else
    match c.maxIndex with
    | some bound =>
      if bound.toNat < n.toInt.toNat then .error (.exceedsMaxIndex n.toInt bound)
      else .ok (.place n.toInt.toNat)
    | none => .ok (.place n.toInt.toNat)

def isSaturated (c : Settings) (v : Word w) : Bool := c.overflow = .saturating && v = .max

def stepEvents (c : Settings) (own : List Event) (step : Step w) : List Event :=
  if c.trace.enabled then own ++ ((Observer.tracer c.trace.priority).onStep () step).2 else own

def advance (c : Settings) (obs : Observer w σ) (n : Nat) :
    (left index : Nat) → (prev curr : Word w) → σ → List Event → Run w σ
  -- The log is carried newest first.
  | 0, _, _, curr, s, log => ⟨.ok curr, s, log.reverse⟩
  | left + 1, index, prev, curr, s, log =>
    match c.overflow.add prev curr with
    | none => ⟨.error (.overflow n w), s, (.overflowed n index w :: log).reverse⟩
    | some next =>
      let step : Step w := ⟨index, curr, next⟩
      let seen := obs.onStep s step
      let log := (c.stepEvents seen.2 step).reverse ++ log
      if c.isSaturated next then ⟨.ok next, seen.1, (.saturated n index :: log).reverse⟩
      else advance c obs n left (index + 1) curr next seen.1 log

def computeWith (c : Settings) (obs : Observer w σ) (s : σ) (n : Int64) : Run w σ :=
  let log := [Event.started n.toInt w c.overflow]
  match c.accept w n with
  | .error e => ⟨.error e, s, log⟩
  | .ok (.value v) => ⟨.ok v, s, log⟩
  | .ok (.place 0) => ⟨.ok .zero, s, log⟩
  | .ok (.place (k + 1)) => c.advance obs (k + 1) k 2 .zero .one s log

def compute (c : Settings) (w : Width) (n : Int64) : Run w Unit := c.computeWith .silent () n

def describeComputer (c : Settings) : String := Text.record "FibonacciComputer" [("config", c.describe)]

end Settings

def fibonacci (n : UInt64) : Run .u64 Unit :=
  if n.toNat ≤ Int64.maxValue.toInt then ({} : Settings).compute .u64 (Int64.ofNat n.toNat)
  -- No number this far out fits, so none is computed.
  else ⟨.error (.overflow n.toNat .u64), (), []⟩

end BoundedFibonacci
