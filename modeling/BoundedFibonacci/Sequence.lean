import BoundedFibonacci.Text.Record
import BoundedFibonacci.Word

namespace BoundedFibonacci

structure Sequence (w : Width) where
  curr : Option (Word w)
  next : Option (Word w)
  deriving DecidableEq

namespace Sequence

variable {w : Width}

def start : Sequence w := ⟨some .zero, some .one⟩

def step (s : Sequence w) : Option (Word w) × Sequence w :=
  match s.curr with
  | none => (none, s)
  | some v => (some v, ⟨s.next, s.next.bind v.checkedAdd⟩)

theorem step_of_ended (s : Sequence w) (h : s.curr = none) : s.step = (none, s) := by
  simp [step, h]

def take : Nat → Sequence w → List (Word w) × Sequence w
  | 0, s => ([], s)
  | k + 1, s =>
    match s.step with
    | (none, s) => ([], s)
    | (some v, s) =>
      let r := take k s
      (v :: r.1, r.2)

def nth : Nat → Sequence w → Option (Word w) × Sequence w
  | 0, s => s.step
  | k + 1, s =>
    match s.step with
    | (none, s) => (none, s)
    | (some _, s) => nth k s

/-- A bound on the values of a width: the numbers at least double every two places. -/
def bound (w : Width) : Nat := 2 * w.bits + 1

def toList (s : Sequence w) : List (Word w) := (s.take (bound w)).1

def drain (s : Sequence w) : Nat × Sequence w :=
  let r := s.take (bound w)
  (r.1.length, r.2)

def count (s : Sequence w) : Nat := s.toList.length

def last? (s : Sequence w) : Option (Word w) := s.toList.getLast?

def max? (s : Sequence w) : Option (Word w) :=
  s.toList.foldl (fun best v => some (best.elim v fun b => if v.toInt < b.toInt then b else v)) none

def stepBy (s : Sequence w) (k : Nat) : List (Word w) :=
  (s.toList.zipIdx.filter fun p => p.2 % k = 0).map Prod.fst

def maxExactIndex (w : Width) : Nat := (start : Sequence w).count - 1

def describe (s : Sequence w) : String :=
  Text.record "FibonacciSequence"
    [("curr", Text.optional (s.curr.map Word.text)), ("next", Text.optional (s.next.map Word.text))]

end Sequence

end BoundedFibonacci
