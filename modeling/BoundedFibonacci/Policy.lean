namespace BoundedFibonacci

/-- A closed choice, listed in the order in which messages name its members. -/
class Choice (α : Type) where
  all : List α
  word : α → String
  label : α → String

namespace Choice

def words (α : Type) [Choice α] : List String := (all : List α).map word

def ofWord? {α : Type} [Choice α] (s : String) : Option α := all.find? (word · = s)

end Choice

inductive NegativePolicy where
  | reject
  | passThrough
  deriving DecidableEq, Repr, Inhabited

instance : Choice NegativePolicy where
  all := [.reject, .passThrough]
  word
    | .reject => "reject"
    | .passThrough => "pass_through"
  label
    | .reject => "Reject"
    | .passThrough => "PassThrough"

inductive OverflowPolicy where
  | error
  | wrapping
  | saturating
  deriving DecidableEq, Repr, Inhabited

instance : Choice OverflowPolicy where
  all := [.error, .wrapping, .saturating]
  word
    | .error => "error"
    | .wrapping => "wrapping"
    | .saturating => "saturating"
  label
    | .error => "Error"
    | .wrapping => "Wrapping"
    | .saturating => "Saturating"

inductive Priority where
  | low
  | normal
  | high
  deriving DecidableEq, Repr

instance : Choice Priority where
  all := [.low, .normal, .high]
  word
    | .low => "low"
    | .normal => "normal"
    | .high => "high"
  label
    | .low => "Low"
    | .normal => "Normal"
    | .high => "High"

namespace Priority

instance : Inhabited Priority := ⟨.normal⟩

def rank : Priority → Nat
  | .low => 0
  | .normal => 1
  | .high => 2

instance : Ord Priority := ⟨fun a b => compare a.rank b.rank⟩

instance : Max Priority := ⟨fun a b => if b.rank < a.rank then a else b⟩

end Priority

end BoundedFibonacci
