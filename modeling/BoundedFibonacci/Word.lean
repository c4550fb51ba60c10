import BoundedFibonacci.Width

namespace BoundedFibonacci

structure Word (w : Width) where
  bits : BitVec w.bits
  deriving DecidableEq

namespace Word

variable {w : Width}

def toInt (a : Word w) : Int := if w.signed then a.bits.toInt else a.bits.toNat

def ofInt (w : Width) (n : Int) : Word w := ⟨BitVec.ofInt w.bits n⟩

def ofInt? (w : Width) (n : Int) : Option (Word w) :=
  if w.least ≤ n ∧ n ≤ w.greatest then some (ofInt w n) else none

def ofIndex? (w : Width) (n : Int64) : Option (Word w) := ofInt? w n.toInt

def zero : Word w := ⟨0#w.bits⟩

def one : Word w := ⟨1#w.bits⟩

def min : Word w := ⟨if w.signed then BitVec.intMin w.bits else 0#w.bits⟩

def max : Word w := ⟨if w.signed then BitVec.intMax w.bits else BitVec.allOnes w.bits⟩

def addOverflows (a b : Word w) : Bool :=
  if w.signed then BitVec.saddOverflow a.bits b.bits else BitVec.uaddOverflow a.bits b.bits

def wrappingAdd (a b : Word w) : Word w := ⟨a.bits + b.bits⟩

def checkedAdd (a b : Word w) : Option (Word w) :=
  if addOverflows a b then none else some (wrappingAdd a b)

def saturatingAdd (a b : Word w) : Word w :=
  if addOverflows a b then
    if w.signed && a.bits.msb then min else max
  else wrappingAdd a b

def text (a : Word w) : String := toString a.toInt

end Word

end BoundedFibonacci
