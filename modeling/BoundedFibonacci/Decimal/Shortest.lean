/-!
The shortest decimal that reads back as a given binary floating-point number, and of the shortest the nearest.

A finite nonzero number is `m * 2 ^ q`. The reals that round to it form an interval around it, whose ends belong to it
when `m` is even. On the grid of decimals with a given count of digits only the two neighbours of the number need to
be tried: if any point of the grid lies in the interval, so does one of them.
-/

namespace BoundedFibonacci.Decimal

inductive Tie where
  | upper
  | even
  deriving DecidableEq, Repr

structure Interval where
  low : Nat
  value : Nat
  high : Nat
  scale : Nat
  closed : Bool

/-- The decimal `0.d₁d₂… * 10 ^ point`, where `d₁` is not zero. -/
structure Digits where
  digits : List Char
  point : Int
  deriving DecidableEq, Repr

def Interval.ofBinary (m : Nat) (q : Int) (atPower : Bool) : Interval :=
  -- In quarters of the last bit. Below a power of two the next number is half as far away.
  let num := 1 <<< (q - 2).toNat
  { low := (4 * m - if atPower then 1 else 2) * num
    value := 4 * m * num
    high := (4 * m + 2) * num
    scale := 1 <<< (2 - q).toNat
    closed := m % 2 = 0 }

def leadingZeros (scale : Nat) : Nat → Nat → Nat
  | 0, _ => 0
  | fuel + 1, value => if scale ≤ value * 10 then 0 else leadingZeros scale fuel (value * 10) + 1

def Interval.point (i : Interval) : Int :=
  -- `10 ^ (point - 1) ≤ value / scale < 10 ^ point`
  if i.scale ≤ i.value then (Nat.toDigits 10 (i.value / i.scale)).length
  else -leadingZeros i.scale 400 i.value

def Interval.onGrid (tie : Tie) (i : Interval) (count : Nat) : Option Nat :=
  let up := Nat.pow 10 ((count : Int) - i.point).toNat
  let down := Nat.pow 10 (i.point - count).toNat
  let unit := down * i.scale
  let below := i.value * up / unit
  let inside (c : Nat) : Bool :=
    if i.closed then i.low * up ≤ c * unit && c * unit ≤ i.high * up
    else i.low * up < c * unit && c * unit < i.high * up
  let excess := 2 * (i.value * up - below * unit)
  let takesBelow := excess < unit || (excess = unit && tie = .even && below % 2 = 0)
  match inside below, inside (below + 1) with
  | true, true => some (if takesBelow then below else below + 1)
  | true, false => some below
  | false, true => some (below + 1)
  | false, false => none

def Digits.ofScaled (c : Nat) (exponent : Int) : Digits :=
  let ds := Nat.toDigits 10 c
  ⟨(ds.reverse.dropWhile (· = '0')).reverse, ds.length + exponent⟩

def Interval.shortest (tie : Tie) (i : Interval) : Digits :=
  match (List.range 17).findSome? fun n => (i.onGrid tie (n + 1)).map fun c => (n + 1, c) with
  | some (count, c) => .ofScaled c (i.point - count)
  | none =>
    let up := Nat.pow 10 (17 - i.point).toNat
    let down := Nat.pow 10 (i.point - 17).toNat
    .ofScaled (i.value * up / (i.scale * down)) (i.point - 17)

def Digits.ofFloat (tie : Tie) (x : Float) : Digits :=
  let bits : Nat := x.toBits.toNat
  let exponent : Nat := (bits >>> 52) % (1 <<< 11)
  let fraction : Nat := bits % (1 <<< 52)
  let m : Nat := if exponent = 0 then fraction else fraction + (1 <<< 52)
  (Interval.ofBinary m (((max exponent 1 : Nat) : Int) - 1075) (fraction = 0 && 1 < exponent)).shortest tie

end BoundedFibonacci.Decimal
