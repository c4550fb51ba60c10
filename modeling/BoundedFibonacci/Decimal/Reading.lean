namespace BoundedFibonacci.Decimal

def infinity : Float := Float.ofBits 0x7FF0000000000000

def notANumber : Float := Float.ofBits 0x7FF8000000000000

def divEven (num den : Nat) : Nat :=
  let q := num / den
  let r := num % den
  if den < 2 * r ∨ (den = 2 * r ∧ q % 2 = 1) then q + 1 else q

def binaryExponent (num den : Nat) : Int :=
  let q : Int := (num.log2 : Int) - den.log2 - 53
  let q := if den <<< (q + 53).toNat ≤ num <<< (-(q + 53)).toNat then q + 1 else q
  max q (-1074)

def ofBinary (c : Nat) (q : Int) : Float :=
  let (c, q) := if c = 1 <<< 53 then (1 <<< 52, q + 1) else (c, q)
  if c < 1 <<< 52 then Float.ofBits c.toUInt64
  else if 971 < q then infinity
  else Float.ofBits ((q + 1075).toNat <<< 52 + (c - 1 <<< 52)).toUInt64

/-- The number nearest to `m * 10 ^ e`. Decimals far outside the range are settled by their order of magnitude. -/
def toFloat (m : Nat) (e : Int) : Float :=
  let point := (Nat.toDigits 10 m).length + e
  if m = 0 ∨ point < -330 then Float.ofBits 0
  else if 310 < point then infinity
  else
    let num := m * Nat.pow 10 e.toNat
    let den := Nat.pow 10 (-e).toNat
    let q := binaryExponent num den
    ofBinary (divEven (num <<< (-q).toNat) (den <<< q.toNat)) q

end BoundedFibonacci.Decimal
