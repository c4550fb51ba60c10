import BoundedFibonacci.Decimal.Shortest

namespace BoundedFibonacci.Decimal

structure Layout where
  positional : Int → Bool
  tie : Tie

namespace Layout

def full : Layout := ⟨fun _ => true, .upper⟩

def compact : Layout := ⟨fun point => -5 < point && point ≤ 16, .even⟩

end Layout

namespace Digits

def positional (d : Digits) : List Char :=
  if d.point ≤ 0 then
    ['0', '.'] ++ List.replicate (-d.point).toNat '0' ++ d.digits
  else if d.digits.length ≤ d.point.toNat then
    d.digits ++ List.replicate (d.point.toNat - d.digits.length) '0' ++ ['.', '0']
  else d.digits.take d.point.toNat ++ ['.'] ++ d.digits.drop d.point.toNat

def scientific (d : Digits) : List Char :=
  let exponent := d.point - 1
  d.digits.take 1 ++ (if d.digits.length ≤ 1 then [] else '.' :: d.digits.drop 1) ++
    ['e', if exponent < 0 then '-' else '+'] ++ (toString exponent.natAbs).toList

end Digits

def text (layout : Layout) (x : Float) : String :=
  let sign := if x.toBits.toNat.testBit 63 then "-" else ""
  if x.isNaN then "NaN"
  else if x.isInf then sign ++ "inf"
  else if x == 0 then sign ++ "0.0"
  else
    let d := Digits.ofFloat layout.tie x
    sign ++ String.ofList (if layout.positional d.point then d.positional else d.scientific)

end BoundedFibonacci.Decimal
