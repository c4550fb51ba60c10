import BoundedFibonacci.Decimal.Reading
import BoundedFibonacci.Toml.Quoted

namespace BoundedFibonacci.Toml

inductive Number where
  | integer (n : Int64)
  | float (x : Float)

def isDecimal (c : Char) : Bool := '0' ≤ c && c ≤ '9'

def isOctal (c : Char) : Bool := '0' ≤ c && c ≤ '7'

def isBinary (c : Char) : Bool := c = '0' || c = '1'

def isHex (c : Char) : Bool := (hexDigit? c).isSome

def digitRun (isDigit : Char → Bool) (afterUnderscore : Bool) : List Char → Option (List Char × List Char)
  | [] => if afterUnderscore then none else some ([], [])
  | c :: r =>
    if isDigit c then prepend [c] (digitRun isDigit false r)
    else if afterUnderscore then none
    else if c = '_' then digitRun isDigit true r
    else some ([], c :: r)

def digits? (isDigit : Char → Bool) : List Char → Option (List Char × List Char)
  | [] => none
  | c :: r => if isDigit c then prepend [c] (digitRun isDigit false r) else none

def wholeDigits? : List Char → Option (List Char × List Char)
  | '0' :: r => some (['0'], r)
  | cs => digits? isDecimal cs

def valueOfDigits (base : Nat) (ds : List Char) : Nat :=
  ds.foldl (fun n c => n * base + (hexDigit? c).getD 0) 0

def sign : List Char → Bool × List Char
  | '-' :: r => (true, r)
  | '+' :: r => (false, r)
  | cs => (false, cs)

def Number.ofInt? (n : Int) : Option Number :=
  if Int64.minValue.toInt ≤ n ∧ n ≤ Int64.maxValue.toInt then some (.integer (Int64.ofInt n)) else none

def Number.ofScientific? (isNegative : Bool) (m : Nat) (e : Int) : Option Number :=
  let x := Decimal.toFloat m e
  -- Of the two infinities only the one above is refused.
  if isNegative then some (.float (-x)) else if x.isInf then none else some (.float x)

def exponent? : List Char → Option (Int × List Char)
  | c :: r =>
    if c = 'e' || c = 'E' then
      let s := sign r
      (digits? isDecimal s.2).map fun d =>
        let n : Int := valueOfDigits 10 d.1
        (if s.1 then -n else n, d.2)
    else some (0, c :: r)
  | [] => some (0, [])

def decimal? (isNegative : Bool) (cs : List Char) : Option (Number × List Char) := do
  let (whole, r) ← wholeDigits? cs
  match r with
  | '.' :: r =>
    let (fraction, r) ← digits? isDecimal r
    let (e, r) ← exponent? r
    let x ← Number.ofScientific? isNegative (valueOfDigits 10 (whole ++ fraction)) (e - fraction.length)
    some (x, r)
  | c :: _ =>
    if c = 'e' || c = 'E' then
      let (e, r) ← exponent? r
      let x ← Number.ofScientific? isNegative (valueOfDigits 10 whole) e
      some (x, r)
    else
      let n : Int := valueOfDigits 10 whole
      let x ← Number.ofInt? (if isNegative then -n else n)
      some (x, r)
  | [] =>
    let n : Int := valueOfDigits 10 whole
    let x ← Number.ofInt? (if isNegative then -n else n)
    some (x, [])

def radix? (base : Nat) (isDigit : Char → Bool) (cs : List Char) : Option (Number × List Char) := do
  let (ds, r) ← digits? isDigit cs
  let x ← Number.ofInt? (valueOfDigits base ds)
  some (x, r)

def number? : List Char → Option (Number × List Char)
  | '0' :: 'x' :: r => radix? 16 isHex r
  | '0' :: 'o' :: r => radix? 8 isOctal r
  | '0' :: 'b' :: r => radix? 2 isBinary r
  | cs =>
    match sign cs with
    | (isNegative, 'i' :: 'n' :: 'f' :: r) =>
      some (.float (if isNegative then -Decimal.infinity else Decimal.infinity), r)
    | (_, 'n' :: 'a' :: 'n' :: r) => some (.float Decimal.notANumber, r)
    | (isNegative, r) => decimal? isNegative r

end BoundedFibonacci.Toml
