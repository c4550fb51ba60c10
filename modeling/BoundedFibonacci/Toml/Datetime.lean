import BoundedFibonacci.Toml.Number

namespace BoundedFibonacci.Toml

def twoDigits? : List Char → Option (Nat × List Char)
  | a :: b :: r => if isDecimal a && isDecimal b then some (valueOfDigits 10 [a, b], r) else none
  | _ => none

def char? (c : Char) : List Char → Option (List Char)
  | d :: r => if d = c then some r else none
  | [] => none

def daysIn (year month : Nat) : Nat :=
  if month = 2 then
    if year % 4 = 0 ∧ (year % 100 ≠ 0 ∨ year % 400 = 0) then 29 else 28
  else if month = 4 ∨ month = 6 ∨ month = 9 ∨ month = 11 then 30
  else 31

def date? (cs : List Char) : Option (List Char) := do
  let (century, r) ← twoDigits? cs
  let (year, r) ← twoDigits? r
  let r ← char? '-' r
  let (month, r) ← twoDigits? r
  let r ← char? '-' r
  let (day, r) ← twoDigits? r
  if 1 ≤ month ∧ month ≤ 12 ∧ 1 ≤ day ∧ day ≤ daysIn (century * 100 + year) month then some r else none

def clock? (cs : List Char) : Option (List Char) := do
  let (hour, r) ← twoDigits? cs
  let r ← char? ':' r
  let (minute, r) ← twoDigits? r
  if hour ≤ 23 ∧ minute ≤ 59 then some r else none

def time? (cs : List Char) : Option (List Char) := do
  let r ← clock? cs
  let r ← char? ':' r
  let (second, r) ← twoDigits? r
  -- A leap second is accepted.
  if second ≤ 60 then
    match r with
    | '.' :: c :: t => if isDecimal c then some (t.dropWhile isDecimal) else some r
    | _ => some r
  else none

def skipOffset (cs : List Char) : List Char :=
  match cs with
  | c :: r =>
    if c = 'Z' || c = 'z' then r
    else if c = '+' || c = '-' then (clock? r).getD cs
    else cs
  | [] => []

def datetime? (cs : List Char) : Option (List Char) :=
  match date? cs with
  | none => time? cs
  | some r =>
    match r with
    | c :: t => if c = 'T' || c = 't' || c = ' ' then some (((time? t).map skipOffset).getD r) else some r
    | [] => some []

end BoundedFibonacci.Toml
