import BoundedFibonacci.Toml.Layout

/-!
The four kinds of TOML strings: with and without escapes, on one line and on several.

A string is scanned one character at a time from its first character after the opening quotes; the scanner remembers
what a later character may still depend on, and returns the characters of the string and the text after its closing
quotes.
-/

namespace BoundedFibonacci.Toml

def hexDigit? (c : Char) : Option Nat :=
  if '0' ≤ c ∧ c ≤ '9' then some (c.toNat - '0'.toNat)
  else if 'a' ≤ c ∧ c ≤ 'f' then some (c.toNat - 'a'.toNat + 10)
  else if 'A' ≤ c ∧ c ≤ 'F' then some (c.toNat - 'A'.toNat + 10)
  else none

def charOfCode? (n : Nat) : Option Char := if n.isValidChar then some (Char.ofNat n) else none

def escaped? (c : Char) : Option Char :=
  if c = 'b' then some '\x08'
  else if c = 't' then some '\t'
  else if c = 'n' then some '\n'
  else if c = 'f' then some '\x0c'
  else if c = 'r' then some '\r'
  else if c = '\x22' then some '\x22'
  else if c = '\\' then some '\\'
  else none

/-- What the characters read so far leave open. A backslash that only blanks follow begins a fold at the end of its
line, and after that blanks and line ends are left out. -/
inductive Pending where
  | nothing
  | escape
  | code (left value : Nat)
  | carriage
  | fold
  | foldCarriage
  | folded
  | quotes (count : Nat)

def Pending.plain (multiline : Bool) (c : Char) : Option (Pending × List Char) :=
  if c = '\\' then some (.escape, [])
  else if multiline && c = '\x22' then some (.quotes 1, [])
  else if isTextual c then some (.nothing, [c])
  else if multiline && c = '\n' then some (.nothing, ['\n'])
  else if multiline && c = '\r' then some (.carriage, [])
  else none

def Pending.next (multiline : Bool) (c : Char) : Pending → Option (Pending × List Char)
  | .nothing | .quotes _ => plain multiline c
  | .escape =>
    match escaped? c with
    | some e => some (.nothing, [e])
    | none =>
      if c = 'u' then some (.code 4 0, [])
      else if c = 'U' then some (.code 8 0, [])
      else if multiline && isBlank c then some (.fold, [])
      else if multiline && c = '\n' then some (.folded, [])
      else if multiline && c = '\r' then some (.foldCarriage, [])
      else none
  | .code left value =>
    match hexDigit? c with
    | none => none
    | some d =>
      if left ≤ 1 then (charOfCode? (value * 16 + d)).map fun e => (.nothing, [e])
      else some (.code (left - 1) (value * 16 + d), [])
  | .carriage => if c = '\n' then some (.nothing, ['\n']) else none
  | .fold =>
    if isBlank c then some (.fold, [])
    else if c = '\n' then some (.folded, [])
    else if c = '\r' then some (.foldCarriage, [])
    else none
  | .foldCarriage => if c = '\n' then some (.folded, []) else none
  | .folded =>
    if isBlank c || c = '\n' then some (.folded, [])
    else if c = '\r' then some (.foldCarriage, [])
    else plain multiline c

def prepend (front : List Char) : Option (List Char × List Char) → Option (List Char × List Char)
  | some (s, r) => some (front ++ s, r)
  | none => none

def basicLine : Pending → List Char → Option (List Char × List Char)
  | _, [] => none
  | p, c :: r =>
    match p with
    | .nothing =>
      if c = '\x22' then some ([], r)
      else match Pending.plain false c with
        | some (q, front) => prepend front (basicLine q r)
        | none => none
    | p => match p.next false c with
      | some (q, front) => prepend front (basicLine q r)
      | none => none

def quotesClose (quote : Char) (count : Nat) (rest : List Char) : List Char × List Char :=
  -- Up to two quotes directly before the closing three belong to the string.
  (List.replicate (count - 3) quote, rest)

def basicLines : Pending → List Char → Option (List Char × List Char)
  | .quotes n, [] => if 3 ≤ n then some (quotesClose '\x22' n []) else none
  | _, [] => none
  | .quotes n, c :: r =>
    if c = '\x22' then
      if n = 4 then some (quotesClose '\x22' 5 r) else basicLines (.quotes (n + 1)) r
    else if 3 ≤ n then some (quotesClose '\x22' n (c :: r))
    else match Pending.plain true c with
      | some (q, front) => prepend (List.replicate n '\x22' ++ front) (basicLines q r)
      | none => none
  | p, c :: r =>
    match p.next true c with
    | some (q, front) => prepend front (basicLines q r)
    | none => none

def literalLine : List Char → Option (List Char × List Char)
  | [] => none
  | c :: r =>
    if c = '\x27' then some ([], r)
    else if isTextual c then prepend [c] (literalLine r)
    else none

def literalLines : (quotes : Nat) → List Char → Option (List Char × List Char)
  | n, [] => if 3 ≤ n then some (quotesClose '\x27' n []) else none
  | n, c :: r =>
    if c = '\x27' then
      if n = 4 then some (quotesClose '\x27' 5 r) else literalLines (n + 1) r
    else if 3 ≤ n then some (quotesClose '\x27' n (c :: r))
    else if isTextual c || c = '\n' then prepend (List.replicate n '\x27' ++ [c]) (literalLines 0 r)
    else if c = '\r' then
      match r with
      | '\n' :: r => prepend (List.replicate n '\x27' ++ ['\n']) (literalLines 0 r)
      | _ => none
    else none

def skipFirstNewline (cs : List Char) : List Char := (newline? cs).getD cs

def lineString? : List Char → Option (List Char × List Char)
  | '\x22' :: r => basicLine .nothing r
  | '\x27' :: r => literalLine r
  | _ => none

def string? : List Char → Option (List Char × List Char)
  | '\x22' :: '\x22' :: '\x22' :: r => basicLines .nothing (skipFirstNewline r)
  | '\x27' :: '\x27' :: '\x27' :: r => literalLines 0 (skipFirstNewline r)
  | cs => lineString? cs

end BoundedFibonacci.Toml
