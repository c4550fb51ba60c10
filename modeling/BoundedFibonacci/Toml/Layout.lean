namespace BoundedFibonacci.Toml

def isBlank (c : Char) : Bool := c = ' ' || c = '\t'

def isTextual (c : Char) : Bool := c = '\t' || (' ' ≤ c && c ≠ '\x7f')

def skipBlanks (cs : List Char) : List Char := cs.dropWhile isBlank

def newline? : List Char → Option (List Char)
  | '\n' :: r => some r
  | '\r' :: '\n' :: r => some r
  | _ => none

def skipComment : List Char → List Char
  | '#' :: r => r.dropWhile isTextual
  | cs => cs

def lineEnd? (cs : List Char) : Option (List Char) :=
  match skipComment (skipBlanks cs) with
  | [] => some []
  | cs => newline? cs

def skipLayout (inComment : Bool) : List Char → List Char
  | [] => []
  | c :: r =>
    if c = '\n' then skipLayout false r
    else if c = '\r' then
      match r with
      | '\n' :: r => skipLayout false r
      | _ => c :: r
    else if inComment then if isTextual c then skipLayout true r else c :: r
    else if isBlank c then skipLayout false r
    else if c = '#' then skipLayout true r
    else c :: r

end BoundedFibonacci.Toml
