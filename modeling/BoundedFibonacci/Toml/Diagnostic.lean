import BoundedFibonacci.Toml.Document

namespace BoundedFibonacci.Toml

structure Fault where
  region : Option Region
  mismatch : Mismatch

def Fault.orAt (r : Option Region) (f : Fault) : Fault := ⟨f.region.or r, f.mismatch⟩

inductive Problem where
  | malformed
  | mismatched (region : Region) (mismatch : Mismatch)

def byteLength (cs : List Char) : Nat := cs.foldl (fun n c => n + c.utf8Size) 0

def position (before : List Char) : Nat × Nat :=
  (before.count '\n', (before.reverse.takeWhile (· ≠ '\n')).length)

def lineAt (before after : List Char) : List Char :=
  (before.reverse.takeWhile (· ≠ '\n')).reverse ++ after.takeWhile (· ≠ '\n')

def located (text : List Char) (r : Region) (message : String) : String :=
  let before := text.take (text.length - r.start.length)
  let marked := r.start.take (r.start.length - r.stop.length)
  let line := lineAt before r.start
  let (row, column) := position before
  let number := toString (row + 1)
  let gutter := String.ofList (List.replicate (number.length + 1) ' ') ++ "|"
  -- The marks count bytes, the column characters.
  let marks := max 1 (min (byteLength marked) (byteLength line - column))
  "TOML parse error at line " ++ number ++ ", column " ++ toString (column + 1) ++ "\n" ++
    gutter ++ "\n" ++
    number ++ " | " ++ String.ofList line ++ "\n" ++
    gutter ++ " " ++ String.ofList (List.replicate column ' ' ++ List.replicate marks '^') ++ "\n" ++
    message ++ "\n"

def Problem.message (text : String) : Problem → String
  -- A reader's account of a syntax error is left out: all such errors have this one text in its place.
  | .malformed => "<syntax>"
  | .mismatched r m => located text.toList r (m.message .full)

end BoundedFibonacci.Toml
