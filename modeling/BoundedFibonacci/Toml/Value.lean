import BoundedFibonacci.Mismatch

namespace BoundedFibonacci.Toml

/-- A stretch of a text, given by what remains of the text at its start and at its end. -/
structure Region where
  start : List Char
  stop : List Char
  deriving DecidableEq

structure Key where
  name : String
  region : Region
  deriving DecidableEq

-- How a table came about decides who may add to it. An implied table is a step on the way to one with a header, a
-- dotted one a step on the way to a dotted key, and to an inline one nothing is added.
inductive Origin where
  | header
  | implied
  | dotted
  | inline
  deriving DecidableEq

inductive Value where
  | string (region : Region) (text : String)
  | integer (region : Region) (number : Int64)
  | float (region : Region) (number : Float)
  | boolean (region : Region) (truth : Bool)
  | datetime (region : Region) (text : String)
  | array (region : Region) (items : List Value)
  | tables (items : List Value)
  | table (origin : Origin) (region : Option Region) (entries : List (Key × Value))

abbrev Entries := List (Key × Value)

namespace Value

def region? : Value → Option Region
  | .string r _ | .integer r _ | .float r _ | .boolean r _ | .datetime r _ | .array r _ => some r
  | .table _ r _ => r
  | .tables items =>
    match items.head?, items.getLast? with
    | some (.table _ (some first) _), some (.table _ (some last) _) => some ⟨first.start, last.stop⟩
    | _, _ => none

def found : Value → Found
  | .string _ s => .string s
  | .integer _ n => .integer n.toInt
  | .float _ x => .float x
  | .boolean _ b => .boolean b
  | .array .. | .tables _ => .sequence
  | .datetime .. | .table .. => .map

def kind : Value → String
  | .string .. => "string"
  | .integer .. => "integer"
  | .float .. => "float"
  | .boolean .. => "boolean"
  | .datetime .. => "datetime"
  | .array .. => "array"
  | .tables _ => "array of tables"
  | .table .inline .. => "inline table"
  | .table .. => "table"

end Value

namespace Entries

def get? (name : String) (es : Entries) : Option Value := (es.find? (·.1.name = name)).map Prod.snd

def set (name : String) (v : Value) (es : Entries) : Entries :=
  es.map fun e => if e.1.name = name then (e.1, v) else e

def erase (name : String) (es : Entries) : Entries := es.filter (·.1.name ≠ name)

end Entries

end BoundedFibonacci.Toml
