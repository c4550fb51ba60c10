import BoundedFibonacci.Decimal.Layout
import BoundedFibonacci.Text.Quoted

namespace BoundedFibonacci

inductive Found where
  | null
  | boolean (b : Bool)
  | integer (n : Int)
  | float (x : Float)
  | string (s : String)
  | sequence
  | map

inductive Mismatch where
  | unknownVariant (given : String) (known : List String)
  | wrongType (found : Found) (wanted : String)
  | wrongValue (found : Found) (wanted : String)
  | wrongLength (length : Nat) (wanted : String)
  | noEntry
  | manyEntries
  | notStringOrTable
  | notEmptyTable
  | notEmptyArray
  | notTable (kind : String)

namespace Found

def text (layout : Decimal.Layout) : Found → String
  | .null => "null"
  | .boolean b => "boolean `" ++ toString b ++ "`"
  | .integer n => "integer `" ++ toString n ++ "`"
  | .float x => "floating point `" ++ Decimal.text layout x ++ "`"
  | .string s => "string " ++ Text.quoted s
  | .sequence => "sequence"
  | .map => "map"

end Found

namespace Mismatch

def alternatives (known : List String) : String :=
  let ticked := known.map fun s => "`" ++ s ++ "`"
  if known.length ≤ 2 then " or ".intercalate ticked else "one of " ++ ", ".intercalate ticked

def message (layout : Decimal.Layout) : Mismatch → String
  | .unknownVariant given known => "unknown variant `" ++ given ++ "`, expected " ++ alternatives known
  | .wrongType found wanted => "invalid type: " ++ found.text layout ++ ", expected " ++ wanted
  | .wrongValue found wanted => "invalid value: " ++ found.text layout ++ ", expected " ++ wanted
  | .wrongLength length wanted => "invalid length " ++ toString length ++ ", expected " ++ wanted
  | .noEntry => "wanted exactly 1 element, found 0 elements"
  | .manyEntries => "wanted exactly 1 element, more than 1 element"
  | .notStringOrTable => "wanted string or table"
  | .notEmptyTable => "expected empty table"
  | .notEmptyArray => "expected empty array"
  | .notTable kind => "expected table, found " ++ kind

end Mismatch

end BoundedFibonacci
