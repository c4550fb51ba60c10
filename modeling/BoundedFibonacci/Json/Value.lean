import BoundedFibonacci.Mismatch

/-!
JSON values. A number with a fraction or an exponent is a floating-point number, also when its value is whole.
The members of an object stand in the order in which they are visited.
-/

namespace BoundedFibonacci

inductive Json where
  | null
  | boolean (b : Bool)
  | integer (n : Int)
  | float (x : Float)
  | string (s : String)
  | array (items : List Json)
  | object (members : List (String × Json))
  deriving Inhabited

def Json.found : Json → Found
  | .null => .null
  | .boolean b => .boolean b
  | .integer n => .integer n
  | .float x => .float x
  | .string s => .string s
  | .array _ => .sequence
  | .object _ => .map

end BoundedFibonacci
