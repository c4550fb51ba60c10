namespace BoundedFibonacci.Text

def record (name : String) (fields : List (String × String)) : String :=
  name ++ " \x7b " ++ ", ".intercalate (fields.map fun f => f.1 ++ ": " ++ f.2) ++ " \x7d"

def recordLines (name : String) (fields : List (String × String)) : String :=
  name ++ " \x7b\n" ++ String.join (fields.map fun f => "    " ++ f.1 ++ ": " ++ f.2 ++ ",\n") ++ "\x7d"

def wrapped (name content : String) : String := name ++ "(" ++ content ++ ")"

def optional (content : Option String) : String := content.elim "None" (wrapped "Some")

def listed (items : List String) : String := "[" ++ ", ".intercalate items ++ "]"

end BoundedFibonacci.Text
