import CigaretteSmokers.Text.Quoted

namespace CigaretteSmokers.Text

/-- A value as its name and its fields between braces. -/
def record (name : String) (fields : List (String × String)) : String :=
  name ++ " \x7b " ++ ", ".intercalate (fields.map fun (k, v) => k ++ ": " ++ v) ++ " \x7d"

/-- A value as its name and its content between parentheses. -/
def wrapped (name content : String) : String := name ++ "(" ++ content ++ ")"

def optional : Option String → String
  | some content => wrapped "Some" content
  | none => "None"

end CigaretteSmokers.Text
