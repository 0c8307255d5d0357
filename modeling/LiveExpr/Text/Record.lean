import LiveExpr.Text.Quoted

/-!
Text of structured data, for inspection: records with named fields, wrapped
values, lists and optional values, each on one line.
-/
namespace LiveExpr.Text

/-- A record with its fields in order, such as `Name \x7b a: 1, b: 2 \x7d`. -/
def record (name : String) (fields : List (String × String)) : String :=
  name ++ " \x7b " ++ ", ".intercalate (fields.map fun f => f.1 ++ ": " ++ f.2) ++ " \x7d"

/-- A record that shows only some of its fields ends in two dots. -/
def openRecord (name : String) (fields : List (String × String)) : String :=
  let shown := fields.map fun f => f.1 ++ ": " ++ f.2
  name ++ " \x7b " ++ ", ".intercalate (shown ++ [".."]) ++ " \x7d"

def wrapped (name inner : String) : String := name ++ "(" ++ inner ++ ")"

def listed (items : List String) : String := "[" ++ ", ".intercalate items ++ "]"

def optional : Option String → String
  | none => "None"
  | some inner => wrapped "Some" inner

end LiveExpr.Text
