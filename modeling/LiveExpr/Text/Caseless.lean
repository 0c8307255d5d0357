/-!
Comparison that ignores the case of the ASCII letters and of nothing else: two
texts agree when they are equal after each of A to Z is replaced by a to z.
-/
namespace LiveExpr.Text

def lowercase (s : String) : String :=
  String.ofList (s.toList.map Char.toLower)

def sameIgnoringCase (s t : String) : Bool := lowercase s == lowercase t

/-- The text after a leading `lead`, matched without regard to ASCII case. -/
def dropLeadIgnoringCase? (s lead : String) : Option String :=
  let n := lead.toList.length
  if sameIgnoringCase (String.ofList (s.toList.take n)) lead then
    some (String.ofList (s.toList.drop n))
  else none

end LiveExpr.Text
