/-!
Powers of the two bases that number formats are made of.
-/
namespace LiveExpr.Number

def twoTo (n : Nat) : Nat := Nat.pow 2 n

def tenTo (n : Nat) : Nat := Nat.pow 10 n

end LiveExpr.Number
