import LiveExpr.Number.Binary

/-!
The remainder of a truncating division, computed exactly: both operands are put
on the finer of their two binary grids and reduced as natural numbers. The result
keeps the sign of the dividend, also when it is zero.
-/
namespace LiveExpr.Number

/-- The remainder of `m * 2 ^ e` by `n * 2 ^ f` on the grid `2 ^ min e f`. -/
def gridRemainder (m : Nat) (e : Int) (n : Nat) (f : Int) : Nat :=
  let grid := min e f
  (m <<< (e - grid).toNat) % (n <<< (f - grid).toNat)

def remainder (x y : Float) : Float :=
  match parts x, parts y with
  | .nan, _ => nan
  | _, .nan => nan
  | .infinite _, _ => nan
  | .finite _ _ _, .infinite _ => x
  | .finite negative m e, .finite _ n f =>
    if n = 0 then nan else compose negative (gridRemainder m e n f) (min e f)

end LiveExpr.Number
