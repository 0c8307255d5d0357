import LiveExpr.Number.Power

/-!
A binary64 number is a sign, a natural mantissa and a power of two, or one of the
infinities, or not a number. `parts` reads these off the bit pattern and `compose`
writes a pattern back. Composition is exact whenever the value is representable.
-/
namespace LiveExpr.Number

/-- The value of `finite negative m e` is `m * 2 ^ e`, negated if `negative`. -/
inductive Parts where
  | nan
  | infinite (negative : Bool)
  | finite (negative : Bool) (m : Nat) (e : Int)
deriving DecidableEq, Repr

def parts (x : Float) : Parts :=
  let bits := x.toBits.toNat
  let negative := decide (twoTo 63 ≤ bits)
  let field : Nat := bits / twoTo 52 % 2048
  let fraction := bits % twoTo 52
  if field = 2047 then
    if fraction = 0 then .infinite negative else .nan
  else if field = 0 then .finite negative fraction (-1074)
  else .finite negative (twoTo 52 + fraction) ((field : Int) - 1075)

/-- The magnitude shifted to the grid of its own binade, low bits below it dropped. -/
def magnitudeBits (m : Nat) (e : Int) : Nat :=
  if m = 0 then 0
  else
    let grid := max ((m.log2 : Int) + e - 52) (-1074)
    let k := if e ≤ grid then m >>> (grid - e).toNat else m <<< (e - grid).toNat
    if 971 < grid then 2047 * twoTo 52
    else if k < twoTo 52 then k
    else (grid + 1075).toNat * twoTo 52 + (k - twoTo 52)

def compose (negative : Bool) (m : Nat) (e : Int) : Float :=
  let sign := if negative then twoTo 63 else 0
  Float.ofBits (sign + magnitudeBits m e).toUInt64

def nan : Float := Float.ofBits 0x7FF8000000000000

/-- The integer that the number equals, if there is one. -/
def integer? (x : Float) : Option Int :=
  match parts x with
  | .finite negative m e =>
    let signed (n : Nat) : Int := if negative then -n else n
    if 0 ≤ e then some (signed (m * twoTo e.toNat))
    else if m % twoTo (-e).toNat = 0 then some (signed (m / twoTo (-e).toNat))
    else none
  | _ => none

end LiveExpr.Number
