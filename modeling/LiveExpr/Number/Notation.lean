import LiveExpr.Number.Shortest

/-!
The two written forms of a number. The plain form is always positional and has no
point for an integer. The inspected form always shows that the value is a number
with a fraction part, and changes to an exponent for very large and very small ones.
-/
namespace LiveExpr.Number

def zeros (n : Nat) : List Char := List.replicate n '0'

/-- Digits without the trailing zeros, and the power of ten of the last one kept. -/
def Decimal.strip (d : Decimal) : List Char × Int :=
  let all := Nat.toDigits 10 d.digits
  let kept := (all.reverse.dropWhile (· == '0')).reverse
  (kept, d.exponent + (all.length - kept.length))

/-- Positional text of the digits scaled by a power of ten, with a point only for a fraction. -/
def positional (digits : List Char) (exponent : Int) : List Char :=
  if 0 ≤ exponent then digits ++ zeros exponent.toNat
  else
    let places := (-exponent).toNat
    if places < digits.length then
      digits.take (digits.length - places) ++ '.' :: digits.drop (digits.length - places)
    else '0' :: '.' :: zeros (places - digits.length) ++ digits

def scientific (digits : List Char) (exponent : Int) : List Char :=
  let shown := match digits with
    | [] => ['0']
    | [d] => [d]
    | d :: rest => d :: '.' :: rest
  let power := exponent + digits.length - 1
  let sign := if power < 0 then ['-'] else []
  shown ++ 'e' :: sign ++ Nat.toDigits 10 power.natAbs

def signed (negative : Bool) (text : List Char) : String :=
  String.ofList (if negative then '-' :: text else text)

/-- Fewest digits that read back, always positional. -/
def plain (x : Float) : String :=
  match parts x with
  | .nan => "NaN"
  | .infinite negative => if negative then "-inf" else "inf"
  | .finite negative 0 _ => signed negative ['0']
  | .finite negative m e =>
    let (digits, exponent) := (shortest m e).strip
    signed negative (positional digits exponent)

/-- Positional from `1e-4` up to below `1e16`, with at least one place after the point. -/
def inspected (x : Float) : String :=
  match parts x with
  | .nan => "NaN"
  | .infinite negative => if negative then "-inf" else "inf"
  | .finite negative 0 _ => signed negative ['0', '.', '0']
  | .finite negative m e =>
    let (digits, exponent) := (shortest m e).strip
    let power := exponent + digits.length
    if -4 < power ∧ power ≤ 16 then
      let text := positional digits exponent
      signed negative (if 0 ≤ exponent then text ++ ['.', '0'] else text)
    else signed negative (scientific digits exponent)

end LiveExpr.Number
