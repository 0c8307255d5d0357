import LiveExpr.Number.Binary

/-!
The shortest decimal that reads back as a given binary number. Reading rounds to
nearest, so the decimals that read back form an interval around the number, whose
ends belong to it when the mantissa is even. Of the grids with one, two, up to
seventeen digits the first that has a point in the interval is taken, and on it
the point nearest to the number; a tie goes up.
-/
namespace LiveExpr.Number

/-- A positive rational in two natural numbers. -/
structure Ratio where
  num : Nat
  den : Nat

/-- The ratio `n * 2 ^ e`. -/
def Ratio.binary (n : Nat) (e : Int) : Ratio := ⟨n * twoTo e.toNat, twoTo (-e).toNat⟩

/-- The ratio `n * 10 ^ e`. -/
def Ratio.decimal (n : Nat) (e : Int) : Ratio := ⟨n * tenTo e.toNat, tenTo (-e).toNat⟩

def Ratio.lt (a b : Ratio) : Bool := a.num * b.den < b.num * a.den

def Ratio.le (a b : Ratio) : Bool := a.num * b.den ≤ b.num * a.den

/-- The decimals that read back as `m * 2 ^ e`. -/
structure Interval where
  low : Ratio
  high : Ratio
  closed : Bool

/-- A power of two has only half a step to its lower neighbour, the least binade apart. -/
def Interval.around (m : Nat) (e : Int) : Interval :=
  let below := if m = twoTo 52 ∧ -1074 < e then 1 else 2
  ⟨.binary (4 * m - below) (e - 2), .binary (4 * m + 2) (e - 2), m % 2 == 0⟩

def Interval.contains (i : Interval) (r : Ratio) : Bool :=
  if i.closed then i.low.le r && r.le i.high else i.low.lt r && r.lt i.high

/-- The decimal `digits * 10 ^ exponent`. -/
structure Decimal where
  digits : Nat
  exponent : Int
deriving DecidableEq, Repr

def digitCount (n : Nat) : Nat := (Nat.toDigits 10 n).length

/-- The number of digits before the point, zero or negative for a fraction. -/
def Ratio.magnitude (r : Ratio) : Int :=
  if r.den ≤ r.num then digitCount (r.num / r.den)
  else
    let k : Int := digitCount r.num - digitCount r.den
    if (Ratio.decimal 1 k).le r then k + 1 else k

/-- The point of the grid `10 ^ p` nearest to the value among those in the interval. -/
def nearestOnGrid (value : Ratio) (i : Interval) (p : Int) : Option Decimal :=
  let unit := Ratio.decimal 1 p
  let scaled : Ratio := ⟨value.num * unit.den, value.den * unit.num⟩
  let d := scaled.num / scaled.den
  let rest := scaled.num % scaled.den
  let lower := i.contains (.decimal d p)
  let upper := i.contains (.decimal (d + 1) p)
  if upper && (!lower || decide (scaled.den ≤ 2 * rest)) then some ⟨d + 1, p⟩
  else if lower then some ⟨d, p⟩
  else none

def firstGrid (value : Ratio) (i : Interval) (magnitude : Int) : Nat → Nat → Decimal
  | _, 0 => ⟨0, 0⟩
  | n, left + 1 =>
    match nearestOnGrid value i (magnitude - n) with
    | some d => d
    | none => firstGrid value i magnitude (n + 1) left

/-- Seventeen digits always suffice for a positive finite number. -/
def shortest (m : Nat) (e : Int) : Decimal :=
  let value := Ratio.binary m e
  firstGrid value (Interval.around m e) value.magnitude 1 17

end LiveExpr.Number
