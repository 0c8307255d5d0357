import LiveExpr.Number.Power

/-!
Runs of decimal digits and the index numbers written with them: an optional plus,
one or more digits, and a value below `2 ^ 32`.
-/
namespace LiveExpr.Number

def isDigit (c : Char) : Bool := '0' ≤ c && c ≤ '9'

def digitValue (c : Char) : Nat := c.toNat - '0'.toNat

def digitsFrom (n : Nat) (cs : List Char) : Nat := cs.foldl (fun n c => 10 * n + digitValue c) n

/-- The value of a run of decimal digits. -/
def digitsValue (cs : List Char) : Nat := digitsFrom 0 cs

/-- The value that digits behind `n` make with it, if it is below the bound. -/
def valueBelow? (bound : Nat) : Nat → List Char → Option Nat
  | n, [] => if n < bound then some n else none
  | n, c :: rest => if n < bound then valueBelow? bound (10 * n + digitValue c) rest else none

def decimalText (n : Nat) : List Char := Nat.toDigits 10 n

def unsigned : List Char → List Char
  | '+' :: rest => rest
  | cs => cs

def readIndex? (cs : List Char) : Option UInt32 :=
  let ds := unsigned cs
  if ds.isEmpty || !ds.all isDigit then none
  else (valueBelow? (twoTo 32) 0 ds).map Nat.toUInt32

theorem le_digitsFrom (n : Nat) (cs : List Char) : n ≤ digitsFrom n cs := by
  induction cs generalizing n with
  | nil => exact Nat.le_refl n
  | cons c rest ih =>
    have h := ih (10 * n + digitValue c)
    simp only [digitsFrom, List.foldl_cons] at h ⊢
    omega

/-- Reading may stop early because further digits never make a value smaller. -/
theorem valueBelow?_eq (bound n : Nat) (cs : List Char) :
    valueBelow? bound n cs =
      if digitsFrom n cs < bound then some (digitsFrom n cs) else none := by
  induction cs generalizing n with
  | nil => rfl
  | cons c rest ih =>
    have hstep : digitsFrom n (c :: rest) = digitsFrom (10 * n + digitValue c) rest := rfl
    have hle := le_digitsFrom n (c :: rest)
    by_cases h : n < bound
    · rw [valueBelow?, if_pos h, ih, hstep]
    · rw [valueBelow?, if_neg h, if_neg (by omega)]

end LiveExpr.Number
