import LiveExpr.Number.Binary
import LiveExpr.Number.Digits
import LiveExpr.Text.Caseless

/-!
Reading a number from text: an optional sign, then digits with at most one point
and at least one digit, then an optional exponent. The words for infinity and for
not-a-number are accepted in any case. The value is rounded to nearest.
-/
namespace LiveExpr.Number

/-- A leading sign and the rest; the flag says whether it is a minus. -/
def splitSign : List Char → Bool × List Char
  | '-' :: rest => (true, rest)
  | '+' :: rest => (false, rest)
  | rest => (false, rest)

/-- Digits of a numeral with the power of ten that scales them. -/
structure Numeral where
  digits : List Char
  exponent : Int

/-- The digits of an exponent count until it has reached 65536; those behind are passed over. -/
def exponentValue (cs : List Char) : Nat :=
  cs.foldl (fun n c => if n < 65536 then 10 * n + digitValue c else n) 0

def readExponent : List Char → Option Int
  | [] => some 0
  | c :: rest =>
    if c = 'e' ∨ c = 'E' then
      let (negative, ds) := splitSign rest
      if ds.isEmpty || !ds.all isDigit then none
      else some (if negative then -(exponentValue ds : Int) else exponentValue ds)
    else none

def Numeral.read (cs : List Char) : Option Numeral :=
  let whole := cs.takeWhile isDigit
  let (fraction, rest) := match cs.dropWhile isDigit with
    | '.' :: more => (more.takeWhile isDigit, more.dropWhile isDigit)
    | more => ([], more)
  if whole.isEmpty && fraction.isEmpty then none
  else (readExponent rest).map fun e => ⟨whole ++ fraction, e - fraction.length⟩

/-- Without zeros in front, and with a single digit for all those behind the first 800. A number
half way between two neighbours has fewer digits, so that digit only has to say whether they are
all zero. -/
def Numeral.shorten (n : Numeral) : Numeral :=
  let digits := n.digits.dropWhile (· == '0')
  let rest := digits.drop 800
  let last := if rest.isEmpty then [] else if rest.all (· == '0') then ['0'] else ['1']
  ⟨digits.take 800 ++ last, n.exponent + rest.length - last.length⟩

/-- Far outside the range of the format the answer is decided by the magnitude alone. -/
def Numeral.magnitude (n : Numeral) : Float :=
  let s := n.shorten
  let top := s.exponent + s.digits.length
  if s.digits.isEmpty || top < -400 then 0.0
  else if 400 < top then Float.ofBits 0x7FF0000000000000
  else Float.ofScientific (digitsValue s.digits) (decide (s.exponent < 0)) s.exponent.natAbs

def readMagnitude (cs : List Char) : Option Float :=
  let word := Text.lowercase (String.ofList cs)
  if word == "inf" || word == "infinity" then some (Float.ofBits 0x7FF0000000000000)
  else if word == "nan" then some nan
  else (Numeral.read cs).map Numeral.magnitude

def read (s : String) : Option Float :=
  let (negative, rest) := splitSign s.toList
  (readMagnitude rest).map fun x => if negative then -x else x

end LiveExpr.Number
