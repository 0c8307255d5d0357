import LiveExpr.Number.Remainder
import LiveExpr.Value

/-!
The operators of the language. Arithmetic on anything but numbers gives unset,
except that addition joins two texts. Equality and order always give a boolean,
and values that cannot be compared are in no order.
-/
namespace LiveExpr

inductive Unary where
  | neg
  | not
deriving DecidableEq, Repr

inductive Binary where
  | add
  | sub
  | mul
  | div
  | mod
  | eq
  | ne
  | lt
  | le
  | gt
  | ge
deriving DecidableEq, Repr

def Unary.apply : Unary → Value → Value
  | .neg, .number x => .number (-x)
  | .neg, _ => .unset
  | .not, v => .boolean (!v.truthy)

def arithmetic (f : Float → Float → Float) : Value → Value → Value
  | .number x, .number y => .number (f x y)
  | _, _ => .unset

def sum : Value → Value → Value
  | .number x, .number y => .number (x + y)
  | .text s, .text t => .text (s ++ t)
  | _, _ => .unset

def Binary.apply : Binary → Value → Value → Value
  | .add, a, b => sum a b
  | .sub, a, b => arithmetic (· - ·) a b
  | .mul, a, b => arithmetic (· * ·) a b
  | .div, a, b => arithmetic (· / ·) a b
  | .mod, a, b => arithmetic Number.remainder a b
  | .eq, a, b => .boolean (a == b)
  | .ne, a, b => .boolean (a != b)
  | .lt, a, b => .boolean (a.lt b)
  | .le, a, b => .boolean (a.le b)
  | .gt, a, b => .boolean (b.lt a)
  | .ge, a, b => .boolean (b.le a)

end LiveExpr
