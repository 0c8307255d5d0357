import LiveExpr.Number.Notation

/-!
The values of the expression language: unset, numbers, texts and booleans. Values
of different types are never equal and never ordered. Numbers compare as binary64
numbers do, so not-a-number differs from itself and the two zeros are equal.
-/
namespace LiveExpr

inductive Value where
  | unset
  | number (x : Float)
  | text (s : String)
  | boolean (b : Bool)

namespace Value

instance : Inhabited Value := ⟨.unset⟩

def typeName : Value → String
  | .unset => "unset"
  | .number _ => "number"
  | .text _ => "text"
  | .boolean _ => "boolean"

/-- Zero, not-a-number, the empty text, false and unset count as false. -/
def truthy : Value → Bool
  | .unset => false
  | .number x => x != 0.0 && !x.isNaN
  | .text s => !s.isEmpty
  | .boolean b => b

def isUnset : Value → Bool
  | .unset => true
  | _ => false

def number? : Value → Option Float
  | .number x => some x
  | _ => none

def text? : Value → Option String
  | .text s => some s
  | _ => none

def boolean? : Value → Option Bool
  | .boolean b => some b
  | _ => none

def ofText? : Option String → Value
  | some s => .text s
  | none => .unset

/-- Equality of the language: within a type only, numbers by their own equality. -/
def same : Value → Value → Bool
  | .unset, .unset => true
  | .number x, .number y => x == y
  | .text s, .text t => s == t
  | .boolean a, .boolean b => a == b
  | _, _ => false

instance : BEq Value := ⟨same⟩

def compareFloats (x y : Float) : Option Ordering :=
  if x < y then some .lt else if x == y then some .eq else if y < x then some .gt else none

def compareTexts (s t : String) : Ordering :=
  if s < t then .lt else if s = t then .eq else .gt

/-- The order within a type: texts by code points, false before true. -/
def compare? : Value → Value → Option Ordering
  | .unset, .unset => some .eq
  | .number x, .number y => compareFloats x y
  | .text s, .text t => some (compareTexts s t)
  | .boolean a, .boolean b => some (compare a b)
  | _, _ => none

def lt (a b : Value) : Bool := a.compare? b == some .lt

def le (a b : Value) : Bool := a.lt b || a.compare? b == some .eq

/-- An integral number below `10 ^ 15` is written as an integer, so zero has no sign. -/
def displayNumber (x : Float) : String :=
  match Number.integer? x with
  | some n => if n.natAbs < Number.tenTo 15 then toString n else Number.plain x
  | none => Number.plain x

def display : Value → String
  | .unset => ""
  | .number x => displayNumber x
  | .text s => s
  | .boolean b => if b then "true" else "false"

end Value

end LiveExpr
