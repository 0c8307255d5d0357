import LiveExpr.Text.Quoted

/-!
Why a program cannot be read or run further, and where: the offset is that of the
instruction at fault. Evaluation has no other way to fail.
-/
namespace LiveExpr

inductive Reason where
  | unknownOpcode (byte : UInt8)
  | truncated
  | invalidText
  | stackUnderflow
  | stackOverflow (limit : Nat)
  | jumpOutOfBounds (target : Int)
  | callDepthExceeded (limit : Nat)
  | budgetExhausted (budget : Nat)
deriving DecidableEq, Repr

structure Fault where
  offset : Nat
  reason : Reason
deriving DecidableEq, Repr

def twoDigits (b : UInt8) : String :=
  let ds := Text.hexDigits b.toNat
  String.ofList (if ds.length < 2 then '0' :: ds else ds)

def Reason.message : Reason → String
  | .unknownOpcode b => "unknown opcode 0x" ++ twoDigits b
  | .truncated => "truncated operand"
  | .invalidText => "text operand is not valid utf-8"
  | .stackUnderflow => "operand stack underflow"
  | .stackOverflow limit => s!"operand stack overflow (limit {limit})"
  | .jumpOutOfBounds target => s!"jump target {target} out of bounds"
  | .callDepthExceeded limit => s!"call depth exceeded {limit}"
  | .budgetExhausted budget => s!"instruction budget of {budget} exhausted"

def Fault.message (f : Fault) : String :=
  s!"malformed program at offset {f.offset}: {f.reason.message}"

end LiveExpr
