import LiveExpr.Text.Record

/-!
The three limits of an evaluation: values on one operand stack, nested calls of
user functions, and instructions in all.
-/
namespace LiveExpr

structure Limits where
  maxStack : Nat
  maxCallDepth : Nat
  instructionBudget : Nat
deriving DecidableEq, Repr

namespace Limits

def standard : Limits := ⟨256, 64, 100000⟩

/-- The deepest nesting of calls that a configuration may ask for. -/
def deepestCalls : Nat := 1024

inductive Invalid where
  | maxStack
  | maxCallDepth
  | instructionBudget
deriving DecidableEq, Repr

def Invalid.message : Invalid → String
  | .maxStack => "invalid value for vm.max_stack: must be at least 1"
  | .maxCallDepth => s!"invalid value for vm.max_call_depth: must be between 1 and {deepestCalls}"
  | .instructionBudget => "invalid value for vm.instruction_budget: must be at least 1"

/-- The first limit that is out of its range. -/
def check (l : Limits) : Except Invalid Limits :=
  if l.maxStack = 0 then .error .maxStack
  else if l.maxCallDepth = 0 ∨ deepestCalls < l.maxCallDepth then .error .maxCallDepth
  else if l.instructionBudget = 0 then .error .instructionBudget
  else .ok l

def describe (l : Limits) : String :=
  Text.record "VmConfig" [("max_stack", toString l.maxStack),
    ("max_call_depth", toString l.maxCallDepth),
    ("instruction_budget", toString l.instructionBudget)]

end Limits

end LiveExpr
