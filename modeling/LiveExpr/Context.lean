import LiveExpr.Text.Record

/-!
What the host may attach to an evaluation for its native functions to look at: the
entity that owns the expression and the event that caused the run.
-/
namespace LiveExpr

inductive Payload where
  | text (s : String)
  | word (n : UInt32)
deriving DecidableEq, Repr

structure Context where
  widget : Option Payload
  event : Option Payload
deriving DecidableEq, Repr

namespace Context

def empty : Context := ⟨none, none⟩

/-- The context of a run that a trigger caused. -/
def ofTrigger (name : String) : Context := ⟨none, some (.text name)⟩

def describe (c : Context) : String :=
  Text.record "CallContext"
    [("widget", toString c.widget.isSome), ("event", toString c.event.isSome)]

end Context

end LiveExpr
