import LiveExpr.Queue

/-!
What a host brings along: codes for its native functions, listeners, tasks and
event sources, the kinds of items it queues, and a state of its own. Two codes of
natives are equal exactly when they stand for the same function.
-/
namespace LiveExpr

structure Host where
  Function : Type
  Listener : Type
  Task : Type
  Source : Type
  Kind : Type
  Item : Kind → Type
  State : Type
  decFunction : DecidableEq Function
  decKind : DecidableEq Kind
  entity : (k : Kind) → Entity (Item k)

attribute [instance] Host.decFunction Host.decKind Host.entity

/-- The natives that every engine starts with. -/
inductive Builtin where
  | queueGet
  | queueLength
  | queueAck
deriving DecidableEq, Repr

inductive Native (H : Host) where
  | builtin (b : Builtin)
  | host (f : H.Function)
deriving DecidableEq

end LiveExpr
