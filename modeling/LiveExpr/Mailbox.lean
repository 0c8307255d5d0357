/-!
A mailbox holds the messages sent to it in the order of sending until they are
taken. Draining takes what is there at that moment and nothing sent later.
-/
namespace LiveExpr

structure Mailbox (α : Type) where
  pending : List α

namespace Mailbox

variable {α : Type}

def empty : Mailbox α := ⟨[]⟩

def size (m : Mailbox α) : Nat := m.pending.length

def send (m : Mailbox α) (message : α) : Mailbox α := ⟨m.pending ++ [message]⟩

def receive (m : Mailbox α) : Option α × Mailbox α := (m.pending.head?, ⟨m.pending.tail⟩)

def drain (m : Mailbox α) : List α × Mailbox α := (m.pending, empty)

end Mailbox

/-- A mailbox and whether its receiver is still there. A closed channel holds nothing. -/
structure Channel (α : Type) where
  inbox : Option (Mailbox α)

namespace Channel

variable {α : Type}

def opened : Channel α := ⟨some .empty⟩

def closed : Channel α := ⟨none⟩

/-- Sending fails, and hands the message back, only when the receiver is gone. -/
def send (c : Channel α) (message : α) : Except α (Channel α) :=
  match c.inbox with
  | some m => .ok ⟨some (m.send message)⟩
  | none => .error message

def size (c : Channel α) : Nat := c.inbox.elim 0 Mailbox.size

def refusal : String := "mailbox send failed: receiver has been dropped"

end Channel

end LiveExpr
