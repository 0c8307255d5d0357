import LiveExpr.Bus
import LiveExpr.Directory
import LiveExpr.Machine.Run
import LiveExpr.Mailbox
import LiveExpr.Store

/-!
The state of an engine, which ties together the bus, the functions, the queues and
the bound expressions of one host. The engine also keeps a journal of the things it
did in the order in which it did them, newest first.
-/
namespace LiveExpr

/-- Who is called when a trigger fires. -/
inductive Subscriber (H : Host) where
  /-- Drops the stored value of an expression. -/
  | cache (h : Handle)
  /-- Runs a program for its effects. -/
  | action (p : Program)
  /-- Calls the host. -/
  | listener (l : H.Listener)

/-- Work that waits for the next dispatch. -/
inductive Message (H : Host) where
  | fire (name : String)
  | task (t : H.Task)

inductive Note (H : Host) where
  /-- A fire of the name was issued. -/
  | fired (name : String)
  | fanOutBegan (name : String)
  | called (id : Ticket) (name : String)
  | fanOutEnded (name : String)
  /-- The program of a bound expression has run for a read. -/
  | ran (h : Handle)
  | stored (h : Handle) (v : Value)
  /-- A read of the handle was answered. -/
  | answered (h : Handle) (v : Value)
  | delivered (m : Message H)
  | pumped (s : H.Source)

structure Engine (H : Host) where
  limits : Limits
  bus : Bus (Subscriber H)
  registry : Registry (Native H)
  queues : Directory H
  store : Store
  mailbox : Mailbox (Message H)
  /-- Asked for events by every dispatch, in this order. -/
  sources : List H.Source
  host : H.State
  journal : List (Note H)

namespace Engine

variable {H : Host}

def builtins : Table (Behavior (Native H)) :=
  [("QueueGet", .native (.builtin .queueGet) false),
    ("QueueLength", .native (.builtin .queueLength) false),
    ("QueueAck", .native (.builtin .queueAck) false)]

/-- A new engine knows the natives for reading queues and nothing else. -/
def create (limits : Limits) (host : H.State) : Engine H :=
  { limits, host
    bus := .empty
    registry := ⟨builtins⟩
    queues := .empty
    store := .empty
    mailbox := .empty
    sources := []
    journal := [] }

def note (e : Engine H) (n : Note H) : Engine H := { e with journal := n :: e.journal }

/-- What the host gets to see. The journal is kept for those who watch from outside. -/
def unwritten (e : Engine H) : Engine H := { e with journal := [] }

/-- No fan-out is in progress and none is waiting. -/
def Idle (e : Engine H) : Prop := e.bus.dispatching = false ∧ e.bus.pending = []

def describe (e : Engine H) : String :=
  Text.record "Runtime"
    [("config", Text.record "RuntimeConfig" [("vm", e.limits.describe)]),
      ("registry", e.registry.describe),
      ("queues", e.queues.describe),
      ("expressions", e.store.describe),
      ("sources", toString e.sources.length)]

end Engine

end LiveExpr
