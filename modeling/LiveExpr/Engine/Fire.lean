import LiveExpr.Engine.Evaluate

/-!
Firing a trigger. A fire while another one is being dispatched only joins the line
of pending names. The outermost fire works through the line until it is empty, one
fan-out after the other, and a fan-out passes over subscribers that were removed
before their turn.
-/
namespace LiveExpr.Engine

variable {H : Host}

/-- A program bound to a trigger runs with the fired name as its event; its faults are dropped. -/
def notify (call : Callbacks H) (name : String) : Subscriber H → Run H Unit
  | .cache h => modify fun e => { e with store := e.store.modify h Cache.invalidate }
  | .action p => do
    let _ ← evaluate call p [] (.ofTrigger name)
  | .listener l => call.listener l name

def deliver (call : Callbacks H) (name : String) :
    List (Ticket × Subscriber H) → Run H Unit
  | [] => pure ()
  | (id, target) :: rest => do
    -- One that was called before may have ended it.
    if (← get).bus.isLive id then
      write (.called id name)
      notify call name target
    deliver call name rest

def fanOut (call : Callbacks H) (name : String) : Run H Unit := do
  write (.fanOutBegan name)
  deliver call name ((← get).bus.targets name)
  write (.fanOutEnded name)

/-- Fans out the pending names, oldest first, as long as there are any. -/
def drain (call : Callbacks H) : Nat → Run H Unit
  | 0 => failure
  | rounds + 1 => do
    match (← get).bus.next? with
    | none => modify fun e => { e with bus := e.bus.setDispatching false }
    | some (name, bus) =>
      modify fun e => { e with bus }
      fanOut call name
      drain call rounds

/-- The fire joins the line of pending names. -/
def announce (name : String) (e : Engine H) : Engine H :=
  { e.note (.fired name) with bus := e.bus.enqueue name }

/-- Works through the line, unless that is already being done. -/
def settle (call : Callbacks H) : Run H Unit := do
  if (← get).bus.dispatching then return
  modify fun e => { e with bus := e.bus.setDispatching true }
  drain call call.rounds

def fire (call : Callbacks H) (name : String) : Run H Unit := do
  modify (announce name)
  settle call

end LiveExpr.Engine
