import LiveExpr.Engine.Action

/-!
Runs of an engine and evaluation in them. A run may come to no answer, because
callbacks can nest without end. Callbacks are given from outside; all that the
engine does itself is defined over them.
-/
namespace LiveExpr

/-- A computation on the state of an engine that may never come to an answer. -/
abbrev Run (H : Host) (α : Type) := StateT (Engine H) Option α

structure Callbacks (H : Host) where
  native : Native H → List Value → Context → Run H Value
  listener : H.Listener → String → Run H Unit
  task : H.Task → Run H Unit
  pump : H.Source → Run H Nat
  /-- How many fan-outs one outermost fire may lead to. -/
  rounds : Nat

namespace Engine

variable {H : Host}

def write (n : Note H) : Run H Unit := modify fun e => e.note n

def environment (call : Callbacks H) (c : Context) : Environment (Run H) (Native H) where
  resolve name := do return (← get).registry.resolve name
  invoke f args := call.native f args c

def evaluate (call : Callbacks H) (p : Program) (args : List Value) (c : Context) :
    Run H (Except Fault Evaluation) := do
  LiveExpr.evaluate (environment call c) (← get).limits p args

/-- Has the bus drop the stored value whenever one of the names fires. -/
def watch (h : Handle) : List String → Bus (Subscriber H) → Table Ticket × Bus (Subscriber H)
  | [], b => ([], b)
  | name :: rest, b =>
    let (id, b) := b.subscribe .engine name .invalidate (.cache h)
    let (added, b) := watch h rest b
    ((name, id) :: added, b)

/-- Takes in a completed evaluation that began in the given epoch. -/
def complete (h : Handle) (began : Nat) (v : Evaluation) (e : Engine H) : Engine H :=
  match e.store.get? h with
  | none => e
  | some c =>
    let (added, bus) := watch h (v.dependencies.filter fun name => !c.watches.contains name) e.bus
    let store := e.store.modify h fun c =>
      { c with watches := c.watches ++ added }.complete began v.value v.volatile
    let done := { e with bus, store }
    if !v.volatile && c.epoch == began then done.note (.stored h v.value) else done

/-- A run of the program of a bound expression has come to an end. -/
def conclude (h : Handle) (began : Nat) (outcome : Except Fault Evaluation) (e : Engine H) :
    Engine H :=
  match outcome with
  | .ok v => (e.note (.ran h)).complete h began v
  | .error _ => e.note (.ran h)

/-- Faulty programs read as unset. -/
def reading : Except Fault Evaluation → Value
  | .ok v => v.value
  | .error _ => .unset

def refill (call : Callbacks H) (h : Handle) (cache : Cache) (c : Context) : Run H Value := do
  let outcome ← evaluate call cache.program [] c
  -- By now the expression may be unbound, or its value dropped, or another evaluation completed.
  modify (conclude h cache.epoch outcome)
  return reading outcome

/-- The value of a bound expression: the stored one, or else that of a run of the program. Unknown
handles read as unset. -/
def valueOf (call : Callbacks H) (h : Handle) (c : Context) : Run H Value := do
  match (← get).store.get? h with
  | none => return .unset
  | some cache =>
    match cache.value with
    | some v => return v
    | none => refill call h cache c

def read (call : Callbacks H) (h : Handle) (c : Context) : Run H Value := do
  let v ← valueOf call h c
  write (.answered h v)
  return v

def bind (call : Callbacks H) (p : Program) (mode : Mode) : Run H Handle := do
  let (h, store) := (← get).store.insert (.create p mode)
  modify fun e => { e with store }
  if mode = .eager then
    let _ ← read call h .empty
  return h

def unwatch (watches : Table Ticket) (b : Bus (Subscriber H)) : Bus (Subscriber H) :=
  watches.foldl (fun b watch => (b.unsubscribe watch.2).2) b

def unbind (h : Handle) : Run H Bool := do
  let (removed, store) := (← get).store.remove h
  match removed with
  | none => return false
  | some c =>
    modify fun e => { e with store, bus := unwatch c.watches e.bus }
    return true

/-- Whether the value read now differs from the one shown before. -/
def differs (before : Option Value) (after : Value) : Bool :=
  match before with
  | some v => !(v == after)
  | none => true

def refreshAll (call : Callbacks H) : List Handle → Run H (List Handle)
  | [] => pure []
  | h :: rest => do
    let before := ((← get).store.get? h).bind Cache.shown
    let after ← read call h .empty
    let changed ← refreshAll call rest
    return if differs before after then h :: changed else changed

/-- Evaluates the eager expressions whose value was dropped, and says which of them changed. -/
def refresh (call : Callbacks H) : Run H (List Handle) := do
  refreshAll call (← get).store.staleHandles

end Engine

end LiveExpr
