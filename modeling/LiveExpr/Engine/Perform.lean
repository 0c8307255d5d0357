import LiveExpr.Engine.Fire

/-!
Answering requests, and running the actions of a script. Changes of a binding or a
queue become visible before the fire that announces them is issued.
-/
namespace LiveExpr

namespace Engine

variable {H : Host}

def register (call : Callbacks H) (name : String) (b : Behavior (Native H)) : Run H Unit := do
  let (changed, registry) := (← get).registry.replace name b
  modify fun e => { e with registry }
  if changed then fire call name

def unregister (call : Callbacks H) (name : String) : Run H Bool := do
  let (changed, registry) := (← get).registry.unregister name
  modify fun e => { e with registry }
  if changed then fire call name
  return changed

def lookup (name : String) : Run H (Behavior (Native H)) := do
  let (behavior, registry) := (← get).registry.lookup name
  modify fun e => { e with registry }
  return behavior

/-- Subscribes on the account of the host. -/
def subscribe (name : String) (tier : Tier) (target : Subscriber H) : Run H SubscriptionId := do
  let (id, bus) := (← get).bus.subscribe .host name tier target
  modify fun e => { e with bus }
  return ⟨id.number⟩

def unsubscribe (id : SubscriptionId) : Run H Bool := do
  let (removed, bus) := (← get).bus.unsubscribe id.ticket
  modify fun e => { e with bus }
  return removed

def openQueue (name trigger : String) (k : H.Kind) :
    Run H (Except (QueueError H.Kind) (QueueRef H)) := do
  match (← get).queues.openQueue name trigger k with
  | .error e => return .error e
  | .ok (q, queues) =>
    modify fun e => { e with queues }
    return .ok q

/-- Announces the new content of the queue once, whether the item is new or replaced another. -/
def append (call : Callbacks H) (q : QueueRef H) (item : H.Item q.kind) : Run H Unit := do
  match (← get).queues.at? q with
  | none => pure ()
  | some content =>
    modify fun e => { e with queues := e.queues.update q (content.put item) }
    fire call content.trigger

/-- A queue that is made by an append has its own name as trigger. -/
def appendNamed (call : Callbacks H) (name : String) (k : H.Kind) (item : H.Item k) :
    Run H (Except (QueueError H.Kind) Unit) := do
  match (← get).queues.openQueue name name k with
  | .error e => return .error e
  | .ok (q, queues) =>
    -- A queue of another kind is not opened, so this is always so.
    if h : q.kind = k then
      modify fun e => { e with queues }
      append call q (h ▸ item)
    return .ok ()

def take (q : QueueRef H) : Run H (Option (H.Item q.kind)) := do
  match (← get).queues.at? q with
  | none => return none
  | some content =>
    let (item, rest) := content.pop
    modify fun e => { e with queues := e.queues.update q rest }
    return item

/-- Drops the front item of a named queue without a fire. -/
def popNamed (name : String) : Run H Bool := do
  match (← get).queues.named? name with
  | none => return false
  | some (n, q) =>
    let (popped, rest) := q.pop
    modify fun e => { e with queues := e.queues.replace n rest }
    return popped

/-- Drops the front item and, if items remain, fires the trigger, so that readers move on. -/
def acknowledge (call : Callbacks H) (name : String) : Run H Bool := do
  match (← get).queues.named? name with
  | none => return false
  | some (n, q) =>
    let (popped, rest) := q.pop
    modify fun e => { e with queues := e.queues.replace n rest }
    if popped && !rest.isEmpty then fire call rest.trigger
    return popped

def removeQueue (name : String) : Run H Bool := do
  let (known, queues) := (← get).queues.remove name
  modify fun e => { e with queues }
  return known

def deliverMessage (call : Callbacks H) (m : Message H) : Run H Unit := do
  write (.delivered m)
  match m with
  | .fire name => fire call name
  | .task t => call.task t

def pumpSource (call : Callbacks H) (s : H.Source) : Run H Nat := do
  write (.pumped s)
  call.pump s

/-- Delivers the messages that are there now, then pumps the sources there are after that. -/
def dispatch (call : Callbacks H) : Run H Nat := do
  let (messages, mailbox) := (← get).mailbox.drain
  modify fun e => { e with mailbox }
  messages.forM (deliverMessage call)
  let counts ← (← get).sources.mapM (pumpSource call)
  return counts.foldl (· + ·) messages.length

def textArg (args : List Value) (i : Nat) : Option String := args[i]?.bind Value.text?

def argQueue (args : List Value) : Run H (Option (KindQueue H)) := do
  match textArg args 0 with
  | none => return none
  | some name => return ((← get).queues.named? name).map Prod.snd

/-- The natives for queues: a property of the front item, the length, and acknowledgment. -/
def builtin (call : Callbacks H) (b : Builtin) (args : List Value) : Run H Value := do
  match b with
  | .queueGet =>
    let found ← argQueue args
    return .ofText? (found.bind fun q => (textArg args 1).bind q.property?)
  | .queueLength =>
    match ← argQueue args with
    | some q => return .number (Float.ofNat q.size)
    | none => return .unset
  | .queueAck =>
    match textArg args 0 with
    | some name =>
      let _ ← acknowledge call name
      return .unset
    | none => return .unset

def answer (call : Callbacks H) : (r : Request H) → Run H r.Reply
  | .bind p mode => bind call p mode
  | .unbind h => unbind h
  | .read h c => read call h c
  | .refresh => refresh call
  | .evaluate p args c => evaluate call p args c
  | .registerNative name f deterministic => register call name (.native (.host f) deterministic)
  | .registerUser name p => register call name (.user p)
  | .unregister name => unregister call name
  | .lookup name => lookup name
  | .subscribe name tier l => subscribe name tier (.listener l)
  | .bindAction name p => subscribe name .listen (.action p)
  | .unsubscribe id => unsubscribe id
  | .fire name => fire call name
  | .openQueue name trigger k => openQueue name trigger k
  | .appendNamed name k item => appendNamed call name k item
  | .append q item => append call q item
  | .take q => take q
  | .popNamed name => popNamed name
  | .acknowledge name => acknowledge call name
  | .removeQueue name => removeQueue name
  | .post m => modify fun e => { e with mailbox := e.mailbox.send m }
  | .addSource s => modify fun e => { e with sources := e.sources ++ [s] }
  | .dispatch => dispatch call

end Engine

namespace Action

variable {H : Host} {α : Type}

def run (call : Callbacks H) : Action H α → Run H α
  | .pure a => Pure.pure a
  | .request r next => do (next (← Engine.answer call r)).run call
  | .look next => do (next (← get).unwritten).run call
  | .change f next => do
    modify fun e => { e with host := f e.host }
    next.run call

end Action

namespace Script

variable {H : Host}

/-- Callbacks that may nest as deep as the second number says. -/
def callbacks (script : Script H H) (rounds : Nat) : Nat → Callbacks H
  | 0 => ⟨fun _ _ _ => failure, fun _ _ => failure, fun _ => failure, fun _ => failure, rounds⟩
  | depth + 1 =>
    let inner := script.callbacks rounds depth
    { native := fun f args c =>
        match f with
        | .builtin b => Engine.builtin inner b args
        | .host f => (script.native f args c).run inner
      listener := fun l name => (script.listener l name).run inner
      task := fun t => (script.task t).run inner
      pump := fun s => (script.pump s).run inner
      rounds }

end Script

end LiveExpr
