import LiveExpr.Context
import LiveExpr.Engine.State

/-!
What the host's own code can do to an engine. An action is a sequence of requests,
each of which is answered before the next one is chosen, with looks at the state
but not the journal, and changes of the host's own state in between. A script says
which action each code of a host stands for.
-/
namespace LiveExpr

inductive Request (H : Host) where
  | bind (p : Program) (mode : Mode)
  | unbind (h : Handle)
  | read (h : Handle) (c : Context)
  | refresh
  | evaluate (p : Program) (args : List Value) (c : Context)
  | registerNative (name : String) (f : H.Function) (deterministic : Bool)
  | registerUser (name : String) (p : Program)
  | unregister (name : String)
  | lookup (name : String)
  | subscribe (name : String) (tier : Tier) (l : H.Listener)
  | bindAction (name : String) (p : Program)
  | unsubscribe (id : SubscriptionId)
  | fire (name : String)
  | openQueue (name trigger : String) (k : H.Kind)
  | appendNamed (name : String) (k : H.Kind) (item : H.Item k)
  | append (q : QueueRef H) (item : H.Item q.kind)
  | take (q : QueueRef H)
  | popNamed (name : String)
  | acknowledge (name : String)
  | removeQueue (name : String)
  | post (m : Message H)
  | addSource (s : H.Source)
  | dispatch

/-- The type of the answer to a request. -/
@[reducible]
def Request.Reply {H : Host} : Request H → Type
  | .bind _ _ => Handle
  | .unbind _ => Bool
  | .read _ _ => Value
  | .refresh => List Handle
  | .evaluate _ _ _ => Except Fault Evaluation
  | .registerNative _ _ _ => Unit
  | .registerUser _ _ => Unit
  | .unregister _ => Bool
  | .lookup _ => Behavior (Native H)
  | .subscribe _ _ _ => SubscriptionId
  | .bindAction _ _ => SubscriptionId
  | .unsubscribe _ => Bool
  | .fire _ => Unit
  | .openQueue _ _ _ => Except (QueueError H.Kind) (QueueRef H)
  | .appendNamed _ _ _ => Except (QueueError H.Kind) Unit
  | .append _ _ => Unit
  | .take q => Option (H.Item q.kind)
  | .popNamed _ => Bool
  | .acknowledge _ => Bool
  | .removeQueue _ => Bool
  | .post _ => Unit
  | .addSource _ => Unit
  | .dispatch => Nat

inductive Action (H : Host) (α : Type) where
  | pure (a : α)
  | request (r : Request H) (next : r.Reply → Action H α)
  | look (next : Engine H → Action H α)
  | change (f : H.State → H.State) (next : Action H α)

namespace Action

variable {H : Host} {α β : Type}

def bind : Action H α → (α → Action H β) → Action H β
  | .pure a, f => f a
  | .request r next, f => .request r fun reply => (next reply).bind f
  | .look next, f => .look fun e => (next e).bind f
  | .change g next, f => .change g (next.bind f)

instance : Monad (Action H) where
  pure := Action.pure
  bind := Action.bind

def ask (r : Request H) : Action H r.Reply := .request r .pure

def engine : Action H (Engine H) := .look .pure

def hostState : Action H H.State := .look fun e => .pure e.host

def modifyHost (f : H.State → H.State) : Action H Unit := .change f (.pure ())

end Action

/-- The actions that the codes of `C` stand for in an engine for the host `H`. -/
structure Script (C H : Host) where
  native : C.Function → List Value → Context → Action H Value
  listener : C.Listener → String → Action H Unit
  task : C.Task → Action H Unit
  /-- Brings in the events a source has, and counts them. -/
  pump : C.Source → Action H Nat

end LiveExpr
