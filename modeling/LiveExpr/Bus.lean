import LiveExpr.Table
import LiveExpr.Text.Record

/-!
Subscriptions to named triggers. Each subscription is in one of two tiers, and a
fan-out calls all invalidators of a name before any listener, each tier in the
order of subscription. Fires that wait for their fan-out stand in a first-in
first-out line. The bus itself calls nobody: it says whom to call next. Those who
use the bus on their own account cannot end each other's subscriptions.
-/
namespace LiveExpr

/-- On whose account a subscription is made. -/
inductive Owner where
  | engine
  | host
deriving DecidableEq, Repr

/-- What the bus knows a subscription by. -/
structure Ticket where
  owner : Owner
  number : Nat
deriving DecidableEq, Repr

/-- What the host is handed for a subscription of its own. It never sees those of the engine. -/
structure SubscriptionId where
  number : Nat
deriving DecidableEq, Repr

def SubscriptionId.ticket (id : SubscriptionId) : Ticket := ⟨.host, id.number⟩

inductive Tier where
  | invalidate
  | listen
deriving DecidableEq, Repr

structure Subscription (α : Type) where
  name : String
  tier : Tier
  target : α

structure Bus (α : Type) where
  subscriptions : List (Ticket × Subscription α)
  /-- Live subscriptions of each name that has any, oldest first. -/
  byName : Table (List Ticket)
  nextNumber : Nat
  pending : List String
  dispatching : Bool

namespace Bus

variable {α : Type}

def empty : Bus α := ⟨[], [], 0, [], false⟩

def find? (b : Bus α) (id : Ticket) : Option (Subscription α) :=
  (b.subscriptions.find? fun entry => entry.1 = id).map Prod.snd

def isLive (b : Bus α) (id : Ticket) : Bool := (b.find? id).isSome

def idsOf (b : Bus α) (name : String) : List Ticket := (b.byName.get? name).getD []

def subscriberCount (b : Bus α) (name : String) : Nat := (b.idsOf name).length

/-- Numbers are never used twice. -/
def subscribe (b : Bus α) (owner : Owner) (name : String) (tier : Tier) (target : α) :
    Ticket × Bus α :=
  let id : Ticket := ⟨owner, b.nextNumber⟩
  (id, { b with
    subscriptions := b.subscriptions ++ [(id, ⟨name, tier, target⟩)]
    byName := b.byName.set name (b.idsOf name ++ [id])
    nextNumber := b.nextNumber + 1 })

def dropId (t : Table (List Ticket)) (name : String) (id : Ticket) :
    Table (List Ticket) :=
  match t.get? name with
  | none => t
  | some ids =>
    let rest := ids.filter (· ≠ id)
    if rest.isEmpty then t.erase name else t.set name rest

/-- Removes a subscription; the flag says whether it was still there. -/
def unsubscribe (b : Bus α) (id : Ticket) : Bool × Bus α :=
  match b.find? id with
  | none => (false, b)
  | some s => (true, { b with
      subscriptions := b.subscriptions.filter (fun entry => entry.1 ≠ id)
      byName := dropId b.byName s.name id })

def tierTargets (b : Bus α) (name : String) (tier : Tier) : List (Ticket × α) :=
  (b.idsOf name).filterMap fun id =>
    match b.find? id with
    | some s => if s.tier = tier then some (id, s.target) else none
    | none => none

/-- Whom a fan-out of the name that begins now is going to call, in order. -/
def targets (b : Bus α) (name : String) : List (Ticket × α) :=
  b.tierTargets name .invalidate ++ b.tierTargets name .listen

def enqueue (b : Bus α) (name : String) : Bus α := { b with pending := b.pending ++ [name] }

/-- The fire that has waited longest. -/
def next? (b : Bus α) : Option (String × Bus α) :=
  match b.pending with
  | [] => none
  | name :: rest => some (name, { b with pending := rest })

def setDispatching (b : Bus α) (flag : Bool) : Bus α := { b with dispatching := flag }

def describe (b : Bus α) : String :=
  Text.record "TriggerBus" [("subscriptions", toString b.subscriptions.length),
    ("pending", toString b.pending.length)]

end Bus

end LiveExpr
