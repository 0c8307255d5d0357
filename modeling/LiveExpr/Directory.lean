import LiveExpr.Host
import LiveExpr.Names
import LiveExpr.Table

/-!
The queues of an engine by name. A name holds one queue with one kind of items
until it is removed; asking for another kind is refused. A removed queue keeps its
content for those who still refer to it, and a new one may take its name.
-/
namespace LiveExpr

variable {H : Host}

/-- A queue together with the kind of its items. -/
structure KindQueue (H : Host) where
  kind : H.Kind
  queue : Queue (H.Item kind)

namespace KindQueue

def as? (q : KindQueue H) (k : H.Kind) : Option (Queue (H.Item k)) :=
  if h : q.kind = k then some (h ▸ q.queue) else none

def trigger (q : KindQueue H) : String := q.queue.trigger

def size (q : KindQueue H) : Nat := q.queue.size

def isEmpty (q : KindQueue H) : Bool := q.queue.isEmpty

def property? (q : KindQueue H) (name : String) : Option String := q.queue.property? name

/-- Drops the front item; the flag says whether there was one. -/
def pop (q : KindQueue H) : Bool × KindQueue H :=
  (!q.isEmpty, ⟨q.kind, q.queue.pop.2⟩)

end KindQueue

/-- Refers to one queue, by name or not, for as long as the engine lives. -/
structure QueueRef (H : Host) where
  kind : H.Kind
  number : Nat

inductive QueueError (κ : Type) where
  | kindMismatch (name : String) (existing requested : κ)

/-- The text of the error, given how the kinds are called. -/
def QueueError.message {κ : Type} (label : κ → String) : QueueError κ → String
  | .kindMismatch name existing requested =>
    "queue '" ++ name ++ "' holds " ++ label existing ++ ", not " ++ label requested

structure Directory (H : Host) where
  /-- Every queue ever made, by its number. -/
  queues : List (KindQueue H)
  numbers : Table Nat

namespace Directory

def empty : Directory H := ⟨[], []⟩

def named? (d : Directory H) (name : String) : Option (Nat × KindQueue H) := do
  let n ← d.numbers.get? name
  let q ← d.queues[n]?
  some (n, q)

def at? (d : Directory H) (q : QueueRef H) : Option (Queue (H.Item q.kind)) :=
  d.queues[q.number]?.bind fun found => found.as? q.kind

theorem at?_eq_some {d : Directory H} {q : QueueRef H} {content : Queue (H.Item q.kind)} :
    d.at? q = some content ↔ d.queues[q.number]? = some ⟨q.kind, content⟩ := by
  unfold at?
  cases hq : d.queues[q.number]? with
  | none => simp
  | some found =>
    obtain ⟨kind, queue⟩ := found
    obtain ⟨k, n⟩ := q
    by_cases hk : kind = k
    · subst hk
      simp [KindQueue.as?]
    · simp [KindQueue.as?, hk]

theorem named?_eq_some {d : Directory H} {name : String} {n : Nat} {q : KindQueue H}
    (h : d.named? name = some (n, q)) : d.queues[n]? = some q := by
  obtain ⟨n', -, h⟩ := Option.bind_eq_some_iff.mp h
  obtain ⟨q', hq, h⟩ := Option.bind_eq_some_iff.mp h
  cases h
  exact hq

def typed? (d : Directory H) (name : String) (k : H.Kind) : Option (QueueRef H) :=
  match d.named? name with
  | some (n, q) => if q.kind = k then some ⟨k, n⟩ else none
  | none => none

/-- The trigger of a queue that exists already is left as it is. -/
def openQueue (d : Directory H) (name trigger : String) (k : H.Kind) :
    Except (QueueError H.Kind) (QueueRef H × Directory H) :=
  match d.named? name with
  | some (n, q) =>
    if q.kind = k then .ok (⟨k, n⟩, d) else .error (.kindMismatch name q.kind k)
  | none =>
    .ok (⟨k, d.queues.length⟩,
      ⟨d.queues ++ [⟨k, .empty trigger⟩], d.numbers.set name d.queues.length⟩)

/-- Nothing is changed, or an empty queue is added. -/
theorem openQueue_eq_ok {d d' : Directory H} {name trigger : String} {k : H.Kind} {q : QueueRef H}
    (h : d.openQueue name trigger k = .ok (q, d')) :
    d' = d ∨ ∃ numbers, d' = ⟨d.queues ++ [⟨k, .empty trigger⟩], numbers⟩ := by
  unfold openQueue at h
  split at h
  · split at h
    · cases h
      exact Or.inl rfl
    · cases h
  · cases h
    exact Or.inr ⟨_, rfl⟩

def replace (d : Directory H) (n : Nat) (q : KindQueue H) : Directory H :=
  { d with queues := d.queues.set n q }

def update (d : Directory H) (q : QueueRef H) (content : Queue (H.Item q.kind)) : Directory H :=
  d.replace q.number ⟨q.kind, content⟩

/-- Forgets the name; the flag says whether it was known. -/
def remove (d : Directory H) (name : String) : Bool × Directory H :=
  (d.numbers.contains name, { d with numbers := d.numbers.erase name })

def names (d : Directory H) : List String := Names.sorted d.numbers.keys

def describe (d : Directory H) : String :=
  Text.record "QueueDirectory" [("queues", Text.listed (d.names.map Text.quoted))]

end Directory

end LiveExpr
