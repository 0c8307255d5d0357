import LiveExpr.Text.Record

/-!
A queue of items in which no two describe the same entity. Putting an item in
replaces the first one it agrees with, in that one's place, and otherwise adds it
at the back. The front item is the one to be read and acknowledged next.
-/
namespace LiveExpr

/-- What a queue has to know about its items. -/
class Entity (α : Type) where
  /-- Whether an item already in a queue describes what a new one describes. -/
  same : α → α → Bool
  property : α → String → Option String

structure Queue (α : Type) where
  /-- The name that fires when the content changes. -/
  trigger : String
  items : List α

namespace Queue

variable {α : Type}

def empty (trigger : String) : Queue α := ⟨trigger, []⟩

def size (q : Queue α) : Nat := q.items.length

def isEmpty (q : Queue α) : Bool := q.items.isEmpty

def place [Entity α] : List α → α → List α
  | [], item => [item]
  | e :: rest, item => if Entity.same e item then item :: rest else e :: place rest item

def put [Entity α] (q : Queue α) (item : α) : Queue α := { q with items := place q.items item }

def front? (q : Queue α) : Option α := q.items.head?

def property? [Entity α] (q : Queue α) (name : String) : Option String :=
  q.front?.bind fun item => Entity.property item name

def pop (q : Queue α) : Option α × Queue α := (q.front?, { q with items := q.items.tail })

def describe (q : Queue α) : String :=
  Text.record "ModuleQueue" [("trigger", Text.quoted q.trigger), ("len", toString q.size)]

end Queue

end LiveExpr
