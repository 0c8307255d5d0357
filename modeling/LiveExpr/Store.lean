import LiveExpr.Bus
import LiveExpr.Code.Program

/-!
The bound expressions. Each one remembers the last value of its program until a
name the program called fires. Expressions live in slots; a freed slot is used
again before a new one is made, the one freed last first, under a new generation,
so that a handle that has been removed never becomes valid again.
-/
namespace LiveExpr

structure Handle where
  slot : Nat
  generation : Nat
deriving DecidableEq, Repr

inductive Mode where
  | eager
  | onDemand
deriving DecidableEq, Repr

structure Cache where
  program : Program
  mode : Mode
  /-- The stored value, as long as it is valid. -/
  value : Option Value
  /-- The last value of a completed evaluation, kept when the stored value is dropped. -/
  shown : Option Value
  /-- How often the stored value has been dropped. -/
  epoch : Nat
  /-- Whether the last completed evaluation called a nondeterministic native. -/
  volatile : Bool
  /-- The names whose fire drops the stored value, with the subscriptions to them. -/
  watches : Table Ticket

namespace Cache

def create (program : Program) (mode : Mode) : Cache :=
  ⟨program, mode, none, none, 0, false, []⟩

def invalidate (c : Cache) : Cache := { c with value := none, epoch := c.epoch + 1 }

def dependencies (c : Cache) : List String := Names.sorted c.watches.keys

theorem mem_dependencies {c : Cache} {name : String} :
    name ∈ c.dependencies ↔ name ∈ c.watches.keys := by
  simp [dependencies, Names.sorted]

/-- Whether a refresh has to evaluate the expression. -/
def isStale (c : Cache) : Bool := c.mode == .eager && c.value.isNone

/-- Takes in the result of an evaluation that began in the epoch `began`. A volatile value is not
stored, and neither is one whose dependencies fired since. -/
def complete (c : Cache) (began : Nat) (v : Value) (volatile : Bool) : Cache :=
  { c with
    volatile
    shown := some v
    value := if !volatile && c.epoch == began then some v else c.value }

end Cache

structure Slot where
  generation : Nat
  cache : Option Cache

structure Store where
  slots : List Slot
  /-- Freed slots, the one freed last first. -/
  free : List Nat

namespace Store

def empty : Store := ⟨[], []⟩

def get? (s : Store) (h : Handle) : Option Cache :=
  match s.slots[h.slot]? with
  | some slot => if slot.generation = h.generation then slot.cache else none
  | none => none

def contains (s : Store) (h : Handle) : Bool := (s.get? h).isSome

def insert (s : Store) (c : Cache) : Handle × Store :=
  match s.free with
  | [] => (⟨s.slots.length, 0⟩, { s with slots := s.slots ++ [⟨0, some c⟩] })
  | n :: rest =>
    let generation := (s.slots[n]?.map Slot.generation).getD 0
    (⟨n, generation⟩, ⟨s.slots.set n ⟨generation, some c⟩, rest⟩)

def modify (s : Store) (h : Handle) (f : Cache → Cache) : Store :=
  match s.get? h with
  | some c => { s with slots := s.slots.set h.slot ⟨h.generation, some (f c)⟩ }
  | none => s

/-- The expression that was there, if the handle was valid. -/
def remove (s : Store) (h : Handle) : Option Cache × Store :=
  match s.get? h with
  | some c => (some c, ⟨s.slots.set h.slot ⟨h.generation + 1, none⟩, h.slot :: s.free⟩)
  | none => (none, s)

/-- Bound expressions by ascending slot. -/
def entries (s : Store) : List (Handle × Cache) :=
  s.slots.zipIdx.filterMap fun (slot, n) => slot.cache.map fun c => (⟨n, slot.generation⟩, c)

def size (s : Store) : Nat := s.entries.length

def staleHandles (s : Store) : List Handle :=
  (s.entries.filter fun entry => entry.2.isStale).map Prod.fst

def describe (s : Store) : String := Text.record "ExpressionStore" [("caches", toString s.size)]

end Store

end LiveExpr
