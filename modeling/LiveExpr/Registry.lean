import LiveExpr.Code.Program
import LiveExpr.Table

/-!
What the names in programs stand for: a native function, a program of the user,
or nothing yet. A name that was looked up or bound once keeps its entry. Changing
an entry reports whether the identity behind the name changed, because only then
does the name have to fire.
-/
namespace LiveExpr

inductive Behavior (φ : Type) where
  | native (function : φ) (deterministic : Bool)
  | user (program : Program)
  | unbound

namespace Behavior

variable {φ : Type}

def isBound : Behavior φ → Bool
  | .unbound => false
  | _ => true

/-- The same native with the same flag, or copies of one program. -/
def sameAs [DecidableEq φ] : Behavior φ → Behavior φ → Bool
  | .native f a, .native g b => decide (f = g) && a == b
  | .user p, .user q => p.sameProgram q
  | .unbound, .unbound => true
  | _, _ => false

def describe : Behavior φ → String
  | .native _ deterministic => Text.openRecord "Native" [("deterministic", toString deterministic)]
  | .user p => Text.wrapped "UserDefined" p.describe
  | .unbound => "Unbound"

end Behavior

structure Registry (φ : Type) where
  entries : Table (Behavior φ)

namespace Registry

variable {φ : Type}

def empty : Registry φ := ⟨[]⟩

def size (r : Registry φ) : Nat := r.entries.length

def names (r : Registry φ) : List String := Names.sorted r.entries.keys

def contains (r : Registry φ) (name : String) : Bool := r.entries.contains name

/-- A name without an entry is unbound. -/
def resolve (r : Registry φ) (name : String) : Behavior φ := (r.entries.get? name).getD .unbound

def isBound (r : Registry φ) (name : String) : Bool := (r.resolve name).isBound

/-- Binds the name; the flag says whether something else, or nothing, stood there. -/
def replace [DecidableEq φ] (r : Registry φ) (name : String) (behavior : Behavior φ) :
    Bool × Registry φ :=
  let kept := match r.entries.get? name with
    | some previous => previous.sameAs behavior
    | none => false
  (!kept, ⟨r.entries.set name behavior⟩)

/-- Unbinds the name but keeps its entry; the flag says whether it was bound. -/
def unregister (r : Registry φ) (name : String) : Bool × Registry φ :=
  if r.isBound name then (true, ⟨r.entries.set name .unbound⟩) else (false, r)

/-- Resolves the name, giving it an unbound entry if it has none. -/
def lookup (r : Registry φ) (name : String) : Behavior φ × Registry φ :=
  match r.entries.get? name with
  | some behavior => (behavior, r)
  | none => (.unbound, ⟨r.entries.set name .unbound⟩)

def describe (r : Registry φ) : String :=
  Text.record "FunctionRegistry" [("entries", toString r.size)]

end Registry

end LiveExpr
