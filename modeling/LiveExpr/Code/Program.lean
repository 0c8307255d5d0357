import LiveExpr.Code.Decode
import LiveExpr.Names
import LiveExpr.Text.Record

/-!
A program is its code together with a number that tells apart programs made
separately from the same bytes. Listing a program decodes it from the start, each
instruction where the one before it ended, up to the end or the first fault.
-/
namespace LiveExpr

structure Program where
  code : ByteArray
  /-- Copies of one program share the number; of two programs with the same code, made separately,
  each has its own. -/
  ident : Nat

structure Listing where
  items : List (Nat × Instruction)
  fault : Option Fault

def listFrom (code : ByteArray) (offset : Nat)
    (items : Array (Nat × Instruction)) : Listing :=
  if offset < code.size then
    match _h : decode code offset with
    | .ok (i, next) => listFrom code next (items.push (offset, i))
    | .error f => ⟨items.toList, some f⟩
  else ⟨items.toList, none⟩
termination_by code.size - offset
decreasing_by
  have := decode_bounds _h
  omega

def Instruction.calledName? : Instruction → Option String
  | .call name _ => some name
  | _ => none

def Listing.calledNames (l : Listing) : List String :=
  Names.distinct (l.items.filterMap fun item => item.2.calledName?)

namespace Program

/-- Programs are equal when their bytes are. -/
instance : BEq Program := ⟨fun p q => p.code == q.code⟩

/-- Whether two programs are copies of one. -/
def sameProgram (p q : Program) : Bool := p.ident == q.ident && p.code == q.code

def size (p : Program) : Nat := p.code.size

def listing (p : Program) : Listing := listFrom p.code 0 #[]

/-- Names called directly, as far as the program can be listed. -/
def referencedNames (p : Program) : List String := p.listing.calledNames

def describe (p : Program) : String := Text.record "Program" [("len", toString p.size)]

end Program

end LiveExpr
