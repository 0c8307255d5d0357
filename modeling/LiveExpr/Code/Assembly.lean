import LiveExpr.Code.Instruction
import LiveExpr.Fault

/-!
Assembling code from a list of emissions. A forward jump is written with the
operand zero and reserves a slot; binding a slot points its jump at the current
end of the code, and may be done again later. A jump whose distance does not fit
its operand is reported and keeps the operand it had.
-/
namespace LiveExpr

/-- Slots and labels are counted from zero in the order in which they were made. -/
inductive Emission where
  | opcode (op : Opcode)
  | number (bits : UInt64)
  | text (s : String)
  | boolean (b : Bool)
  | argument (index : UInt8)
  | call (name : String) (argc : UInt8)
  | jump
  | jumpIfFalse
  | label
  | bind (slot : Nat)
  | jumpTo (label : Nat)

structure Assembly where
  code : ByteArray
  /-- Offsets of the operands of the reserved jumps. -/
  slots : Array Nat
  /-- Offsets that backward jumps may target. -/
  labels : Array Nat
  faults : Array Fault

def clipChars : Nat → List Char → List Char → List Char
  | _, kept, [] => kept.reverse
  | room, kept, c :: rest =>
    if c.utf8Size ≤ room then clipChars (room - c.utf8Size) (c :: kept) rest else kept.reverse

/-- The longest leading part of a text that an operand can hold. -/
def clip (s : String) : String :=
  if s.utf8ByteSize ≤ Instruction.maxTextBytes then s
  else String.ofList (clipChars Instruction.maxTextBytes [] s.toList)

namespace Assembly

def empty : Assembly := ⟨ByteArray.empty, #[], #[], #[]⟩

def append (a : Assembly) (bytes : ByteArray) : Assembly := { a with code := a.code ++ bytes }

def emit (a : Assembly) (i : Instruction) : Assembly := a.append i.encode

/-- Writes the distance from behind the operand at `slot` to the target. -/
def patch (a : Assembly) (slot target : Nat) : Assembly :=
  let next := slot + 2
  let distance : Int := target - next
  if -32768 ≤ distance ∧ distance ≤ 32767 then
    { a with
      code := a.code.extract 0 slot ++ Instruction.encodeJump (Int16.ofInt distance) ++
        a.code.extract next a.code.size }
  else { a with faults := a.faults.push ⟨slot - 1, .jumpOutOfBounds distance⟩ }

/-- The operand of the next jump to be emitted. -/
def nextSlot (a : Assembly) : Nat := a.code.size + 1

def reserve (a : Assembly) (i : Instruction) : Assembly :=
  { a.emit i with slots := a.slots.push a.nextSlot }

def step (a : Assembly) : Emission → Assembly
  | .opcode op => a.append (Instruction.bytesOf 1 op.byte.toNat)
  | .number bits => a.emit (.pushNumber bits)
  | .text s => a.emit (.pushText (clip s))
  | .boolean b => a.emit (.pushBool b)
  | .argument index => a.emit (.loadArg index)
  | .call name argc => a.emit (.call (clip name) argc)
  | .jump => a.reserve (.jump 0)
  | .jumpIfFalse => a.reserve (.jumpIfFalse 0)
  | .label => { a with labels := a.labels.push a.code.size }
  | .bind slot =>
    match a.slots[slot]? with
    | some offset => a.patch offset a.code.size
    | none => a
  | .jumpTo label =>
    match a.labels[label]? with
    | some target => (a.emit (.jump 0)).patch a.nextSlot target
    | none => a

end Assembly

def assemble (emissions : List Emission) : Assembly := emissions.foldl Assembly.step .empty

end LiveExpr
