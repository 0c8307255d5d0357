import LiveExpr.Operator

/-!
The first byte of an instruction. The table of bytes is injective, so a byte names
at most one operation; the bytes between the groups name none.
-/
namespace LiveExpr

inductive Opcode where
  | pushUnset
  | pushNumber
  | pushText
  | pushTrue
  | pushFalse
  | loadArg
  | call
  | pop
  | unary (op : Unary)
  | binary (op : Binary)
  | jump
  | jumpIfFalse
  | ret
deriving DecidableEq, Repr

namespace Opcode

def ofByte? : UInt8 → Option Opcode
  | 0x01 => some .pushUnset
  | 0x02 => some .pushNumber
  | 0x03 => some .pushText
  | 0x04 => some .pushTrue
  | 0x05 => some .pushFalse
  | 0x06 => some .loadArg
  | 0x10 => some .call
  | 0x11 => some .pop
  | 0x20 => some (.binary .add)
  | 0x21 => some (.binary .sub)
  | 0x22 => some (.binary .mul)
  | 0x23 => some (.binary .div)
  | 0x24 => some (.binary .mod)
  | 0x25 => some (.unary .neg)
  | 0x26 => some (.unary .not)
  | 0x30 => some (.binary .eq)
  | 0x31 => some (.binary .ne)
  | 0x32 => some (.binary .lt)
  | 0x33 => some (.binary .le)
  | 0x34 => some (.binary .gt)
  | 0x35 => some (.binary .ge)
  | 0x40 => some .jump
  | 0x41 => some .jumpIfFalse
  | 0x50 => some .ret
  | _ => none

def byte : Opcode → UInt8
  | .pushUnset => 0x01
  | .pushNumber => 0x02
  | .pushText => 0x03
  | .pushTrue => 0x04
  | .pushFalse => 0x05
  | .loadArg => 0x06
  | .call => 0x10
  | .pop => 0x11
  | .binary .add => 0x20
  | .binary .sub => 0x21
  | .binary .mul => 0x22
  | .binary .div => 0x23
  | .binary .mod => 0x24
  | .unary .neg => 0x25
  | .unary .not => 0x26
  | .binary .eq => 0x30
  | .binary .ne => 0x31
  | .binary .lt => 0x32
  | .binary .le => 0x33
  | .binary .gt => 0x34
  | .binary .ge => 0x35
  | .jump => 0x40
  | .jumpIfFalse => 0x41
  | .ret => 0x50

def all : List Opcode :=
  [.pushUnset, .pushNumber, .pushText, .pushTrue, .pushFalse, .loadArg, .call, .pop,
    .binary .add, .binary .sub, .binary .mul, .binary .div, .binary .mod,
    .unary .neg, .unary .not,
    .binary .eq, .binary .ne, .binary .lt, .binary .le, .binary .gt, .binary .ge,
    .jump, .jumpIfFalse, .ret]

def name : Opcode → String
  | .pushUnset => "PushUnset"
  | .pushNumber => "PushNumber"
  | .pushText => "PushText"
  | .pushTrue => "PushTrue"
  | .pushFalse => "PushFalse"
  | .loadArg => "LoadArg"
  | .call => "Call"
  | .pop => "Pop"
  | .binary .add => "Add"
  | .binary .sub => "Sub"
  | .binary .mul => "Mul"
  | .binary .div => "Div"
  | .binary .mod => "Mod"
  | .unary .neg => "Neg"
  | .unary .not => "Not"
  | .binary .eq => "Eq"
  | .binary .ne => "Ne"
  | .binary .lt => "Lt"
  | .binary .le => "Le"
  | .binary .gt => "Gt"
  | .binary .ge => "Ge"
  | .jump => "Jump"
  | .jumpIfFalse => "JumpIfFalse"
  | .ret => "Return"

theorem ofByte?_byte (op : Opcode) : ofByte? op.byte = some op := by
  cases op with
  | unary op => cases op <;> rfl
  | binary op => cases op <;> rfl
  | _ => rfl

/-- The table names no other byte. -/
theorem byte_of_ofByte? {b : UInt8} {op : Opcode} (h : ofByte? b = some op) : op.byte = b := by
  revert h
  unfold ofByte?
  split <;> intro h <;> cases h <;> rfl

end Opcode

end LiveExpr
