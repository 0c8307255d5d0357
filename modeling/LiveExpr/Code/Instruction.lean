import LiveExpr.Code.LittleEndian
import LiveExpr.Code.Opcode

/-!
One instruction and its bytes: the opcode, then the operands in order, numbers
lowest byte first. A text is its length in two bytes and then its UTF-8 form; a
call writes the argument count before the name.
-/
namespace LiveExpr

inductive Instruction where
  | pushUnset
  /-- The bit pattern of the number, so that every NaN keeps its own. -/
  | pushNumber (bits : UInt64)
  | pushText (s : String)
  | pushBool (b : Bool)
  | loadArg (index : UInt8)
  | call (name : String) (argc : UInt8)
  | pop
  | unary (op : Unary)
  | binary (op : Binary)
  | jump (rel : Int16)
  | jumpIfFalse (rel : Int16)
  | ret

namespace Instruction

def opcode : Instruction → Opcode
  | .pushUnset => .pushUnset
  | .pushNumber _ => .pushNumber
  | .pushText _ => .pushText
  | .pushBool b => if b then .pushTrue else .pushFalse
  | .loadArg _ => .loadArg
  | .call _ _ => .call
  | .pop => .pop
  | .unary op => .unary op
  | .binary op => .binary op
  | .jump _ => .jump
  | .jumpIfFalse _ => .jumpIfFalse
  | .ret => .ret

def bytesOf (width n : Nat) : ByteArray := ⟨(LittleEndian.toBytes width n).toArray⟩

def encodeText (s : String) : ByteArray := bytesOf 2 s.utf8ByteSize ++ s.toUTF8

def encodeJump (rel : Int16) : ByteArray := bytesOf 2 rel.toUInt16.toNat

def operandBytes : Instruction → ByteArray
  | .pushNumber bits => bytesOf 8 bits.toNat
  | .pushText s => encodeText s
  | .loadArg index => bytesOf 1 index.toNat
  | .call name argc => bytesOf 1 argc.toNat ++ encodeText name
  | .jump rel => encodeJump rel
  | .jumpIfFalse rel => encodeJump rel
  | _ => ByteArray.empty

def encode (i : Instruction) : ByteArray :=
  bytesOf 1 i.opcode.byte.toNat ++ i.operandBytes

/-- The length of a text has to fit the two bytes that hold it. -/
def maxTextBytes : Nat := 65535

def Fits : Instruction → Prop
  | .pushText s => s.utf8ByteSize ≤ maxTextBytes
  | .call name _ => name.utf8ByteSize ≤ maxTextBytes
  | _ => True

instance : DecidablePred Fits := fun i => by
  cases i <;> unfold Fits <;> infer_instance

end Instruction

end LiveExpr
