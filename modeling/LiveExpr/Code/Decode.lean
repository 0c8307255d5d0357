import LiveExpr.Code.Instruction
import LiveExpr.Fault

/-!
Reading one instruction at an offset. Reading fails at the opcode when no byte is
there or the byte names no operation, at the operands when the code ends too
early, and at a text when its bytes are all there but are not UTF-8.
-/
namespace LiveExpr

/-- A run of bytes that lies inside the code. -/
def slice? (code : ByteArray) (offset length : Nat) : Except Reason ByteArray :=
  if offset + length ≤ code.size then .ok (code.extract offset (offset + length))
  else .error .truncated

def readNat (code : ByteArray) (offset width : Nat) : Except Reason Nat :=
  (slice? code offset width).map fun bytes => LittleEndian.ofBytes bytes.data.toList

def readJump (code : ByteArray) (offset : Nat) : Except Reason Int16 :=
  (readNat code offset 2).map fun n => n.toUInt16.toInt16

/-- The text and the offset behind it. -/
def readText (code : ByteArray) (offset : Nat) : Except Reason (String × Nat) := do
  let length ← readNat code offset 2
  let bytes ← slice? code (offset + 2) length
  match String.fromUTF8? bytes with
  | some s => .ok (s, offset + 2 + length)
  | none => .error .invalidText

def readOperands (code : ByteArray) (offset : Nat) : Opcode → Except Reason (Instruction × Nat)
  | .pushUnset => .ok (.pushUnset, offset)
  | .pushNumber => do
    let bits ← readNat code offset 8
    .ok (.pushNumber bits.toUInt64, offset + 8)
  | .pushText => do
    let (s, next) ← readText code offset
    .ok (.pushText s, next)
  | .pushTrue => .ok (.pushBool true, offset)
  | .pushFalse => .ok (.pushBool false, offset)
  | .loadArg => do
    let index ← readNat code offset 1
    .ok (.loadArg index.toUInt8, offset + 1)
  | .call => do
    let argc ← readNat code offset 1
    let (name, next) ← readText code (offset + 1)
    .ok (.call name argc.toUInt8, next)
  | .pop => .ok (.pop, offset)
  | .unary op => .ok (.unary op, offset)
  | .binary op => .ok (.binary op, offset)
  | .jump => do
    let rel ← readJump code offset
    .ok (.jump rel, offset + 2)
  | .jumpIfFalse => do
    let rel ← readJump code offset
    .ok (.jumpIfFalse rel, offset + 2)
  | .ret => .ok (.ret, offset)

/-- The instruction that starts at the offset, and the offset behind it. -/
def decode (code : ByteArray) (offset : Nat) : Except Fault (Instruction × Nat) :=
  if h : offset < code.size then
    match Opcode.ofByte? code[offset] with
    | none => .error ⟨offset, .unknownOpcode code[offset]⟩
    | some op =>
      match readOperands code (offset + 1) op with
      | .ok found => .ok found
      | .error reason => .error ⟨offset, reason⟩
  else .error ⟨offset, .truncated⟩

theorem slice?_bound {code bytes : ByteArray} {offset length : Nat}
    (h : slice? code offset length = .ok bytes) : offset + length ≤ code.size := by
  unfold slice? at h
  split at h
  · assumption
  · cases h

theorem readNat_bound {code : ByteArray} {offset width n : Nat}
    (h : readNat code offset width = .ok n) : offset + width ≤ code.size := by
  unfold readNat at h
  cases hs : slice? code offset width with
  | ok bytes => exact slice?_bound hs
  | error r => simp [hs, Except.map] at h

theorem readText_bound {code : ByteArray} {offset next : Nat} {s : String}
    (h : readText code offset = .ok (s, next)) : offset < next ∧ next ≤ code.size := by
  unfold readText at h
  cases hl : readNat code offset 2 with
  | error r => simp [hl, bind, Except.bind] at h
  | ok length =>
    cases hs : slice? code (offset + 2) length with
    | error r => simp [hl, hs, bind, Except.bind] at h
    | ok bytes =>
      have hb := slice?_bound hs
      simp only [hl, hs, bind, Except.bind] at h
      split at h
      · injection h with h
        injection h with _ h
        omega
      · cases h

theorem readOperands_bound {code : ByteArray} {offset next : Nat} {op : Opcode} {i : Instruction}
    (ho : offset ≤ code.size) (h : readOperands code offset op = .ok (i, next)) :
    offset ≤ next ∧ next ≤ code.size := by
  have step {width : Nat} {f : Nat → Instruction}
      (h : (do let n ← readNat code offset width; .ok (f n, offset + width)) =
        Except.ok (ε := Reason) (i, next)) : offset ≤ next ∧ next ≤ code.size := by
    cases hn : readNat code offset width with
    | error r => simp [hn, bind, Except.bind] at h
    | ok n =>
      have hb := readNat_bound hn
      simp only [hn, bind, Except.bind, Except.ok.injEq, Prod.mk.injEq] at h
      omega
  have jump {f : Int16 → Instruction}
      (h : (do let rel ← readJump code offset; .ok (f rel, offset + 2)) =
        Except.ok (ε := Reason) (i, next)) : offset ≤ next ∧ next ≤ code.size := by
    cases hn : readNat code offset 2 with
    | error r => simp [readJump, hn, Except.map, bind, Except.bind] at h
    | ok n =>
      have hb := readNat_bound hn
      simp only [readJump, hn, Except.map, bind, Except.bind, Except.ok.injEq, Prod.mk.injEq] at h
      omega
  cases op with
  | pushNumber => exact step h
  | loadArg => exact step h
  | jump => exact jump h
  | jumpIfFalse => exact jump h
  | pushText =>
    cases ht : readText code offset with
    | error r => simp [readOperands, ht, bind, Except.bind] at h
    | ok found =>
      have hb := readText_bound ht
      simp only [readOperands, ht, bind, Except.bind, Except.ok.injEq, Prod.mk.injEq] at h
      omega
  | call =>
    cases hn : readNat code offset 1 with
    | error r => simp [readOperands, hn, bind, Except.bind] at h
    | ok argc =>
      cases ht : readText code (offset + 1) with
      | error r => simp [readOperands, hn, ht, bind, Except.bind] at h
      | ok found =>
        have hb := readText_bound ht
        simp only [readOperands, hn, ht, bind, Except.bind, Except.ok.injEq, Prod.mk.injEq] at h
        omega
  | _ =>
    simp only [readOperands, Except.ok.injEq, Prod.mk.injEq] at h
    omega

/-- A decoded instruction is never empty and ends inside the code. -/
theorem decode_bounds {code : ByteArray} {offset next : Nat} {i : Instruction}
    (h : decode code offset = .ok (i, next)) : offset < next ∧ next ≤ code.size := by
  unfold decode at h
  split at h
  · rename_i hlt
    split at h
    · cases h
    · split at h
      · rename_i hr
        cases h
        have hb := readOperands_bound hlt hr
        omega
      · cases h
  · cases h

/-- What cannot be read is at fault itself. -/
theorem decode_offset {code : ByteArray} {offset : Nat} {f : Fault}
    (h : decode code offset = .error f) : f.offset = offset := by
  unfold decode at h
  split at h
  · split at h
    · cases h
      rfl
    · split at h
      · cases h
      · cases h
        rfl
  · cases h
    rfl

end LiveExpr
