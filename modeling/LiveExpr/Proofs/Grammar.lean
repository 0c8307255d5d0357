import LiveExpr.Code.Decode

/-!
Code as words of the instruction grammar. An instruction is read at an offset exactly
where the code spells its encoding there, and each of the ways in which reading fails
says what the code spells instead. Every reader has one law for what it accepts and one
for what it refuses, and the law of an instruction is put together from those of its
operands.
-/
namespace LiveExpr

/-- The bytes stand in the code from the offset on. -/
def Spells (code : ByteArray) (offset : Nat) (bytes : ByteArray) : Prop :=
  offset + bytes.size ≤ code.size ∧ code.extract offset (offset + bytes.size) = bytes

section Spells

variable {code a b : ByteArray} {offset : Nat}

theorem spells_append :
    Spells code offset (a ++ b) ↔ Spells code offset a ∧ Spells code (offset + a.size) b := by
  have hsplit : offset + (a ++ b).size ≤ code.size →
      code.extract offset (offset + (a ++ b).size) =
        code.extract offset (offset + a.size) ++
          code.extract (offset + a.size) (offset + a.size + b.size) := by
    intro _
    rw [ByteArray.size_append, ← Nat.add_assoc]
    exact ByteArray.extract_eq_extract_append_extract _ (by omega) (by omega)
  constructor
  · rintro ⟨hbound, hbytes⟩
    rw [hsplit hbound] at hbytes
    rw [ByteArray.size_append] at hbound
    have hsize : (code.extract offset (offset + a.size)).size = a.size := by
      rw [ByteArray.size_extract]
      omega
    obtain ⟨ha, hb⟩ := (ByteArray.append_eq_append_iff_of_size_eq_left hsize).mp hbytes
    exact ⟨⟨by omega, ha⟩, ⟨by omega, hb⟩⟩
  · rintro ⟨⟨_, ha⟩, ⟨hbound, hb⟩⟩
    have hboth : offset + (a ++ b).size ≤ code.size := by
      rw [ByteArray.size_append]
      omega
    exact ⟨hboth, by rw [hsplit hboth, ha, hb]⟩

theorem spells_iff_extract {next : Nat} (hb : 0 < b.size) :
    next ≤ code.size ∧ code.extract offset next = b ↔
      Spells code offset b ∧ next = offset + b.size := by
  constructor
  · rintro ⟨hbound, rfl⟩
    rw [ByteArray.size_extract] at hb
    have hnext : offset + (code.extract offset next).size = next := by
      rw [ByteArray.size_extract]
      omega
    exact ⟨⟨by omega, by rw [hnext]⟩, hnext.symm⟩
  · rintro ⟨⟨hbound, hbytes⟩, rfl⟩
    exact ⟨hbound, hbytes⟩

theorem spells_of_append (post : ByteArray) : Spells (a ++ b ++ post) a.size b := by
  refine ⟨by simp only [ByteArray.size_append]; omega, ?_⟩
  rw [ByteArray.append_assoc]
  have h := ByteArray.extract_append_size_add (a := a) (b := b ++ post) (i := 0) (j := b.size)
  rw [Nat.add_zero, ByteArray.extract_append_eq_left rfl] at h
  exact h

end Spells

section Readers

variable {code : ByteArray} {offset : Nat}

theorem slice?_eq_ok_iff {length : Nat} {bytes : ByteArray} :
    slice? code offset length = .ok bytes ↔ bytes.size = length ∧ Spells code offset bytes := by
  unfold slice?
  constructor
  · intro h
    split at h
    · rename_i hbound
      cases h
      have hsize : (code.extract offset (offset + length)).size = length := by
        rw [ByteArray.size_extract]
        omega
      exact ⟨hsize, by rwa [hsize], by rw [hsize]⟩
    · cases h
  · rintro ⟨rfl, hbound, hbytes⟩
    rw [if_pos hbound, hbytes]

theorem slice?_eq_error {length : Nat} {r : Reason} (h : slice? code offset length = .error r) :
    r = .truncated := by
  unfold slice? at h
  split at h
  · cases h
  · cases h
    rfl

theorem Instruction.size_bytesOf (width n : Nat) : (bytesOf width n).size = width :=
  LittleEndian.length_toBytes width n

theorem readNat_eq_ok_iff {width n : Nat} :
    readNat code offset width = .ok n ↔
      n < LittleEndian.span width ∧ Spells code offset (Instruction.bytesOf width n) := by
  constructor
  · intro h
    unfold readNat at h
    cases hs : slice? code offset width with
    | error r => simp [hs, Except.map] at h
    | ok bytes =>
      rw [hs] at h
      cases h
      obtain ⟨rfl, hspells⟩ := slice?_eq_ok_iff.mp hs
      have hbytes :
          Instruction.bytesOf bytes.size (LittleEndian.ofBytes bytes.data.toList) = bytes :=
        ByteArray.ext (congrArg List.toArray (LittleEndian.toBytes_ofBytes bytes.data.toList))
      exact ⟨LittleEndian.ofBytes_lt bytes.data.toList, by rwa [hbytes]⟩
  · rintro ⟨hn, hspells⟩
    have hslice := slice?_eq_ok_iff.mpr ⟨Instruction.size_bytesOf width n, hspells⟩
    unfold readNat
    rw [hslice]
    exact congrArg Except.ok (LittleEndian.ofBytes_toBytes hn)

theorem readNat_eq_error {width : Nat} {r : Reason} (h : readNat code offset width = .error r) :
    r = .truncated := by
  unfold readNat at h
  cases hs : slice? code offset width with
  | ok bytes => simp [hs, Except.map] at h
  | error r' =>
    rw [hs] at h
    cases h
    exact slice?_eq_error hs

theorem readJump_eq_ok_iff {rel : Int16} :
    readJump code offset = .ok rel ↔ Spells code offset (Instruction.encodeJump rel) := by
  constructor
  · intro h
    unfold readJump at h
    cases hn : readNat code offset 2 with
    | error r => simp [hn, Except.map] at h
    | ok n =>
      rw [hn] at h
      cases h
      obtain ⟨hlt, hspells⟩ := readNat_eq_ok_iff.mp hn
      have hback : n.toUInt16.toInt16.toUInt16.toNat = n := by
        rw [UInt16.toUInt16_toInt16]
        exact Nat.mod_eq_of_lt hlt
      unfold Instruction.encodeJump
      rwa [hback]
  · intro h
    have hn : readNat code offset 2 = .ok rel.toUInt16.toNat :=
      readNat_eq_ok_iff.mpr ⟨rel.toUInt16.toNat_lt, h⟩
    unfold readJump
    rw [hn]
    simp [Except.map]

theorem readJump_eq_error {r : Reason} (h : readJump code offset = .error r) :
    r = .truncated := by
  unfold readJump at h
  cases hn : readNat code offset 2 with
  | ok n => simp [hn, Except.map] at h
  | error r' =>
    rw [hn] at h
    cases h
    exact readNat_eq_error hn

/-- A text operand whose bytes need not be UTF-8. -/
def rawText (text : ByteArray) : ByteArray := Instruction.bytesOf 2 text.size ++ text

theorem readText_of_spells {text : ByteArray} (hsize : text.size ≤ Instruction.maxTextBytes)
    (h : Spells code offset (rawText text)) :
    readText code offset =
      match String.fromUTF8? text with
      | some s => .ok (s, offset + 2 + text.size)
      | none => .error .invalidText := by
  obtain ⟨hlength, htext⟩ := spells_append.mp h
  rw [Instruction.size_bytesOf] at htext
  have hn : readNat code offset 2 = .ok text.size :=
    readNat_eq_ok_iff.mpr ⟨Nat.lt_succ_of_le hsize, hlength⟩
  have hs : slice? code (offset + 2) text.size = .ok text := slice?_eq_ok_iff.mpr ⟨rfl, htext⟩
  unfold readText
  cases hu : String.fromUTF8? text <;> simp only [hn, hs, hu, bind, Except.bind]

theorem readText_cases (code : ByteArray) (offset : Nat) :
    readText code offset = .error .truncated ∨
      ∃ text, text.size ≤ Instruction.maxTextBytes ∧ Spells code offset (rawText text) := by
  cases hn : readNat code offset 2 with
  | error r =>
    left
    rw [readText, hn, readNat_eq_error hn]
    rfl
  | ok length =>
    cases hs : slice? code (offset + 2) length with
    | error r =>
      left
      rw [slice?_eq_error hs] at hs
      simp only [readText, hn, hs, bind, Except.bind]
    | ok text =>
      right
      obtain ⟨hlt, hlength⟩ := readNat_eq_ok_iff.mp hn
      obtain ⟨rfl, htext⟩ := slice?_eq_ok_iff.mp hs
      refine ⟨text, Nat.le_of_lt_succ hlt, spells_append.mpr ⟨hlength, ?_⟩⟩
      rwa [Instruction.size_bytesOf]

theorem fromUTF8?_toByteArray (s : String) : String.fromUTF8? s.toByteArray = some s :=
  dif_pos s.isValidUTF8

theorem toByteArray_of_fromUTF8? {text : ByteArray} {s : String}
    (h : String.fromUTF8? text = some s) : s.toByteArray = text := by
  unfold String.fromUTF8? at h
  split at h
  · cases h
    rfl
  · cases h

theorem fromUTF8?_eq_none_iff {text : ByteArray} :
    String.fromUTF8? text = none ↔ ¬ text.IsValidUTF8 := by
  unfold String.fromUTF8?
  split <;> simp_all

theorem readText_eq_ok_iff {s : String} {next : Nat} :
    readText code offset = .ok (s, next) ↔
      s.utf8ByteSize ≤ Instruction.maxTextBytes ∧
        Spells code offset (Instruction.encodeText s) ∧
        next = offset + (Instruction.encodeText s).size := by
  have hnext : offset + (Instruction.encodeText s).size = offset + 2 + s.toByteArray.size := by
    rw [Instruction.encodeText, ByteArray.size_append, Instruction.size_bytesOf, Nat.add_assoc]
    rfl
  rw [hnext]
  constructor
  · intro h
    rcases readText_cases code offset with ht | ⟨text, hsize, hspells⟩
    · rw [ht] at h
      cases h
    · rw [readText_of_spells hsize hspells] at h
      cases hs : String.fromUTF8? text with
      | none => simp [hs] at h
      | some s' =>
        obtain rfl := toByteArray_of_fromUTF8? hs
        simp only [hs, Except.ok.injEq, Prod.mk.injEq] at h
        obtain ⟨rfl, rfl⟩ := h
        exact ⟨hsize, hspells, rfl⟩
  · rintro ⟨hsize, hspells, rfl⟩
    rw [readText_of_spells hsize hspells, fromUTF8?_toByteArray]

/-- The bytes of a text operand are all there, but they are not UTF-8. -/
def GarbledText (code : ByteArray) (offset : Nat) : Prop :=
  ∃ text : ByteArray, text.size ≤ Instruction.maxTextBytes ∧ ¬ text.IsValidUTF8 ∧
    Spells code offset (rawText text)

theorem GarbledText.readText (h : GarbledText code offset) :
    readText code offset = .error .invalidText := by
  obtain ⟨text, hsize, hinvalid, hspells⟩ := h
  rw [readText_of_spells hsize hspells, fromUTF8?_eq_none_iff.mpr hinvalid]

theorem readText_eq_error {r : Reason} (h : readText code offset = .error r) :
    r = .truncated ∨ r = .invalidText ∧ GarbledText code offset := by
  rcases readText_cases code offset with ht | ⟨text, hsize, hspells⟩
  · rw [ht] at h
    cases h
    exact Or.inl rfl
  · rw [readText_of_spells hsize hspells] at h
    cases hs : String.fromUTF8? text with
    | some s => simp [hs] at h
    | none =>
      simp only [hs, Except.error.injEq] at h
      exact Or.inr ⟨h.symm, text, hsize, fromUTF8?_eq_none_iff.mp hs, hspells⟩

end Readers

section Operands

variable {code : ByteArray} {offset next : Nat} {i : Instruction}

private theorem bind_eq_ok {α β : Type} {x : Except Reason α} {f : α → Except Reason β} {b : β}
    (h : x >>= f = .ok b) : ∃ a, x = .ok a ∧ f a = .ok b := by
  cases x with
  | error r => cases h
  | ok a => exact ⟨a, rfl, h⟩

private theorem bind_eq_error {α β : Type} {x : Except Reason α} {f : α → Except Reason β}
    {r : Reason} (h : x >>= f = .error r) : x = .error r ∨ ∃ a, x = .ok a ∧ f a = .error r := by
  cases x with
  | error r' =>
    cases h
    exact Or.inl rfl
  | ok a => exact Or.inr ⟨a, rfl, h⟩

private theorem bind_ok_eq_error {α β : Type} {x : Except Reason α} {f : α → β} {r : Reason}
    (h : (do let a ← x; .ok (f a)) = Except.error (ε := Reason) r) : x = .error r := by
  rcases bind_eq_error h with hx | ⟨_, _, h⟩
  · exact hx
  · cases h

theorem spells_empty (h : offset ≤ code.size) : Spells code offset .empty :=
  ⟨h, ByteArray.extract_same⟩

/-- Whatever is read has been spelled. -/
theorem spells_of_readOperands {op : Opcode} (ho : offset ≤ code.size)
    (h : readOperands code offset op = .ok (i, next)) :
    i.opcode = op ∧ i.Fits ∧ Spells code offset i.operandBytes ∧
      next = offset + i.operandBytes.size := by
  cases op with
  | pushNumber =>
    obtain ⟨bits, hbits, h⟩ := bind_eq_ok h
    cases h
    obtain ⟨hlt, hspells⟩ := readNat_eq_ok_iff.mp hbits
    have hback : bits.toUInt64.toNat = bits := Nat.mod_eq_of_lt hlt
    refine ⟨rfl, trivial, ?_, rfl⟩
    show Spells code offset (Instruction.bytesOf 8 bits.toUInt64.toNat)
    rwa [hback]
  | pushText =>
    obtain ⟨⟨s, after⟩, ht, h⟩ := bind_eq_ok h
    cases h
    obtain ⟨hsize, hspells, hnext⟩ := readText_eq_ok_iff.mp ht
    exact ⟨rfl, hsize, hspells, hnext⟩
  | loadArg =>
    obtain ⟨index, hindex, h⟩ := bind_eq_ok h
    cases h
    obtain ⟨hlt, hspells⟩ := readNat_eq_ok_iff.mp hindex
    have hback : index.toUInt8.toNat = index := Nat.mod_eq_of_lt hlt
    refine ⟨rfl, trivial, ?_, rfl⟩
    show Spells code offset (Instruction.bytesOf 1 index.toUInt8.toNat)
    rwa [hback]
  | call =>
    obtain ⟨argc, hargc, h⟩ := bind_eq_ok h
    obtain ⟨⟨name, after⟩, ht, h⟩ := bind_eq_ok h
    cases h
    obtain ⟨hlt, hfirst⟩ := readNat_eq_ok_iff.mp hargc
    obtain ⟨hsize, hspells, hnext⟩ := readText_eq_ok_iff.mp ht
    have hback : argc.toUInt8.toNat = argc := Nat.mod_eq_of_lt hlt
    refine ⟨rfl, hsize, ?_, ?_⟩
    · show Spells code offset
        (Instruction.bytesOf 1 argc.toUInt8.toNat ++ Instruction.encodeText name)
      rw [hback]
      exact spells_append.mpr ⟨hfirst, by rwa [Instruction.size_bytesOf]⟩
    · rw [hnext, Instruction.operandBytes, ByteArray.size_append, Instruction.size_bytesOf,
        Nat.add_assoc]
  | jump =>
    obtain ⟨rel, hrel, h⟩ := bind_eq_ok h
    cases h
    exact ⟨rfl, trivial, readJump_eq_ok_iff.mp hrel, rfl⟩
  | jumpIfFalse =>
    obtain ⟨rel, hrel, h⟩ := bind_eq_ok h
    cases h
    exact ⟨rfl, trivial, readJump_eq_ok_iff.mp hrel, rfl⟩
  | _ =>
    cases h
    exact ⟨rfl, trivial, spells_empty ho, rfl⟩

/-- Whatever is spelled is read. -/
theorem readOperands_of_spells (hi : i.Fits) (h : Spells code offset i.operandBytes) :
    readOperands code offset i.opcode = .ok (i, offset + i.operandBytes.size) := by
  cases i with
  | pushNumber bits =>
    have hn : readNat code offset 8 = .ok bits.toNat :=
      readNat_eq_ok_iff.mpr ⟨bits.toNat_lt, h⟩
    simp only [Instruction.opcode, readOperands, hn, bind, Except.bind]
    simp [Instruction.operandBytes, Instruction.size_bytesOf]
  | pushText s =>
    have ht := readText_eq_ok_iff.mpr ⟨hi, h, rfl⟩
    simp only [Instruction.opcode, readOperands, ht, bind, Except.bind]
    rfl
  | pushBool b => cases b <;> rfl
  | loadArg index =>
    have hn : readNat code offset 1 = .ok index.toNat :=
      readNat_eq_ok_iff.mpr ⟨index.toNat_lt, h⟩
    simp only [Instruction.opcode, readOperands, hn, bind, Except.bind]
    simp [Instruction.operandBytes, Instruction.size_bytesOf]
  | call name argc =>
    obtain ⟨hfirst, hrest⟩ := spells_append.mp h
    rw [Instruction.size_bytesOf] at hrest
    have hn : readNat code offset 1 = .ok argc.toNat :=
      readNat_eq_ok_iff.mpr ⟨argc.toNat_lt, hfirst⟩
    have ht := readText_eq_ok_iff.mpr ⟨hi, hrest, rfl⟩
    simp only [Instruction.opcode, readOperands, hn, ht, bind, Except.bind]
    simp [Instruction.operandBytes, Instruction.size_bytesOf, Nat.add_assoc]
  | jump rel =>
    simp only [Instruction.opcode, readOperands, readJump_eq_ok_iff.mpr h, bind, Except.bind]
    simp [Instruction.operandBytes, Instruction.encodeJump, Instruction.size_bytesOf]
  | jumpIfFalse rel =>
    simp only [Instruction.opcode, readOperands, readJump_eq_ok_iff.mpr h, bind, Except.bind]
    simp [Instruction.operandBytes, Instruction.encodeJump, Instruction.size_bytesOf]
  | _ => rfl

/-- All operands of a text or a call are there, but the text is not UTF-8. -/
def GarbledOperands (code : ByteArray) (offset : Nat) (op : Opcode) : Prop :=
  op = .pushText ∧ GarbledText code offset ∨
    op = .call ∧ (∃ argc : UInt8, Spells code offset (Instruction.bytesOf 1 argc.toNat)) ∧
      GarbledText code (offset + 1)

theorem GarbledOperands.readOperands {op : Opcode} (h : GarbledOperands code offset op) :
    readOperands code offset op = .error .invalidText := by
  rcases h with ⟨rfl, htext⟩ | ⟨rfl, ⟨argc, hargc⟩, htext⟩
  · simp only [LiveExpr.readOperands, htext.readText, bind, Except.bind]
  · have hn : readNat code offset 1 = .ok argc.toNat :=
      readNat_eq_ok_iff.mpr ⟨argc.toNat_lt, hargc⟩
    simp only [LiveExpr.readOperands, hn, htext.readText, bind, Except.bind]

theorem readOperands_eq_error {op : Opcode} {r : Reason}
    (h : readOperands code offset op = .error r) :
    r = .truncated ∨ r = .invalidText ∧ GarbledOperands code offset op := by
  cases op with
  | pushText =>
    rcases readText_eq_error (bind_ok_eq_error h) with ht | ⟨ht, htext⟩
    · exact Or.inl ht
    · exact Or.inr ⟨ht, Or.inl ⟨rfl, htext⟩⟩
  | call =>
    rcases bind_eq_error h with hn | ⟨argc, hargc, h⟩
    · exact Or.inl (readNat_eq_error hn)
    rcases readText_eq_error (bind_ok_eq_error h) with ht | ⟨ht, htext⟩
    · exact Or.inl ht
    · obtain ⟨hlt, hspells⟩ := readNat_eq_ok_iff.mp hargc
      have hback : argc.toUInt8.toNat = argc := Nat.mod_eq_of_lt hlt
      exact Or.inr ⟨ht, Or.inr ⟨rfl, ⟨argc.toUInt8, by rwa [hback]⟩, htext⟩⟩
  | pushNumber => exact Or.inl (readNat_eq_error (bind_ok_eq_error h))
  | loadArg => exact Or.inl (readNat_eq_error (bind_ok_eq_error h))
  | jump => exact Or.inl (readJump_eq_error (bind_ok_eq_error h))
  | jumpIfFalse => exact Or.inl (readJump_eq_error (bind_ok_eq_error h))
  | _ => cases h

end Operands

section Instructions

variable {code : ByteArray} {offset next : Nat} {i : Instruction}

theorem spells_byte_iff {b : UInt8} :
    Spells code offset (Instruction.bytesOf 1 b.toNat) ↔
      ∃ h : offset < code.size, code[offset] = b := by
  have hbytes : Instruction.bytesOf 1 b.toNat = [b].toByteArray := by
    refine ByteArray.ext ?_
    simp [Instruction.bytesOf, LittleEndian.toBytes]
  rw [hbytes]
  constructor
  · rintro ⟨hbound, hspells⟩
    have hbound' : offset + 1 ≤ code.size := hbound
    have hone : code.extract offset (offset + 1) = [b].toByteArray := hspells
    rw [ByteArray.extract_add_one hbound'] at hone
    exact ⟨hbound', List.head_eq_of_cons_eq (List.toByteArray_inj.mp hone)⟩
  · rintro ⟨hlt, rfl⟩
    exact ⟨hlt, ByteArray.extract_add_one hlt⟩

theorem decode_of_opcode {op : Opcode}
    (h : Spells code offset (Instruction.bytesOf 1 op.byte.toNat)) :
    decode code offset =
      match readOperands code (offset + 1) op with
      | .ok found => .ok found
      | .error reason => .error ⟨offset, reason⟩ := by
  obtain ⟨hlt, hbyte⟩ := spells_byte_iff.mp h
  unfold decode
  cases hr : readOperands code (offset + 1) op <;>
    simp only [dif_pos hlt, hbyte, Opcode.ofByte?_byte, hr]

/-- An offset at the end or behind it, a byte that is no opcode, or the operands of one. -/
theorem decode_cases (code : ByteArray) (offset : Nat) :
    decode code offset = .error ⟨offset, .truncated⟩ ∧ code.size ≤ offset ∨
      (∃ h : offset < code.size,
        decode code offset = .error ⟨offset, .unknownOpcode code[offset]⟩ ∧
          ∀ op : Opcode, op.byte ≠ code[offset]) ∨
      ∃ op : Opcode, Spells code offset (Instruction.bytesOf 1 op.byte.toNat) := by
  by_cases hlt : offset < code.size
  · right
    cases ho : Opcode.ofByte? code[offset] with
    | none =>
      left
      refine ⟨hlt, ?_, fun op hop => ?_⟩
      · unfold decode
        rw [dif_pos hlt, ho]
      · rw [← hop, Opcode.ofByte?_byte] at ho
        cases ho
    | some op =>
      right
      exact ⟨op, spells_byte_iff.mpr ⟨hlt, (Opcode.byte_of_ofByte? ho).symm⟩⟩
  · left
    unfold decode
    rw [dif_neg hlt]
    exact ⟨rfl, Nat.le_of_not_lt hlt⟩

theorem decode_eq_ok_iff :
    decode code offset = .ok (i, next) ↔
      i.Fits ∧ Spells code offset i.encode ∧ next = offset + i.encode.size := by
  have hsize : offset + i.encode.size = offset + 1 + i.operandBytes.size := by
    rw [Instruction.encode, ByteArray.size_append, Instruction.size_bytesOf, Nat.add_assoc]
  rw [hsize]
  constructor
  · intro h
    rcases decode_cases code offset with ⟨herror, _⟩ | ⟨_, herror, _⟩ | ⟨op, hop⟩
    · rw [herror] at h
      cases h
    · rw [herror] at h
      cases h
    · rw [decode_of_opcode hop] at h
      split at h
      · rename_i found hfound
        cases h
        obtain ⟨rfl, hfits, hspells, hnext⟩ := spells_of_readOperands hop.1 hfound
        exact ⟨hfits, spells_append.mpr ⟨hop, hspells⟩, hnext⟩
      · cases h
  · rintro ⟨hfits, hspells, rfl⟩
    obtain ⟨hop, hoperands⟩ := spells_append.mp hspells
    rw [Instruction.size_bytesOf] at hoperands
    rw [decode_of_opcode hop, readOperands_of_spells hfits hoperands]

theorem Instruction.encode_pos (i : Instruction) : 0 < i.encode.size := by
  rw [encode, ByteArray.size_append, size_bytesOf]
  omega

/-- Why no instruction can be read at an offset. -/
inductive Refusal (code : ByteArray) (offset : Nat) : Reason → Prop
  | unknownOpcode (h : offset < code.size) (hop : ∀ op : Opcode, op.byte ≠ code[offset]) :
      Refusal code offset (.unknownOpcode code[offset])
  | invalidText {op : Opcode} (hop : Spells code offset (Instruction.bytesOf 1 op.byte.toNat))
      (htext : GarbledOperands code (offset + 1) op) : Refusal code offset .invalidText
  /-- Neither of the others, and no instruction either. -/
  | truncated (hbyte : ∀ h : offset < code.size, ∃ op : Opcode, op.byte = code[offset])
      (htext : ∀ op : Opcode, Spells code offset (Instruction.bytesOf 1 op.byte.toNat) →
        ¬ GarbledOperands code (offset + 1) op)
      (hspells : ∀ i : Instruction, i.Fits → ¬ Spells code offset i.encode) :
      Refusal code offset .truncated

theorem Refusal.decode {r : Reason} (h : Refusal code offset r) :
    decode code offset = .error ⟨offset, r⟩ := by
  cases h with
  | unknownOpcode hlt hop =>
    rcases decode_cases code offset with ⟨_, hle⟩ | ⟨_, herror, _⟩ | ⟨op, hspells⟩
    · omega
    · exact herror
    · obtain ⟨_, hbyte⟩ := spells_byte_iff.mp hspells
      exact (hop op hbyte.symm).elim
  | invalidText hop htext => rw [decode_of_opcode hop, htext.readOperands]
  | truncated hbyte htext hspells =>
    rcases decode_cases code offset with ⟨herror, _⟩ | ⟨hlt, _, hnone⟩ | ⟨op, hop⟩
    · exact herror
    · obtain ⟨op, hop⟩ := hbyte hlt
      exact (hnone op hop).elim
    · rw [decode_of_opcode hop]
      cases hr : readOperands code (offset + 1) op with
      | ok found =>
        obtain ⟨rfl, hfits, hfound, _⟩ := spells_of_readOperands hop.1 hr
        exact (hspells _ hfits (spells_append.mpr ⟨hop, hfound⟩)).elim
      | error r =>
        rcases readOperands_eq_error hr with rfl | ⟨rfl, hgarbled⟩
        · rfl
        · exact (htext op hop hgarbled).elim

theorem exists_refusal (h : ∀ i : Instruction, i.Fits → ¬ Spells code offset i.encode) :
    ∃ r, Refusal code offset r := by
  by_cases hbyte : ∀ h : offset < code.size, ∃ op : Opcode, op.byte = code[offset]
  · by_cases htext : ∀ op : Opcode, Spells code offset (Instruction.bytesOf 1 op.byte.toNat) →
        ¬ GarbledOperands code (offset + 1) op
    · exact ⟨_, .truncated hbyte htext h⟩
    · simp only [Classical.not_forall, Classical.not_not] at htext
      obtain ⟨op, hop, hgarbled⟩ := htext
      exact ⟨_, .invalidText hop hgarbled⟩
  · obtain ⟨hlt, hop⟩ := Classical.not_forall.mp hbyte
    exact ⟨_, .unknownOpcode hlt fun op heq => hop ⟨op, heq⟩⟩

/-- Reading accepts the encodings of instructions and nothing else, and for all other code there is
one reason to refuse it. -/
theorem decode_accepts_grammar (code : ByteArray) (offset : Nat) :
    (∀ i next, decode code offset = .ok (i, next) ↔
      i.Fits ∧ next ≤ code.size ∧ code.extract offset next = i.encode) ∧
    ∀ f, decode code offset = .error f ↔ f.offset = offset ∧ Refusal code offset f.reason := by
  refine ⟨fun i next => ?_, fun f => ⟨fun h => ?_, ?_⟩⟩
  · rw [spells_iff_extract i.encode_pos, decode_eq_ok_iff]
  · have hspells : ∀ i : Instruction, i.Fits → ¬ Spells code offset i.encode := by
      intro i hfits hi
      rw [decode_eq_ok_iff.mpr ⟨hfits, hi, rfl⟩] at h
      cases h
    obtain ⟨r, hr⟩ := exists_refusal hspells
    rw [hr.decode] at h
    cases h
    exact ⟨rfl, hr⟩
  · rintro ⟨rfl, hr⟩
    exact hr.decode

end Instructions

end LiveExpr
