import LiveExpr.Code.Assembly
import LiveExpr.Proofs.Grammar

/-!
Operands of instructions. A text is clipped to the longest leading part that its length
field can hold, and a jump has the same size wherever it goes, so another operand may be
written over the one it has.
-/
namespace LiveExpr

section Clipping

theorem size_utf8Encode_cons (c : Char) (cs : List Char) :
    (c :: cs).utf8Encode.size = c.utf8Size + cs.utf8Encode.size := by
  rw [List.utf8Encode_cons, ByteArray.size_append]
  simp [List.utf8Encode]

theorem clipChars_longest (room : Nat) (kept cs : List Char) :
    ∃ taken, taken <+: cs ∧ clipChars room kept cs = kept.reverse ++ taken ∧
      taken.utf8Encode.size ≤ room ∧
      ∀ t, t <+: cs → t.utf8Encode.size ≤ room → t <+: taken := by
  induction cs generalizing room kept with
  | nil => exact ⟨[], List.nil_prefix, by simp [clipChars], by simp, fun t ht _ => ht⟩
  | cons c rest ih =>
    by_cases hc : c.utf8Size ≤ room
    · obtain ⟨taken, hleading, hclip, hsize, hlongest⟩ := ih (room - c.utf8Size) (c :: kept)
      refine ⟨c :: taken, List.cons_prefix_cons.mpr ⟨rfl, hleading⟩, ?_, ?_, fun t ht hroom => ?_⟩
      · rw [clipChars, if_pos hc, hclip]
        simp
      · rw [size_utf8Encode_cons]
        omega
      · cases t with
        | nil => exact List.nil_prefix
        | cons c' t =>
          obtain ⟨rfl, htail⟩ := List.cons_prefix_cons.mp ht
          rw [size_utf8Encode_cons] at hroom
          exact List.cons_prefix_cons.mpr ⟨rfl, hlongest t htail (by omega)⟩
    · refine ⟨[], List.nil_prefix, ?_, by simp, fun t ht hroom => ?_⟩
      · rw [clipChars, if_neg hc]
        simp
      · cases t with
        | nil => exact List.nil_prefix
        | cons c' t =>
          obtain ⟨rfl, _⟩ := List.cons_prefix_cons.mp ht
          rw [size_utf8Encode_cons] at hroom
          omega

/-- Of the leading parts of a text that an operand can hold, the longest. -/
structure LongestFit (s t : String) : Prop where
  leading : t.toList <+: s.toList
  fits : t.utf8ByteSize ≤ Instruction.maxTextBytes
  longest : ∀ u : String, u.toList <+: s.toList → u.utf8ByteSize ≤ Instruction.maxTextBytes →
    u.toList <+: t.toList

theorem clip_longestFit (s : String) : LongestFit s (clip s) := by
  have hsize : ∀ u : String, u.utf8ByteSize = u.toList.utf8Encode.size := by
    intro u
    rw [String.utf8Encode_toList]
    rfl
  unfold clip
  split
  · rename_i hs
    exact ⟨List.prefix_rfl, hs, fun u hu _ => hu⟩
  · obtain ⟨taken, hleading, hclip, hroom, hlongest⟩ :=
      clipChars_longest Instruction.maxTextBytes [] s.toList
    rw [hclip, List.reverse_nil, List.nil_append]
    refine ⟨?_, ?_, fun u hu hfits => ?_⟩
    · rwa [String.toList_ofList]
    · rwa [hsize, String.toList_ofList]
    · rw [String.toList_ofList]
      exact hlongest _ hu (by rwa [← hsize])

end Clipping

namespace Instruction

/-- The relative operand of a jump. -/
def rel? : Instruction → Option Int16
  | .jump rel => some rel
  | .jumpIfFalse rel => some rel
  | _ => none

/-- The instruction with another relative operand, if it has one. -/
def aimed (rel : Int16) : Instruction → Instruction
  | .jump _ => .jump rel
  | .jumpIfFalse _ => .jumpIfFalse rel
  | i => i

def encodeAll : List Instruction → ByteArray
  | [] => .empty
  | i :: rest => i.encode ++ encodeAll rest

theorem encodeAll_append (is js : List Instruction) :
    encodeAll (is ++ js) = encodeAll is ++ encodeAll js := by
  induction is with
  | nil => exact ByteArray.empty_append.symm
  | cons i rest ih => rw [List.cons_append, encodeAll, encodeAll, ih, ByteArray.append_assoc]

theorem rel?_aimed {i : Instruction} {rel : Int16} (h : i.rel?.isSome) :
    (i.aimed rel).rel? = some rel := by
  cases i <;> first | rfl | cases h

theorem aimed_of_rel?_eq_none {i : Instruction} (h : i.rel? = none) (rel : Int16) :
    i.aimed rel = i := by
  cases i <;> first | rfl | cases h

theorem aimed_aimed (i : Instruction) (rel rel' : Int16) :
    (i.aimed rel).aimed rel' = i.aimed rel' := by
  cases i <;> rfl

theorem fits_aimed {i : Instruction} (h : i.Fits) (rel : Int16) : (i.aimed rel).Fits := by
  cases i <;> exact h

theorem size_encode_aimed (i : Instruction) (rel : Int16) :
    (i.aimed rel).encode.size = i.encode.size := by
  cases i <;> rfl

/-- The size of a code depends on nothing but the sizes of its instructions. -/
theorem size_encodeAll_congr {is js : List Instruction}
    (h : is.map (fun i => i.encode.size) = js.map fun i => i.encode.size) :
    (encodeAll is).size = (encodeAll js).size := by
  induction is generalizing js with
  | nil => rw [List.map_eq_nil_iff.mp h.symm]
  | cons i rest ih =>
    obtain ⟨j, others, rfl, hsize, hrest⟩ := List.map_eq_cons_iff.mp h.symm
    rw [encodeAll, encodeAll, ByteArray.size_append, ByteArray.size_append, ih hrest.symm]
    exact congrArg (· + _) hsize.symm

theorem encode_of_rel? {i : Instruction} {rel : Int16} (h : i.rel? = some rel) :
    i.encode = bytesOf 1 i.opcode.byte.toNat ++ encodeJump rel := by
  cases i <;> cases h <;> rfl

private theorem extract_around (a b c : ByteArray) :
    (a ++ b ++ c).extract 0 a.size = a ∧
      (a ++ b ++ c).extract (a.size + b.size) (a ++ b ++ c).size = c := by
  constructor
  · rw [ByteArray.append_assoc]
    exact ByteArray.extract_append_eq_left rfl
  · refine ByteArray.extract_append_eq_right ?_ ?_ <;> simp only [ByteArray.size_append]

/-- Writing over the operand of a jump leaves all other bytes as they are. -/
theorem encodeAll_aimed (is js : List Instruction) {j : Instruction} (hjump : j.rel?.isSome)
    (rel : Int16) :
    (encodeAll (is ++ j :: js)).extract 0 ((encodeAll is).size + 1) ++ encodeJump rel ++
        (encodeAll (is ++ j :: js)).extract ((encodeAll is).size + 1 + 2)
          (encodeAll (is ++ j :: js)).size =
      encodeAll (is ++ j.aimed rel :: js) := by
  obtain ⟨old, hold⟩ := Option.isSome_iff_exists.mp hjump
  have hopcode : (j.aimed rel).opcode = j.opcode := by
    cases j <;> rfl
  have hcode : ∀ {j' : Instruction} {rel' : Int16}, j'.rel? = some rel' →
      encodeAll (is ++ j' :: js) =
        encodeAll is ++ bytesOf 1 j'.opcode.byte.toNat ++ encodeJump rel' ++ encodeAll js := by
    intro j' rel' h
    rw [encodeAll_append, encodeAll, encode_of_rel? h]
    simp only [ByteArray.append_assoc]
  have hsize : (encodeAll is).size + 1 = (encodeAll is ++ bytesOf 1 j.opcode.byte.toNat).size := by
    rw [ByteArray.size_append, size_bytesOf]
  obtain ⟨hfront, hback⟩ := extract_around
    (encodeAll is ++ bytesOf 1 j.opcode.byte.toNat) (encodeJump old) (encodeAll js)
  rw [hcode hold, hcode (rel?_aimed hjump), hopcode, hsize, hfront]
  rw [show (encodeJump old).size = 2 from rfl] at hback
  rw [hback]

end Instruction

/-- The instruction that an opcode without operands is by itself. -/
def Opcode.alone? : Opcode → Option Instruction
  | .pushUnset => some .pushUnset
  | .pushTrue => some (.pushBool true)
  | .pushFalse => some (.pushBool false)
  | .pop => some .pop
  | .unary op => some (.unary op)
  | .binary op => some (.binary op)
  | .ret => some .ret
  | _ => none

theorem Opcode.encode_alone {op : Opcode} {i : Instruction} (h : op.alone? = some i) :
    i.encode = Instruction.bytesOf 1 op.byte.toNat := by
  cases op <;> cases h <;> exact ByteArray.append_empty

theorem Opcode.alone?_plain {op : Opcode} {i : Instruction} (h : op.alone? = some i) :
    i.Fits ∧ i.rel? = none := by
  cases op <;> cases h <;> exact ⟨trivial, rfl⟩

end LiveExpr
