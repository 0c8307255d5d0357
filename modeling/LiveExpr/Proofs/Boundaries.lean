import LiveExpr.Proofs.Assembling

/-!
The offsets at which the instructions of a program begin. In assembled code these are
the beginnings of the lines of the draft, with the end of the code. Every jump goes from
one of them to another, those that never were pointed anywhere to the next.
-/
namespace LiveExpr

namespace Program

/-- Where an instruction begins, or the code ends, when it is read from its start. -/
inductive Boundary (p : Program) : Nat → Prop
  | start : Boundary p 0
  | next {offset after : Nat} {i : Instruction} (h : Boundary p offset)
      (hdecode : decode p.code offset = .ok (i, after)) : Boundary p after

/-- There is an instruction at every boundary but the end, and if it is a jump it goes to a
boundary. -/
def WellFormed (p : Program) : Prop :=
  ∀ offset, p.Boundary offset → offset < p.size →
    ∃ i after, decode p.code offset = .ok (i, after) ∧
      ∀ rel, i.rel? = some rel →
        ∃ target : Nat, (target : Int) = after + rel.toInt ∧ p.Boundary target

/-- The code comes from emissions none of which left out its operands. -/
def Assembled (p : Program) : Prop :=
  ∃ emissions : List Emission, (∀ e ∈ emissions, e.Complete) ∧ p.code = (assemble emissions).code

theorem Boundary.le_size {p : Program} {offset : Nat} (h : p.Boundary offset) :
    offset ≤ p.size := by
  cases h with
  | start => exact Nat.zero_le _
  | next _ hdecode => exact (decode_bounds hdecode).2

end Program

namespace Assembly.Writes

variable {a : Assembly} {d : Draft} {ident : Nat}

theorem decode_line (h : a.Writes d) (hv : d.Valid) {line : Nat} {i : Instruction}
    (hi : d.instructions[line]? = some i) :
    decode a.code (d.offset line) = .ok (i, d.offset (line + 1)) := by
  obtain ⟨hlt, rfl⟩ := List.getElem?_eq_some_iff.mp hi
  have hspells : Spells a.code (d.offset line) d.instructions[line].encode := by
    have hcode : a.code = Instruction.encodeAll (d.instructions.take line) ++
        d.instructions[line].encode ++ Instruction.encodeAll (d.instructions.drop (line + 1)) := by
      rw [h.code, ByteArray.append_assoc, ← Instruction.encodeAll, ← Instruction.encodeAll_append,
        ← List.drop_eq_getElem_cons hlt, List.take_append_drop]
    rw [hcode, ← d.size_take_instructions]
    exact spells_of_append ..
  refine decode_eq_ok_iff.mpr ⟨Draft.fits_instructions hv _ (List.getElem_mem hlt), hspells, ?_⟩
  rw [← d.size_take_instructions, ← d.size_take_instructions,
    List.take_succ_eq_append_getElem hlt, Instruction.encodeAll_append, ByteArray.size_append,
    Instruction.encodeAll, Instruction.encodeAll, ByteArray.append_empty]

theorem line_of_lt (h : a.Writes d) {line : Nat} (hline : line ≤ d.lines.length)
    (hlt : d.offset line < a.code.size) : ∃ i, d.instructions[line]? = some i := by
  have hne : line ≠ d.lines.length := by
    rintro rfl
    rw [h.size, Draft.size] at hlt
    omega
  have hlength := d.length_instructions
  exact ⟨_, List.getElem?_eq_getElem (by omega)⟩

theorem boundary_iff (h : a.Writes d) (hv : d.Valid) {offset : Nat} :
    (Program.mk a.code ident).Boundary offset ↔ d.IsPlace offset := by
  constructor
  · intro hb
    induction hb with
    | start => exact ⟨0, Nat.zero_le _, rfl⟩
    | next _ hdecode ih =>
      obtain ⟨line, hline, rfl⟩ := ih
      have hlt := (decode_bounds hdecode).1
      have hsize := (decode_bounds hdecode).2
      obtain ⟨i, hi⟩ := h.line_of_lt hline (Nat.lt_of_lt_of_le hlt hsize)
      rw [h.decode_line hv hi] at hdecode
      cases hdecode
      have hlength := d.length_instructions
      have := (List.getElem?_eq_some_iff.mp hi).1
      exact ⟨line + 1, by omega, rfl⟩
  · rintro ⟨line, hline, rfl⟩
    induction line with
    | zero => exact .start
    | succ line ih =>
      have hlength := d.length_instructions
      exact (ih (by omega)).next (h.decode_line hv (List.getElem?_eq_getElem (by omega)))

theorem wellFormed (h : a.Writes d) (hv : d.Valid) : (Program.mk a.code ident).WellFormed := by
  intro offset hb hlt
  obtain ⟨line, hline, rfl⟩ := (h.boundary_iff hv).mp hb
  obtain ⟨i, hi⟩ := h.line_of_lt hline hlt
  refine ⟨i, _, h.decode_line hv hi, fun rel hrel => ?_⟩
  have hnext : line + 1 ≤ d.lines.length := by
    have := (List.getElem?_eq_some_iff.mp hi).1
    have hlength := d.length_instructions
    omega
  have htarget := d.rel_aimed hi hrel
  cases haim : d.aim? line with
  | none =>
    rw [haim] at htarget
    refine ⟨d.offset (line + 1), ?_, (h.boundary_iff hv).mpr ⟨line + 1, hnext, rfl⟩⟩
    rw [htarget]
    exact (Int.add_zero _).symm
  | some p =>
    rw [haim] at htarget
    have hpatch : p ∈ d.patches := (List.mem_filter.mp (List.mem_of_getLast? haim)).1
    exact ⟨p.target, htarget.symm, (h.boundary_iff hv).mpr (hv.targets p hpatch)⟩

end Assembly.Writes

theorem Program.Assembled.wellFormed {p : Program} (h : p.Assembled) : p.WellFormed := by
  obtain ⟨code, ident⟩ := p
  obtain ⟨emissions, hcomplete, rfl⟩ := h
  exact (Assembly.writes_assemble hcomplete).wellFormed (Draft.valid_ofEmissions emissions)

end LiveExpr
