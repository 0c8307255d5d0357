import LiveExpr.Code.Program
import LiveExpr.Proofs.Drafts
import Mathlib

/-!
Assembled code is the encoding of its draft. Every emission changes the code in the way
in which it changes the draft, and patching writes over the two bytes of one operand.
Listing the code therefore gives back what was emitted, with every jump going where the
last successful attempt has pointed it.
-/
namespace LiveExpr

namespace Assembly

/-- The code is the encoding of the draft, and slots and labels are the same places in both. -/
structure Writes (a : Assembly) (d : Draft) : Prop where
  code : a.code = Instruction.encodeAll d.instructions
  slots : a.slots.toList = d.slots.map fun line => d.offset line + 1
  labels : a.labels.toList = d.labels
  faults : a.faults.toList = d.faults

variable {a : Assembly} {d : Draft} {i : Instruction}

theorem writes_empty : empty.Writes .empty := ⟨rfl, rfl, rfl, rfl⟩

theorem Writes.size (h : a.Writes d) : a.code.size = d.size := by
  rw [h.code, d.size_encodeAll_instructions]

theorem Writes.emit (h : a.Writes d) (hv : d.Valid) (hi : i.aimed 0 = i) :
    (a.emit i).Writes (d.write i) where
  code := by
    rw [Draft.instructions_write hv, hi, Instruction.encodeAll_append, Instruction.encodeAll,
      Instruction.encodeAll, ByteArray.append_empty, ← h.code]
    rfl
  slots := by
    refine h.slots.trans (List.map_congr_left fun line hline => ?_)
    obtain ⟨j, hj, _⟩ := hv.slots line hline
    rw [Draft.offset_write (Nat.le_of_lt (List.getElem?_eq_some_iff.mp hj).1)]
  labels := h.labels
  faults := by
    have hfilter : (d.write i).patches.filter (fun p => ¬ (d.write i).Reaches p) =
        d.patches.filter fun p => ¬ d.Reaches p := by
      refine List.filter_congr fun p hp => ?_
      simp only [Draft.reaches_write (Draft.lines_lt hv hp)]
    rw [Draft.faults, hfilter]
    refine h.faults.trans (List.map_congr_left fun p hp => ?_)
    have hlt := Draft.lines_lt hv (List.mem_filter.mp hp).1
    rw [Draft.offset_write (Nat.le_of_lt hlt), Draft.distance_write hlt]

theorem Writes.reserve (h : a.Writes d) (hv : d.Valid) (hi : i.aimed 0 = i) :
    (a.reserve i).Writes (d.reserve i) := by
  have hw := h.emit hv hi
  refine ⟨hw.code, ?_, hw.labels, hw.faults⟩
  have hslot : a.nextSlot = (d.write i).offset d.lines.length + 1 := by
    rw [Draft.offset_write (Nat.le_refl _), nextSlot, h.size, Draft.size]
  show (a.slots.push a.nextSlot).toList = (d.slots ++ [d.lines.length]).map _
  rw [Array.toList_push, List.map_append, hslot]
  exact congrArg (· ++ _) hw.slots

/-- A patch that fails is reported and changes no byte. -/
theorem Writes.patch (h : a.Writes d) {line target : Nat} {j : Instruction}
    (hl : d.lines[line]? = some j) (hjump : j.rel?.isSome) :
    (a.patch (d.offset line + 1) target).Writes (d.point line target) := by
  have hdistance : (target : Int) - (d.offset line + 1 + 2 : Nat) = d.distance ⟨line, target⟩ := by
    rw [Draft.distance, Draft.offset_behind hl hjump]
  have hpatch : a.patch (d.offset line + 1) target =
      if d.Reaches ⟨line, target⟩ then
        { a with
          code := a.code.extract 0 (d.offset line + 1) ++
            Instruction.encodeJump (.ofInt (d.distance ⟨line, target⟩)) ++
            a.code.extract (d.offset line + 1 + 2) a.code.size }
      else
        { a with
          faults := a.faults.push
            ⟨d.offset line, .jumpOutOfBounds (d.distance ⟨line, target⟩)⟩ } := by
    simp only [Assembly.patch, hdistance]
    rfl
  have hcode := Draft.instructions_point target hl
  have hfaults := d.faults_point line target
  rw [hpatch]
  by_cases hreaches : d.Reaches ⟨line, target⟩
  · rw [if_pos hreaches] at hcode hfaults ⊢
    refine ⟨?_, h.slots, h.labels, ?_⟩
    · rw [hcode, h.code]
      exact Draft.encodeAll_set hl hjump _
    · rw [hfaults, List.append_nil]
      exact h.faults
  · rw [if_neg hreaches] at hcode hfaults ⊢
    refine ⟨h.code.trans (congrArg _ hcode.symm), h.slots, h.labels, ?_⟩
    rw [hfaults, Array.toList_push, h.faults]

theorem Writes.step (h : a.Writes d) (hv : d.Valid) {e : Emission} (he : e.Complete) :
    (a.step e).Writes (d.step e) := by
  cases e with
  | opcode op =>
    obtain ⟨i, hi⟩ := Option.isSome_iff_exists.mp he
    have hrel := (Opcode.alone?_plain hi).2
    simp only [Assembly.step, Draft.step, hi, ← Opcode.encode_alone hi]
    exact h.emit hv (Instruction.aimed_of_rel?_eq_none hrel 0)
  | number bits => exact h.emit hv rfl
  | text s => exact h.emit hv rfl
  | boolean b => exact h.emit hv rfl
  | argument index => exact h.emit hv rfl
  | call name argc => exact h.emit hv rfl
  | jump => exact h.reserve hv rfl
  | jumpIfFalse => exact h.reserve hv rfl
  | label =>
    refine ⟨h.code, h.slots, ?_, h.faults⟩
    show (a.labels.push a.code.size).toList = d.labels ++ [d.size]
    rw [Array.toList_push, h.labels, h.size]
  | bind slot =>
    have hslot : a.slots[slot]? = (d.slots[slot]?).map fun line => d.offset line + 1 := by
      rw [← Array.getElem?_toList, h.slots, List.getElem?_map]
    simp only [Assembly.step, Draft.step, hslot]
    cases hs : d.slots[slot]? with
    | none => exact h
    | some line =>
      obtain ⟨j, hj, hjump⟩ := hv.slots line (List.mem_of_getElem? hs)
      simp only [Option.map_some, h.size]
      exact h.patch hj hjump
  | jumpTo label =>
    have hlabel : a.labels[label]? = d.labels[label]? := by
      rw [← Array.getElem?_toList, h.labels]
    simp only [Assembly.step, Draft.step, hlabel]
    cases d.labels[label]? with
    | none => exact h
    | some target =>
      have hslot : a.nextSlot = (d.write (.jump 0)).offset d.lines.length + 1 := by
        rw [Draft.offset_write (Nat.le_refl _), nextSlot, h.size, Draft.size]
      simp only [hslot]
      exact (h.emit hv rfl).patch Draft.getElem?_write rfl

theorem writes_assemble {emissions : List Emission} (h : ∀ e ∈ emissions, e.Complete) :
    (assemble emissions).Writes (.ofEmissions emissions) := by
  have hfrom : ∀ (a : Assembly) (d : Draft), a.Writes d → d.Valid →
      (emissions.foldl step a).Writes (emissions.foldl Draft.step d) := by
    induction emissions with
    | nil => exact fun a d hw _ => hw
    | cons e rest ih =>
      intro a d hw hv
      exact ih (fun e' he' => h e' (.tail _ he')) _ _ (hw.step hv (h e List.mem_cons_self))
        (hv.step e)
  exact hfrom empty .empty writes_empty Draft.valid_empty

/-- A bind that fails changes no byte. -/
theorem Writes.bind_failing (h : a.Writes d) (hv : d.Valid) {slot line : Nat}
    (hs : d.slots[slot]? = some line) (hfails : ¬ d.Reaches ⟨line, d.size⟩) :
    (a.step (.bind slot)).code = a.code := by
  obtain ⟨j, hj, hjump⟩ := hv.slots line (List.mem_of_getElem? hs)
  have hcode := (h.step hv (e := .bind slot) trivial).code
  simp only [Draft.step, hs] at hcode
  rw [hcode, Draft.instructions_point d.size hj, if_neg hfails, h.code]

/-- Nor does a jump back that fails, once the jump itself is emitted. -/
theorem Writes.jumpTo_failing (h : a.Writes d) (hv : d.Valid) {label target : Nat}
    (hl : d.labels[label]? = some target)
    (hfails : ¬ (d.write (.jump 0)).Reaches ⟨d.lines.length, target⟩) :
    (a.step (.jumpTo label)).code = (a.emit (.jump 0)).code := by
  have hcode := (h.step hv (e := .jumpTo label) trivial).code
  simp only [Draft.step, hl] at hcode
  rw [hcode, Draft.instructions_point target Draft.getElem?_write, if_neg hfails,
    (h.emit hv rfl).code]

end Assembly

section Listing

/-- The instructions with their offsets, when the first one is at the given offset. -/
def placed (offset : Nat) : List Instruction → List (Nat × Instruction)
  | [] => []
  | i :: rest => (offset, i) :: placed (offset + i.encode.size) rest

theorem getElem?_placed (offset : Nat) (is : List Instruction) (n : Nat) :
    (placed offset is)[n]? =
      is[n]?.map fun i => (offset + (Instruction.encodeAll (is.take n)).size, i) := by
  induction is generalizing offset n with
  | nil => rfl
  | cons i rest ih =>
    cases n with
    | zero => rfl
    | succ n =>
      rw [placed, List.getElem?_cons_succ, List.getElem?_cons_succ, ih, List.take_succ_cons,
        Instruction.encodeAll, ByteArray.size_append]
      simp only [Nat.add_assoc]

theorem Draft.items_eq_placed (d : Draft) : d.items = placed 0 d.instructions := by
  refine List.ext_getElem? fun n => ?_
  rw [getElem?_placed, d.size_take_instructions, Nat.zero_add, items, List.getElem?_mapIdx]

theorem listFrom_spells {code : ByteArray} {is : List Instruction} (hfits : ∀ i ∈ is, i.Fits)
    {offset : Nat} (hspells : Spells code offset (Instruction.encodeAll is))
    (hend : offset + (Instruction.encodeAll is).size = code.size)
    (items : Array (Nat × Instruction)) :
    listFrom code offset items = ⟨items.toList ++ placed offset is, none⟩ := by
  induction is generalizing offset items with
  | nil =>
    have hstop : ¬ offset < code.size := Nat.not_lt.mpr (Nat.le_of_eq hend.symm)
    rw [listFrom, if_neg hstop, placed, List.append_nil]
  | cons i rest ih =>
    obtain ⟨hfirst, hrest⟩ := spells_append.mp hspells
    rw [Instruction.encodeAll, ByteArray.size_append, ← Nat.add_assoc] at hend
    have hpos := i.encode_pos
    have hgo : offset < code.size := by omega
    have hdecode : decode code offset = .ok (i, offset + i.encode.size) :=
      decode_eq_ok_iff.mpr ⟨hfits i List.mem_cons_self, hfirst, rfl⟩
    rw [listFrom, if_pos hgo]
    split
    · rename_i j next hj
      rw [hdecode] at hj
      cases hj
      rw [ih (fun j hj => hfits j (.tail _ hj)) hrest hend, Array.toList_push, placed]
      simp
    · rename_i f hf
      rw [hdecode] at hf
      cases hf

theorem Assembly.Writes.listing {a : Assembly} {d : Draft} (h : a.Writes d) (hv : d.Valid)
    (ident : Nat) : (Program.mk a.code ident).listing = ⟨d.items, none⟩ := by
  have hspells : Spells a.code 0 (Instruction.encodeAll d.instructions) := by
    rw [← h.code]
    exact ⟨Nat.le_of_eq (Nat.zero_add _), by rw [Nat.zero_add, ByteArray.extract_zero_size]⟩
  have hend : 0 + (Instruction.encodeAll d.instructions).size = a.code.size := by
    rw [Nat.zero_add, h.code]
  rw [d.items_eq_placed]
  exact listFrom_spells (Draft.fits_instructions hv) hspells hend #[]

/-- Listing an assembled program gives the emitted instructions, in order and without a fault.
Texts are clipped to the longest part that fits, jumps go where they were pointed last, and the
attempts to point one too far are reported and change nothing. -/
theorem assemble_lists_emitted {emissions : List Emission} (h : ∀ e ∈ emissions, e.Complete)
    (ident : Nat) :
    let a := assemble emissions
    let d := Draft.ofEmissions emissions
    (Program.mk a.code ident).listing = ⟨d.items, none⟩ ∧
    (∀ line i rel, d.instructions[line]? = some i → i.rel? = some rel →
      match d.aim? line with
      | some p => (d.offset (line + 1) : Int) + rel.toInt = p.target
      | none => rel = 0) ∧
    a.faults.toList = d.faults ∧
    (∀ slot line, d.slots[slot]? = some line → ¬ d.Reaches ⟨line, d.size⟩ →
      (a.step (.bind slot)).code = a.code) ∧
    (∀ label target, d.labels[label]? = some target →
      ¬ (d.write (.jump 0)).Reaches ⟨d.lines.length, target⟩ →
      (a.step (.jumpTo label)).code = (a.emit (.jump 0)).code) ∧
    ∀ s, LongestFit s (clip s) := by
  have hw := Assembly.writes_assemble h
  have hv := Draft.valid_ofEmissions emissions
  refine ⟨hw.listing hv ident, fun line i rel hi hrel => Draft.rel_aimed _ hi hrel, hw.faults,
    fun slot line hs hfails => hw.bind_failing hv hs hfails,
    fun label target hl hfails => hw.jumpTo_failing hv hl hfails, clip_longestFit⟩

theorem assemble_lists_emitted_loop :
    let emissions : List Emission :=
      [.label, .boolean true, .jumpIfFalse, .text "é", .opcode .pop, .jumpTo 0, .bind 0]
    (Program.mk (assemble emissions).code 0).listing =
      ⟨[(0, .pushBool true), (1, .jumpIfFalse 9), (4, .pushText "é"), (9, .pop), (10, .jump (-13))],
        none⟩ := by
  intro emissions
  have hcomplete : ∀ e ∈ emissions, e.Complete := by decide
  have h := (assemble_lists_emitted hcomplete 0).1
  exact h.trans (by cbv)

end Listing

end LiveExpr
