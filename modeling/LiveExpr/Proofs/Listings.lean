import LiveExpr.Proofs.Mentions

/-!
What a listing shows of code that nobody has checked. Its instructions stand next to each other
from the start of the code on, and written out again they are the code up to the place where
the listing ends: the end of the code, or the one fault, behind which nothing is listed. An
instruction is never empty, so the listing has no more answers than the code has bytes.
-/
namespace LiveExpr

namespace Listing

def instructions (l : Listing) : List Instruction := l.items.map Prod.snd

/-- Where a listing of the code ends. -/
def stop (l : Listing) (code : ByteArray) : Nat := l.fault.elim code.size Fault.offset

/-- The instructions with their offsets, and then the fault, if there is one. -/
def answers (l : Listing) : List (Except Fault (Nat × Instruction)) :=
  l.items.map .ok ++ l.fault.toList.map .error

/-- The listing shows the code from its start to the stop, without gaps or overlaps. -/
structure Tiles (code : ByteArray) (l : Listing) : Prop where
  /-- The first item is at the start, and every other one where the one before it ends. -/
  adjacent : l.items = placed 0 l.instructions
  read : ∀ offset i, (offset, i) ∈ l.items →
    decode code offset = .ok (i, offset + i.encode.size)
  /-- Writing the instructions out again gives the code up to the stop. -/
  covers : Instruction.encodeAll l.instructions = code.extract 0 (l.stop code)
  inside : l.stop code ≤ code.size
  /-- The fault is that of reading on from the stop. -/
  refused : ∀ f, l.fault = some f → l.stop code < code.size ∧ decode code (l.stop code) = .error f

end Listing

/-- How far somebody who asks for one instruction after the other has come, and whether there has
been a fault. -/
structure Walk where
  offset : Nat
  failed : Bool

namespace Walk

def start : Walk := ⟨0, false⟩

/-- The next answer with the walk behind it. There is none behind a fault or at the end. -/
def next? (code : ByteArray) (w : Walk) : Option (Except Fault (Nat × Instruction) × Walk) :=
  if w.failed ∨ code.size ≤ w.offset then none
  else
    match decode code w.offset with
    | .ok (i, after) => some (.ok (w.offset, i), { w with offset := after })
    | .error f => some (.error f, { w with failed := true })

/-- These are all the answers, in order, and the walk ends behind the last of them. -/
inductive Yields (code : ByteArray) : Walk → List (Except Fault (Nat × Instruction)) → Prop
  | ended {w : Walk} (h : w.next? code = none) : Yields code w []
  | answered {w after : Walk} {answer : Except Fault (Nat × Instruction)}
      {rest : List (Except Fault (Nat × Instruction))} (h : w.next? code = some (answer, after))
      (hrest : Yields code after rest) : Yields code w (answer :: rest)

variable {code : ByteArray}

theorem Yields.unique {w : Walk} {answers others : List (Except Fault (Nat × Instruction))}
    (h : Yields code w answers) (h' : Yields code w others) : answers = others := by
  induction h generalizing others with
  | ended hnone =>
    cases h' with
    | ended => rfl
    | answered hsome => cases hnone.symm.trans hsome
  | answered hsome _ ih =>
    cases h' with
    | ended hnone => cases hnone.symm.trans hsome
    | answered hsome' hrest =>
      cases hsome.symm.trans hsome'
      rw [ih hrest]

theorem next?_of_lt {offset : Nat} (h : offset < code.size) :
    next? code ⟨offset, false⟩ =
      match decode code offset with
      | .ok (i, after) => some (.ok (offset, i), ⟨after, false⟩)
      | .error f => some (.error f, ⟨offset, true⟩) := by
  refine if_neg ?_
  rintro (hfailed | hend)
  · cases hfailed
  · exact Nat.not_le_of_lt h hend

theorem next?_of_decode {offset after : Nat} {i : Instruction}
    (h : decode code offset = .ok (i, after)) :
    next? code ⟨offset, false⟩ = some (.ok (offset, i), ⟨after, false⟩) := by
  obtain ⟨hlt, hle⟩ := decode_bounds h
  rw [next?_of_lt (Nat.lt_of_lt_of_le hlt hle), h]

theorem next?_of_fault {offset : Nat} {f : Fault} (hlt : offset < code.size)
    (h : decode code offset = .error f) :
    next? code ⟨offset, false⟩ = some (.error f, ⟨offset, true⟩) := by
  rw [next?_of_lt hlt, h]

end Walk

/-- The listing of the code from an offset on, put together from its end. -/
inductive Listed (code : ByteArray) : Nat → Listing → Prop
  | ended {offset : Nat} (h : offset = code.size) : Listed code offset ⟨[], none⟩
  | refused {offset : Nat} {f : Fault} (hlt : offset < code.size)
      (hdecode : decode code offset = .error f) : Listed code offset ⟨[], some f⟩
  | item {offset after : Nat} {i : Instruction} {l : Listing}
      (hdecode : decode code offset = .ok (i, after)) (hrest : Listed code after l) :
      Listed code offset ⟨(offset, i) :: l.items, l.fault⟩

theorem listFrom_listed {code : ByteArray} {offset : Nat} (items : Array (Nat × Instruction))
    (h : offset ≤ code.size) :
    ∃ l, Listed code offset l ∧
      listFrom code offset items = ⟨items.toList ++ l.items, l.fault⟩ := by
  fun_induction listFrom code offset items with
  | case1 offset items hlt i after hdecode ih =>
    obtain ⟨l, hl, heq⟩ := ih (decode_bounds hdecode).2
    refine ⟨_, .item hdecode hl, ?_⟩
    rw [heq, Array.toList_push, List.append_assoc, List.singleton_append]
  | case2 offset items hlt f hdecode =>
    exact ⟨_, .refused hlt hdecode, by rw [List.append_nil]⟩
  | case3 offset items hend =>
    exact ⟨_, .ended (Nat.le_antisymm h (Nat.le_of_not_lt hend)), by rw [List.append_nil]⟩

theorem Program.listing_listed (p : Program) : Listed p.code 0 p.listing := by
  obtain ⟨l, hl, heq⟩ := listFrom_listed #[] (Nat.zero_le p.code.size)
  rwa [listing, heq]

namespace Listed

variable {code : ByteArray} {offset : Nat} {l : Listing}

theorem adjacent (h : Listed code offset l) : l.items = placed offset l.instructions := by
  induction h with
  | ended => rfl
  | refused => rfl
  | item hdecode _ ih =>
    obtain ⟨-, -, rfl⟩ := decode_eq_ok_iff.mp hdecode
    exact congrArg _ ih

theorem read (h : Listed code offset l) {place : Nat} {i : Instruction}
    (hi : (place, i) ∈ l.items) : decode code place = .ok (i, place + i.encode.size) := by
  induction h with
  | ended => cases hi
  | refused => cases hi
  | item hdecode _ ih =>
    rcases List.mem_cons.mp hi with heq | hrest
    · cases heq
      obtain ⟨-, -, rfl⟩ := decode_eq_ok_iff.mp hdecode
      exact hdecode
    · exact ih hrest

/-- The code spells the listed instructions, and they end where the listing does. -/
theorem spells (h : Listed code offset l) :
    Spells code offset (Instruction.encodeAll l.instructions) ∧
      l.stop code = offset + (Instruction.encodeAll l.instructions).size := by
  induction h with
  | ended h => exact ⟨spells_empty (Nat.le_of_eq h), h.symm⟩
  | refused hlt hdecode => exact ⟨spells_empty (Nat.le_of_lt hlt), decode_offset hdecode⟩
  | @item offset after i l hdecode _ ih =>
    obtain ⟨-, hspells, rfl⟩ := decode_eq_ok_iff.mp hdecode
    obtain ⟨hrest, hstop⟩ := ih
    have hall : Instruction.encodeAll (Listing.instructions ⟨(offset, i) :: l.items, l.fault⟩) =
        i.encode ++ Instruction.encodeAll l.instructions := rfl
    rw [hall]
    refine ⟨spells_append.mpr ⟨hspells, hrest⟩, ?_⟩
    rw [ByteArray.size_append, ← Nat.add_assoc]
    exact hstop

theorem decode_stop (h : Listed code offset l) {f : Fault} (hf : l.fault = some f) :
    l.stop code < code.size ∧ decode code (l.stop code) = .error f := by
  induction h with
  | ended => cases hf
  | refused hlt hdecode =>
    cases hf
    have hstop := decode_offset hdecode
    simp only [Listing.stop, Option.elim_some, hstop]
    exact ⟨hlt, hdecode⟩
  | item _ _ ih => exact ih hf

theorem tiles (h : Listed code 0 l) : l.Tiles code where
  adjacent := h.adjacent
  read _ _ hi := h.read hi
  covers := by
    obtain ⟨⟨-, hbytes⟩, hstop⟩ := h.spells
    rw [hstop, hbytes]
  inside := by
    obtain ⟨⟨hbound, -⟩, hstop⟩ := h.spells
    rwa [hstop]
  refused _ hf := h.decode_stop hf

theorem yields (h : Listed code offset l) : Walk.Yields code ⟨offset, false⟩ l.answers := by
  induction h with
  | ended h => exact .ended (if_pos (Or.inr (Nat.le_of_eq h.symm)))
  | refused hlt hdecode =>
    exact .answered (Walk.next?_of_fault hlt hdecode) (.ended (if_pos (Or.inl rfl)))
  | item hdecode _ ih => exact .answered (Walk.next?_of_decode hdecode) ih

/-- Each answer is about a byte of its own. -/
theorem length_answers_le (h : Listed code offset l) :
    offset + l.answers.length ≤ code.size := by
  induction h with
  | ended h => exact Nat.le_of_eq h
  | refused hlt => exact hlt
  | @item offset after i l hdecode _ ih =>
    have hlt := (decode_bounds hdecode).1
    have hlength : (Listing.answers ⟨(offset, i) :: l.items, l.fault⟩).length =
        l.answers.length + 1 := rfl
    omega

theorem le_of_mem (h : Listed code offset l) {item : Nat × Instruction} (hi : item ∈ l.items) :
    offset ≤ item.1 := by
  induction h with
  | ended => cases hi
  | refused => cases hi
  | item hdecode _ ih =>
    rcases List.mem_cons.mp hi with rfl | hrest
    · exact Nat.le_refl _
    · exact Nat.le_trans (Nat.le_of_lt (decode_bounds hdecode).1) (ih hrest)

theorem ascending (h : Listed code offset l) : l.items.Pairwise fun a b => a.1 < b.1 := by
  induction h with
  | ended => exact .nil
  | refused => exact .nil
  | item hdecode hrest ih =>
    exact .cons (fun b hb => Nat.lt_of_lt_of_le (decode_bounds hdecode).1 (hrest.le_of_mem hb)) ih

end Listed

section CalledNames

variable {items : List (Nat × Instruction)} {last : Nat × Instruction} {a b : String}

theorem Instruction.calledName?_eq_some_iff {i : Instruction} {name : String} :
    i.calledName? = some name ↔ ∃ argc, i = .call name argc := by
  cases i <;> simp [calledName?]

/-- Some call of the one name comes before every call of the other. -/
def CalledBefore (items : List (Nat × Instruction)) (a b : String) : Prop :=
  ∃ offset argc, (offset, .call a argc) ∈ items ∧
    ∀ offset' argc', (offset', .call b argc') ∈ items → offset < offset'

theorem CalledBefore.ne (h : CalledBefore items a b) : a ≠ b := by
  rintro rfl
  obtain ⟨offset, argc, hmem, hfirst⟩ := h
  exact Nat.lt_irrefl _ (hfirst offset argc hmem)

theorem CalledBefore.append (h : CalledBefore items a b)
    (hlast : ∀ item ∈ items, item.1 < last.1) : CalledBefore (items ++ [last]) a b := by
  obtain ⟨offset, argc, hmem, hfirst⟩ := h
  refine ⟨offset, argc, List.mem_append_left _ hmem, fun offset' argc' hmem' => ?_⟩
  rcases List.mem_append.mp hmem' with hold | hnew
  · exact hfirst offset' argc' hold
  · obtain rfl := List.mem_singleton.mp hnew
    exact hlast _ hmem

theorem calledBefore_last (ha : ∃ offset argc, (offset, .call a argc) ∈ items)
    (hb : ¬ ∃ offset argc, (offset, .call b argc) ∈ items)
    (hlast : ∀ item ∈ items, item.1 < last.1) : CalledBefore (items ++ [last]) a b := by
  obtain ⟨offset, argc, hmem⟩ := ha
  refine CalledBefore.append ⟨offset, argc, hmem, fun offset' argc' hmem' => ?_⟩ hlast
  exact (hb ⟨offset', argc', hmem'⟩).elim

theorem mem_distinct_calledNames {name : String} :
    name ∈ Names.distinct (items.filterMap fun item => item.2.calledName?) ↔
      ∃ offset argc, (offset, .call name argc) ∈ items := by
  rw [Names.mem_distinct, List.mem_filterMap]
  constructor
  · rintro ⟨⟨offset, i⟩, hmem, hi⟩
    obtain ⟨argc, rfl⟩ := Instruction.calledName?_eq_some_iff.mp hi
    exact ⟨offset, argc, hmem⟩
  · rintro ⟨offset, argc, hmem⟩
    exact ⟨_, hmem, rfl⟩

theorem distinct_calledNames_ordered (h : items.Pairwise fun x y => x.1 < y.1) :
    (Names.distinct (items.filterMap fun item => item.2.calledName?)).Pairwise
      (CalledBefore items) := by
  -- From the end, as the names are noted one by one and the last item adds its name behind them.
  induction items using List.reverseRecOn with
  | nil => exact .nil
  | append_singleton items last ih =>
    obtain ⟨hitems, -, hbefore⟩ := List.pairwise_append.mp h
    have hlast : ∀ item ∈ items, item.1 < last.1 :=
      fun item hitem => hbefore item hitem last List.mem_cons_self
    have hold := (ih hitems).imp fun hab => CalledBefore.append hab hlast
    rw [List.filterMap_append, Names.distinct, List.foldl_append, ← Names.distinct]
    cases hname : last.2.calledName? with
    | none =>
      have hnames : [last].filterMap (fun item => item.2.calledName?) = [] := by simp [hname]
      rw [hnames]
      exact hold
    | some name =>
      have hnames : [last].filterMap (fun item => item.2.calledName?) = [name] := by simp [hname]
      rw [hnames, List.foldl_cons, List.foldl_nil, Names.note]
      split
      · exact hold
      · rename_i hnew
        have hnone : ¬ ∃ offset argc, (offset, .call name argc) ∈ items := by
          rw [← mem_distinct_calledNames]
          simpa using hnew
        refine List.pairwise_append.mpr ⟨hold, List.pairwise_singleton _ _, fun a ha b hb => ?_⟩
        obtain rfl := List.mem_singleton.mp hb
        exact calledBefore_last (mem_distinct_calledNames.mp ha) hnone hlast

end CalledNames

/-- Whoever asks for the instructions of a program one by one gets those of its listing, then the
fault if there is one, and nothing after that. They tile the code, and the names of the calls among
them are given once each, in the order in which they first come up. -/
theorem Program.listing_tiles (p : Program) :
    (∀ answers, Walk.start.Yields p.code answers ↔ answers = p.listing.answers) ∧
    p.listing.answers.length ≤ p.size ∧
    p.listing.Tiles p.code ∧
    p.referencedNames.Nodup ∧
    (∀ name, name ∈ p.referencedNames ↔
      ∃ offset argc, (offset, .call name argc) ∈ p.listing.items) ∧
    p.referencedNames.Pairwise (CalledBefore p.listing.items) := by
  have hlisted := p.listing_listed
  have hordered : p.referencedNames.Pairwise (CalledBefore p.listing.items) :=
    distinct_calledNames_ordered hlisted.ascending
  refine ⟨fun answers => ⟨fun h => h.unique hlisted.yields, ?_⟩, ?_, hlisted.tiles,
    hordered.imp CalledBefore.ne, fun name => mem_distinct_calledNames, hordered⟩
  · rintro rfl
    exact hlisted.yields
  · have hlength := hlisted.length_answers_le
    rwa [Nat.zero_add] at hlength

/-- Nothing is listed behind a byte that is no opcode. -/
example : (Program.mk ⟨#[0x05, 0x11, 0xee, 0x11]⟩ 0).listing =
    ⟨[(0, .pushBool false), (1, .pop)], some ⟨2, .unknownOpcode 0xee⟩⟩ := by
  cbv

end LiveExpr
