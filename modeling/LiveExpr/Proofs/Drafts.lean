import LiveExpr.Proofs.Operands

/-!
Drafts of programs. A draft keeps the emitted instructions apart, one a line, together
with all attempts to point one of its jumps at a place in the code. An attempt succeeds
when the distance fits the operand, and a jump goes where the last of the attempts on it
that succeeded has pointed it. Nothing in a draft is ever written over, and the offsets of
its lines stay what they are.
-/
namespace LiveExpr

/-- An emission that leaves no operands to be emitted by hand. -/
def Emission.Complete : Emission → Prop
  | .opcode op => op.alone?.isSome
  | _ => True

instance : DecidablePred Emission.Complete := fun e => by
  cases e <;> unfold Emission.Complete <;> infer_instance

/-- An attempt to point the jump in a line at a place in the code. -/
structure Patch where
  line : Nat
  target : Nat

structure Draft where
  /-- The instructions as they are emitted, when no jump goes anywhere yet. -/
  lines : List Instruction
  /-- The lines of the jumps that may be bound, in the order of their slots. -/
  slots : List Nat
  labels : List Nat
  /-- All attempts so far, the successful and the others, oldest first. -/
  patches : List Patch

namespace Draft

def empty : Draft := ⟨[], [], [], []⟩

/-- Where a line begins. The line behind the last one begins at the end of the code. -/
def offset (d : Draft) (line : Nat) : Nat := (Instruction.encodeAll (d.lines.take line)).size

def size (d : Draft) : Nat := d.offset d.lines.length

/-- From the instruction behind the jump to the target. -/
def distance (d : Draft) (p : Patch) : Int := p.target - d.offset (p.line + 1)

def Reaches (d : Draft) (p : Patch) : Prop := -32768 ≤ d.distance p ∧ d.distance p ≤ 32767

instance (d : Draft) : DecidablePred d.Reaches := fun _ => inferInstanceAs (Decidable (_ ∧ _))

/-- The last successful attempt on a line. -/
def aim? (d : Draft) (line : Nat) : Option Patch :=
  (d.patches.filter fun p => p.line = line ∧ d.Reaches p).getLast?

def operand (d : Draft) (line : Nat) : Int16 :=
  match d.aim? line with
  | some p => .ofInt (d.distance p)
  | none => 0

def instructions (d : Draft) : List Instruction :=
  d.lines.mapIdx fun line i => i.aimed (d.operand line)

/-- The instructions with their offsets. -/
def items (d : Draft) : List (Nat × Instruction) :=
  d.instructions.mapIdx fun line i => (d.offset line, i)

/-- The attempts that failed are reported where the jump is. -/
def faults (d : Draft) : List Fault :=
  (d.patches.filter fun p => ¬ d.Reaches p).map fun p =>
    ⟨d.offset p.line, .jumpOutOfBounds (d.distance p)⟩

def write (d : Draft) (i : Instruction) : Draft := { d with lines := d.lines ++ [i] }

def reserve (d : Draft) (i : Instruction) : Draft :=
  { d.write i with slots := d.slots ++ [d.lines.length] }

def point (d : Draft) (line target : Nat) : Draft :=
  { d with patches := d.patches ++ [⟨line, target⟩] }

def step (d : Draft) : Emission → Draft
  | .opcode op => op.alone?.elim d d.write
  | .number bits => d.write (.pushNumber bits)
  | .text s => d.write (.pushText (clip s))
  | .boolean b => d.write (.pushBool b)
  | .argument index => d.write (.loadArg index)
  | .call name argc => d.write (.call (clip name) argc)
  | .jump => d.reserve (.jump 0)
  | .jumpIfFalse => d.reserve (.jumpIfFalse 0)
  | .label => { d with labels := d.labels ++ [d.size] }
  | .bind slot =>
    match d.slots[slot]? with
    | some line => d.point line d.size
    | none => d
  | .jumpTo label =>
    match d.labels[label]? with
    | some target => (d.write (.jump 0)).point d.lines.length target
    | none => d

def ofEmissions (emissions : List Emission) : Draft := emissions.foldl step empty

/-- The beginning of a line or the end of the code. -/
def IsPlace (d : Draft) (offset : Nat) : Prop := ∃ line ≤ d.lines.length, offset = d.offset line

/-- What holds of every draft that is made by emissions. -/
structure Valid (d : Draft) : Prop where
  fits : ∀ i ∈ d.lines, i.Fits
  slots : ∀ line ∈ d.slots, ∃ i, d.lines[line]? = some i ∧ i.rel?.isSome
  labels : ∀ label ∈ d.labels, d.IsPlace label
  lines : ∀ p ∈ d.patches, ∃ i, d.lines[p.line]? = some i ∧ i.rel?.isSome
  targets : ∀ p ∈ d.patches, d.IsPlace p.target

section Layout

variable {d : Draft} {line : Nat} {i : Instruction}

theorem offset_succ (h : d.lines[line]? = some i) :
    d.offset (line + 1) = d.offset line + i.encode.size := by
  obtain ⟨hlt, rfl⟩ := List.getElem?_eq_some_iff.mp h
  rw [offset, offset, List.take_succ_eq_append_getElem hlt, Instruction.encodeAll_append,
    ByteArray.size_append, Instruction.encodeAll, Instruction.encodeAll, ByteArray.append_empty]

theorem offset_write (h : line ≤ d.lines.length) : (d.write i).offset line = d.offset line := by
  rw [offset, offset, write, List.take_append_of_le_length h]

theorem isPlace_write {offset : Nat} (h : d.IsPlace offset) : (d.write i).IsPlace offset := by
  obtain ⟨line, hle, rfl⟩ := h
  exact ⟨line, by simp only [write, List.length_append]; omega, (offset_write hle).symm⟩

theorem isPlace_size : d.IsPlace d.size := ⟨d.lines.length, (Nat.le_refl _), rfl⟩

theorem distance_write {p : Patch} (h : p.line < d.lines.length) :
    (d.write i).distance p = d.distance p := by
  rw [distance, distance, offset_write h]

theorem reaches_write {p : Patch} (h : p.line < d.lines.length) :
    (d.write i).Reaches p ↔ d.Reaches p := by
  rw [Reaches, Reaches, distance_write h]

theorem getElem?_instructions :
    d.instructions[line]? = (d.lines[line]?).map fun i => i.aimed (d.operand line) :=
  List.getElem?_mapIdx

theorem aim?_eq_none (h : ∀ p ∈ d.patches, p.line ≠ line) : d.aim? line = none := by
  have hnone : d.patches.filter (fun p => p.line = line ∧ d.Reaches p) = [] := by
    refine List.filter_eq_nil_iff.mpr fun p hp => ?_
    simp [h p hp]
  rw [aim?, hnone, List.getLast?_nil]

theorem operand_write (h : line < d.lines.length) :
    (d.write i).operand line = d.operand line := by
  have hsame : ∀ p : Patch, p.line = line →
      ((d.write i).Reaches p ↔ d.Reaches p) ∧ (d.write i).distance p = d.distance p := by
    intro p hp
    have hlt : p.line < d.lines.length := hp ▸ h
    exact ⟨reaches_write hlt, distance_write hlt⟩
  have haim : (d.write i).aim? line = d.aim? line := by
    refine congrArg List.getLast? (List.filter_congr fun p _ => ?_)
    by_cases hp : p.line = line
    · simp [hp, (hsame p hp).1]
    · simp [hp]
  rw [operand, operand, haim]
  cases hp : d.aim? line with
  | none => rfl
  | some p =>
    have hmem := List.mem_of_getLast? hp
    simp only [List.mem_filter, decide_eq_true_eq] at hmem
    exact congrArg Int16.ofInt (hsame p hmem.2.1).2

theorem lines_lt (hv : d.Valid) {p : Patch} (hp : p ∈ d.patches) : p.line < d.lines.length := by
  obtain ⟨j, hj, _⟩ := hv.lines p hp
  exact (List.getElem?_eq_some_iff.mp hj).1

theorem instructions_write (hv : d.Valid) :
    (d.write i).instructions = d.instructions ++ [i.aimed 0] := by
  have hlast : (d.write i).operand d.lines.length = 0 := by
    have hnone : (d.write i).aim? d.lines.length = none :=
      aim?_eq_none fun p hp => Nat.ne_of_lt (lines_lt hv hp)
    rw [operand, hnone]
  have hfront : d.lines.mapIdx (fun line i' => i'.aimed ((d.write i).operand line)) =
      d.instructions := by
    refine List.ext_getElem? fun line => ?_
    rw [List.getElem?_mapIdx, getElem?_instructions]
    cases hl : d.lines[line]? with
    | none => rfl
    | some j =>
      have hlt := (List.getElem?_eq_some_iff.mp hl).1
      simp only [Option.map_some, operand_write hlt]
  rw [instructions, show (d.write i).lines = d.lines ++ [i] from rfl, List.mapIdx_concat, hfront,
    hlast]

theorem operand_point {target other : Nat} :
    (d.point line target).operand other =
      if other = line ∧ d.Reaches ⟨line, target⟩ then .ofInt (d.distance ⟨line, target⟩)
      else d.operand other := by
  have haim : (d.point line target).aim? other =
      if other = line ∧ d.Reaches ⟨line, target⟩ then some ⟨line, target⟩ else d.aim? other := by
    unfold aim?
    rw [show (d.point line target).patches = d.patches ++ [⟨line, target⟩] from rfl,
      List.filter_append]
    split
    · rename_i h
      rw [List.filter_cons_of_pos, List.filter_nil, List.getLast?_concat]
      exact decide_eq_true ⟨h.1.symm, h.2⟩
    · rename_i h
      rw [List.filter_cons_of_neg, List.filter_nil, List.append_nil]
      · rfl
      · intro hp
        have hp := of_decide_eq_true hp
        exact h ⟨hp.1.symm, hp.2⟩
  rw [operand, haim]
  by_cases h : other = line ∧ d.Reaches ⟨line, target⟩
  · rw [if_pos h, if_pos h]
    rfl
  · rw [if_neg h, if_neg h]
    rfl

theorem instructions_point (target : Nat) (hl : d.lines[line]? = some i) :
    (d.point line target).instructions =
      if d.Reaches ⟨line, target⟩ then
        d.instructions.set line (i.aimed (.ofInt (d.distance ⟨line, target⟩)))
      else d.instructions := by
  refine List.ext_getElem? fun other => ?_
  rw [getElem?_instructions, operand_point, show (d.point line target).lines = d.lines from rfl]
  by_cases hreaches : d.Reaches ⟨line, target⟩
  · rw [if_pos hreaches, List.getElem?_set]
    by_cases hother : other = line
    · subst hother
      obtain ⟨hlt, rfl⟩ := List.getElem?_eq_some_iff.mp hl
      simp [hreaches, instructions, hlt]
    · have hne : ¬ line = other := fun h => hother h.symm
      simp [hother, hne, getElem?_instructions]
  · simp [hreaches, getElem?_instructions]

theorem faults_point (d : Draft) (line target : Nat) :
    (d.point line target).faults =
      d.faults ++ if d.Reaches ⟨line, target⟩ then [] else
        [⟨d.offset line, .jumpOutOfBounds (d.distance ⟨line, target⟩)⟩] := by
  have hfilter : (d.point line target).patches.filter (fun p => ¬ (d.point line target).Reaches p) =
      d.patches.filter (fun p => ¬ d.Reaches p) ++
        [⟨line, target⟩].filter fun p => ¬ d.Reaches p := List.filter_append ..
  rw [faults, hfilter, List.map_append]
  refine congrArg (d.faults ++ ·) ?_
  by_cases h : d.Reaches ⟨line, target⟩
  · rw [if_pos h, List.filter_cons_of_neg (by simpa using h)]
    rfl
  · rw [if_neg h, List.filter_cons_of_pos (by simpa using h)]
    rfl

end Layout

section Steps

variable {d : Draft} {i : Instruction}

theorem valid_empty : empty.Valid where
  fits := by simp [empty]
  slots := by simp [empty]
  labels := by simp [empty]
  lines := by simp [empty]
  targets := by simp [empty]

theorem Valid.write (hv : d.Valid) (hi : i.Fits) : (d.write i).Valid := by
  have hold : ∀ {line : Nat} {j : Instruction}, d.lines[line]? = some j →
      (d.write i).lines[line]? = some j := by
    intro line j h
    exact (List.getElem?_append_left (List.getElem?_eq_some_iff.mp h).1).trans h
  refine ⟨fun j hj => ?fits, fun line hline => ?slots, fun l hl => isPlace_write (hv.labels l hl),
    fun p hp => ?lines, fun p hp => isPlace_write (hv.targets p hp)⟩
  case fits =>
    rcases List.mem_append.mp hj with hj | hj
    · exact hv.fits j hj
    · exact List.mem_singleton.mp hj ▸ hi
  case slots =>
    obtain ⟨j, hj, hjump⟩ := hv.slots line hline
    exact ⟨j, hold hj, hjump⟩
  case lines =>
    obtain ⟨j, hj, hjump⟩ := hv.lines p hp
    exact ⟨j, hold hj, hjump⟩

theorem getElem?_write : (d.write i).lines[d.lines.length]? = some i := by simp [Draft.write]

theorem Valid.reserve (hv : d.Valid) (hi : i.Fits) (hjump : i.rel?.isSome) :
    (d.reserve i).Valid := by
  have hw := hv.write hi
  refine ⟨hw.fits, fun line hline => ?_, hw.labels, hw.lines, hw.targets⟩
  rcases List.mem_append.mp hline with hline | hline
  · exact hw.slots line hline
  · exact ⟨i, List.mem_singleton.mp hline ▸ getElem?_write, hjump⟩

theorem Valid.point {line target : Nat} (hv : d.Valid) (hl : d.lines[line]? = some i)
    (hjump : i.rel?.isSome) (ht : d.IsPlace target) : (d.point line target).Valid := by
  refine ⟨hv.fits, hv.slots, hv.labels, fun p hp => ?_, fun p hp => ?_⟩
  · rcases List.mem_append.mp hp with hp | hp
    · exact hv.lines p hp
    · exact ⟨i, List.mem_singleton.mp hp ▸ hl, hjump⟩
  · rcases List.mem_append.mp hp with hp | hp
    · exact hv.targets p hp
    · exact List.mem_singleton.mp hp ▸ ht

theorem Valid.step (hv : d.Valid) (e : Emission) : (d.step e).Valid := by
  cases e with
  | opcode op =>
    simp only [Draft.step]
    cases ho : op.alone? with
    | none => exact hv
    | some i => exact hv.write (Opcode.alone?_plain ho).1
  | number bits => exact hv.write trivial
  | text s => exact hv.write (clip_longestFit s).fits
  | boolean b => exact hv.write trivial
  | argument index => exact hv.write trivial
  | call name argc => exact hv.write (clip_longestFit name).fits
  | jump => exact hv.reserve trivial rfl
  | jumpIfFalse => exact hv.reserve trivial rfl
  | label =>
    refine ⟨hv.fits, hv.slots, fun l hl => ?_, hv.lines, hv.targets⟩
    rcases List.mem_append.mp hl with hl | hl
    · exact hv.labels l hl
    · exact List.mem_singleton.mp hl ▸ isPlace_size
  | bind slot =>
    simp only [Draft.step]
    cases hs : d.slots[slot]? with
    | none => exact hv
    | some line =>
      obtain ⟨j, hj, hjump⟩ := hv.slots line (List.mem_of_getElem? hs)
      exact hv.point hj hjump isPlace_size
  | jumpTo label =>
    simp only [Draft.step]
    cases hl : d.labels[label]? with
    | none => exact hv
    | some target =>
      have hplace := hv.labels target (List.mem_of_getElem? hl)
      exact (hv.write (i := .jump 0) trivial).point getElem?_write rfl (isPlace_write hplace)

theorem valid_ofEmissions (emissions : List Emission) : (ofEmissions emissions).Valid := by
  have hfrom : ∀ d : Draft, d.Valid → (emissions.foldl step d).Valid := by
    induction emissions with
    | nil => exact fun d hd => hd
    | cons e rest ih => exact fun d hd => ih _ (hd.step e)
  exact hfrom empty valid_empty

end Steps

section Code

variable {d : Draft}

theorem length_instructions (d : Draft) : d.instructions.length = d.lines.length :=
  List.length_mapIdx

theorem size_take_instructions (d : Draft) (line : Nat) :
    (Instruction.encodeAll (d.instructions.take line)).size = d.offset line := by
  have hsizes : d.instructions.map (fun i => i.encode.size) =
      d.lines.map fun i => i.encode.size := by
    refine List.ext_getElem? fun n => ?_
    rw [List.getElem?_map, List.getElem?_map, getElem?_instructions]
    cases d.lines[n]? with
    | none => rfl
    | some i => exact congrArg some (i.size_encode_aimed _)
  refine Instruction.size_encodeAll_congr ?_
  rw [List.map_take, hsizes, List.map_take]

theorem size_encodeAll_instructions (d : Draft) :
    (Instruction.encodeAll d.instructions).size = d.size := by
  have h := d.size_take_instructions d.lines.length
  rwa [List.take_of_length_le (Nat.le_of_eq d.length_instructions)] at h

/-- A jump takes three bytes, of which its operand is the last two. -/
theorem offset_behind {line : Nat} {j : Instruction} (hl : d.lines[line]? = some j)
    (hjump : j.rel?.isSome) : d.offset (line + 1) = d.offset line + 1 + 2 := by
  obtain ⟨rel, hrel⟩ := Option.isSome_iff_exists.mp hjump
  rw [offset_succ hl, Instruction.encode_of_rel? hrel]
  rfl

/-- The code in which the jump of one line has got another operand. -/
theorem encodeAll_set {line : Nat} {j : Instruction} (hl : d.lines[line]? = some j)
    (hjump : j.rel?.isSome) (rel : Int16) :
    (Instruction.encodeAll d.instructions).extract 0 (d.offset line + 1) ++
        Instruction.encodeJump rel ++
        (Instruction.encodeAll d.instructions).extract (d.offset line + 1 + 2)
          (Instruction.encodeAll d.instructions).size =
      Instruction.encodeAll (d.instructions.set line (j.aimed rel)) := by
  have hline : d.instructions[line]? = some (j.aimed (d.operand line)) := by
    rw [getElem?_instructions, hl]
    rfl
  obtain ⟨hlt, hget⟩ := List.getElem?_eq_some_iff.mp hline
  have hsplit : d.instructions.take line ++
      j.aimed (d.operand line) :: d.instructions.drop (line + 1) = d.instructions := by
    rw [← hget, ← List.drop_eq_getElem_cons hlt, List.take_append_drop]
  have haimed : (j.aimed (d.operand line)).rel?.isSome := by
    rw [Instruction.rel?_aimed hjump]
    rfl
  have hset := Instruction.encodeAll_aimed (d.instructions.take line)
    (d.instructions.drop (line + 1)) haimed rel
  rw [hsplit, d.size_take_instructions, Instruction.aimed_aimed] at hset
  rw [hset, List.set_eq_take_append_cons_drop, if_pos hlt]

theorem fits_instructions (hv : d.Valid) : ∀ i ∈ d.instructions, i.Fits := by
  intro i hi
  obtain ⟨n, hn⟩ := List.mem_iff_getElem?.mp hi
  rw [getElem?_instructions] at hn
  obtain ⟨j, hj, rfl⟩ := Option.map_eq_some_iff.mp hn
  exact Instruction.fits_aimed (hv.fits j (List.mem_of_getElem? hj)) _

/-- A jump goes where the last successful attempt has pointed it, or else to the next
instruction. -/
theorem rel_aimed (d : Draft) {line : Nat} {i : Instruction} {rel : Int16}
    (hi : d.instructions[line]? = some i) (hrel : i.rel? = some rel) :
    match d.aim? line with
    | some p => (d.offset (line + 1) : Int) + rel.toInt = p.target
    | none => rel = 0 := by
  rw [getElem?_instructions] at hi
  obtain ⟨j, hj, rfl⟩ := Option.map_eq_some_iff.mp hi
  have hjump : j.rel?.isSome := by
    cases j <;> first | rfl | cases hrel
  rw [Instruction.rel?_aimed hjump] at hrel
  obtain rfl := Option.some.inj hrel
  unfold operand
  cases haim : d.aim? line with
  | none => rfl
  | some p =>
    have hmem := List.mem_of_getLast? haim
    simp only [List.mem_filter, decide_eq_true_eq] at hmem
    obtain ⟨_, rfl, hlow, hhigh⟩ := hmem
    show (d.offset (p.line + 1) : Int) + (Int16.ofInt (d.distance p)).toInt = p.target
    rw [Int16.toInt_ofInt_of_le (by omega) (by omega), distance]
    omega

end Code

end Draft

end LiveExpr
