import LiveExpr.Store

/-!
What a store holds under a handle after each operation. A handle that was given out
stays spent: once its expression is removed, no later insertion gives the same handle
again, because the slot has moved on to another generation.
-/
namespace LiveExpr.Store

theorem get?_eq_some {s : Store} {h : Handle} {c : Cache} :
    s.get? h = some c ↔ s.slots[h.slot]? = some ⟨h.generation, some c⟩ := by
  unfold get?
  cases hs : s.slots[h.slot]? with
  | none => simp
  | some slot =>
    obtain ⟨generation, cache⟩ := slot
    by_cases hg : generation = h.generation
    · simp [hg]
    · simp [hg]

theorem get?_set {s : Store} {n : Nat} (hn : n < s.slots.length) (slot : Slot) (free : List Nat)
    (h : Handle) :
    (⟨s.slots.set n slot, free⟩ : Store).get? h =
      if h.slot = n then (if slot.generation = h.generation then slot.cache else none)
      else s.get? h := by
  by_cases hslot : h.slot = n
  · simp [get?, hslot, hn]
  · simp [get?, hslot, Ne.symm hslot]

theorem slot_lt {s : Store} {h : Handle} {c : Cache} (hc : s.get? h = some c) :
    h.slot < s.slots.length := by
  have hslot := get?_eq_some.mp hc
  exact (List.getElem?_eq_some_iff.mp hslot).1

private theorem eq_of_slot_eq {h h' : Handle} (hslot : h'.slot = h.slot)
    (hg : h.generation = h'.generation) : h' = h := by
  cases h
  cases h'
  simp_all

theorem get?_modify (s : Store) (h h' : Handle) (f : Cache → Cache) :
    (s.modify h f).get? h' = if h' = h then (s.get? h).map f else s.get? h' := by
  unfold modify
  cases hc : s.get? h with
  | none =>
    by_cases heq : h' = h
    · simp [heq, hc]
    · simp [heq]
  | some c =>
    simp only [get?_set (slot_lt hc)]
    by_cases hslot : h'.slot = h.slot
    · by_cases hg : h.generation = h'.generation
      · simp [eq_of_slot_eq hslot hg]
      · have hne : h' ≠ h := fun heq => hg (heq ▸ rfl)
        have hnone : s.get? h' = none := by
          rw [get?, hslot, get?_eq_some.mp hc]
          simp [hg]
        simp [hslot, hg, hne, hnone]
    · have hne : h' ≠ h := fun heq => hslot (heq ▸ rfl)
      simp [hslot, hne]

theorem get?_remove (s : Store) (h h' : Handle) :
    (s.remove h).2.get? h' = if h' = h then none else s.get? h' := by
  unfold remove
  cases hc : s.get? h with
  | none =>
    by_cases heq : h' = h
    · simp [heq, hc]
    · simp [heq]
  | some c =>
    simp only [get?_set (slot_lt hc)]
    by_cases hslot : h'.slot = h.slot
    · have hnone : h' ≠ h → s.get? h' = none := by
        intro hne
        rw [get?, hslot, get?_eq_some.mp hc]
        simp only
        rw [if_neg fun hg => hne (eq_of_slot_eq hslot hg)]
      by_cases heq : h' = h
      · simp [heq]
      · simp [hslot, heq, hnone heq]
    · have hne : h' ≠ h := fun heq => hslot (heq ▸ rfl)
      simp [hslot, hne]

/-- Every free slot is there, once, and holds nothing. -/
structure Valid (s : Store) : Prop where
  nodup : s.free.Nodup
  vacant : ∀ n ∈ s.free, ∃ generation, s.slots[n]? = some ⟨generation, none⟩

theorem valid_empty : empty.Valid := ⟨List.nodup_nil, by simp [empty]⟩

/-- The handle was given out at some time, whether or not it is still bound. -/
def Issued (s : Store) (h : Handle) : Prop :=
  ∃ slot, s.slots[h.slot]? = some slot ∧
    (h.generation < slot.generation ∨ h.generation = slot.generation ∧ slot.cache.isSome)

theorem issued_of_get? {s : Store} {h : Handle} {c : Cache} (hc : s.get? h = some c) :
    s.Issued h :=
  ⟨_, get?_eq_some.mp hc, Or.inr ⟨rfl, rfl⟩⟩

/-- What the store holds at the place of a new expression before it is put there. -/
theorem Valid.insert_cases {s : Store} (hs : s.Valid) (c : Cache) :
    (∃ n rest generation, s.free = n :: rest ∧ s.slots[n]? = some ⟨generation, none⟩ ∧
      s.insert c = (⟨n, generation⟩, ⟨s.slots.set n ⟨generation, some c⟩, rest⟩)) ∨
    (s.free = [] ∧
      s.insert c = (⟨s.slots.length, 0⟩, { s with slots := s.slots ++ [⟨0, some c⟩] })) := by
  unfold insert
  cases hfree : s.free with
  | nil => exact Or.inr ⟨rfl, rfl⟩
  | cons n rest =>
    obtain ⟨generation, hslot⟩ := hs.vacant n (by rw [hfree]; exact List.mem_cons_self)
    refine Or.inl ⟨n, rest, generation, rfl, hslot, ?_⟩
    simp [hslot]

theorem Valid.get?_insert {s : Store} (hs : s.Valid) (c : Cache) (h : Handle) :
    (s.insert c).2.get? h = if h = (s.insert c).1 then some c else s.get? h := by
  -- A vacant slot is filled again under its own generation, or a new slot is added.
  rcases hs.insert_cases c with ⟨n, rest, generation, -, hslot, heq⟩ | ⟨-, heq⟩
  · have hn := (List.getElem?_eq_some_iff.mp hslot).1
    rw [heq]
    simp only [get?_set hn]
    by_cases hh : h = ⟨n, generation⟩
    · simp [hh]
    · rw [if_neg hh]
      by_cases hn : h.slot = n
      · have hg : generation ≠ h.generation :=
          fun hg => hh (eq_of_slot_eq (h := ⟨n, generation⟩) hn hg)
        have hnone : s.get? h = none := by
          rw [get?, hn, hslot]
          simp
        simp [hn, hg, hnone]
      · simp [hn]
  · rw [heq]
    simp only [get?]
    by_cases hlt : h.slot < s.slots.length
    · have hne : h ≠ ⟨s.slots.length, 0⟩ := by
        rintro rfl
        exact Nat.lt_irrefl _ hlt
      rw [List.getElem?_append_left hlt, if_neg hne]
    · have hnone : s.slots[h.slot]? = none := List.getElem?_eq_none (Nat.le_of_not_lt hlt)
      by_cases hh : h = ⟨s.slots.length, 0⟩
      · simp [hh]
      · rw [List.getElem?_append_right (Nat.le_of_not_lt hlt), if_neg hh, hnone]
        cases hd : h.slot - s.slots.length with
        | zero =>
          have hslot : h.slot = s.slots.length := by omega
          have hg : 0 ≠ h.generation :=
            fun hg => hh (eq_of_slot_eq (h := ⟨s.slots.length, 0⟩) hslot hg)
          simp [hg]
        | succ k => simp

/-- A new expression gets a handle that was not in use before. -/
theorem Valid.not_issued_insert {s : Store} (hs : s.Valid) (c : Cache) :
    ¬ s.Issued (s.insert c).1 := by
  rintro ⟨slot, hslot, hg⟩
  rcases hs.insert_cases c with ⟨n, rest, generation, -, hvacant, heq⟩ | ⟨-, heq⟩
  · rw [heq] at hslot hg
    rw [hvacant] at hslot
    cases hslot
    simp at hg
  · rw [heq] at hslot
    simp at hslot

theorem Valid.insert {s : Store} (hs : s.Valid) (c : Cache) : (s.insert c).2.Valid := by
  rcases hs.insert_cases c with ⟨n, rest, generation, hfree, hslot, heq⟩ | ⟨hfree, heq⟩
  · have hnodup := hs.nodup
    rw [hfree, List.nodup_cons] at hnodup
    rw [heq]
    refine ⟨hnodup.2, fun m hm => ?_⟩
    have hne : n ≠ m := fun h => hnodup.1 (h ▸ hm)
    simp only [List.getElem?_set_ne hne]
    exact hs.vacant m (by rw [hfree]; exact List.mem_cons_of_mem _ hm)
  · rw [heq]
    exact ⟨hs.nodup, fun m hm => by simp [hfree] at hm⟩

theorem Valid.modify {s : Store} (hs : s.Valid) (h : Handle) (f : Cache → Cache) :
    (s.modify h f).Valid := by
  unfold Store.modify
  cases hc : s.get? h with
  | none => exact hs
  | some c =>
    refine ⟨hs.nodup, fun n hn => ?_⟩
    obtain ⟨generation, hslot⟩ := hs.vacant n hn
    have hne : h.slot ≠ n := by
      rintro rfl
      rw [get?_eq_some.mp hc] at hslot
      cases hslot
    exact ⟨generation, by rw [List.getElem?_set_ne hne]; exact hslot⟩

theorem Valid.remove {s : Store} (hs : s.Valid) (h : Handle) : (s.remove h).2.Valid := by
  unfold Store.remove
  cases hc : s.get? h with
  | none => exact hs
  | some c =>
    have hslot := get?_eq_some.mp hc
    have hused : h.slot ∉ s.free := by
      intro hmem
      obtain ⟨generation, hvacant⟩ := hs.vacant _ hmem
      rw [hslot] at hvacant
      cases hvacant
    refine ⟨List.nodup_cons.mpr ⟨hused, hs.nodup⟩, fun n hn => ?_⟩
    rcases List.mem_cons.mp hn with rfl | hn
    · exact ⟨h.generation + 1, List.getElem?_set_self (slot_lt hc)⟩
    · have hne : h.slot ≠ n := fun heq => hused (heq ▸ hn)
      obtain ⟨generation, hvacant⟩ := hs.vacant n hn
      exact ⟨generation, by rw [List.getElem?_set_ne hne]; exact hvacant⟩

/-- A slot is only ever refilled, or emptied under the next generation. -/
theorem Issued.set {s : Store} {h : Handle} (hi : s.Issued h) {n : Nat} {slot : Slot}
    {free : List Nat}
    (hslot : ∀ old, s.slots[n]? = some old → old.generation < slot.generation ∨
      old.generation = slot.generation ∧ slot.cache.isSome) :
    (⟨s.slots.set n slot, free⟩ : Store).Issued h := by
  obtain ⟨old, hold, hg⟩ := hi
  by_cases hn : n = h.slot
  · subst hn
    refine ⟨slot, List.getElem?_set_self (List.getElem?_eq_some_iff.mp hold).1, ?_⟩
    rcases hslot old hold with hlt | ⟨heq, hsome⟩
    · omega
    · rcases hg with hg | ⟨hg, -⟩
      · exact Or.inl (heq ▸ hg)
      · exact Or.inr ⟨heq ▸ hg, hsome⟩
  · exact ⟨old, by simpa only [List.getElem?_set_ne hn] using hold, hg⟩

theorem Issued.modify {s : Store} {h : Handle} (hi : s.Issued h) (h' : Handle) (f : Cache → Cache) :
    (s.modify h' f).Issued h := by
  unfold Store.modify
  cases hc : s.get? h' with
  | none => exact hi
  | some c =>
    refine hi.set fun old hold => ?_
    rw [get?_eq_some.mp hc] at hold
    cases hold
    exact Or.inr ⟨rfl, rfl⟩

theorem Issued.remove {s : Store} {h : Handle} (hi : s.Issued h) (h' : Handle) :
    (s.remove h').2.Issued h := by
  unfold Store.remove
  cases hc : s.get? h' with
  | none => exact hi
  | some c =>
    refine hi.set fun old hold => ?_
    rw [get?_eq_some.mp hc] at hold
    cases hold
    exact Or.inl (Nat.lt_succ_self _)

theorem Issued.insert {s : Store} {h : Handle} (hi : s.Issued h) (hs : s.Valid) (c : Cache) :
    (s.insert c).2.Issued h := by
  rcases hs.insert_cases c with ⟨n, rest, generation, -, hslot, heq⟩ | ⟨-, heq⟩
  · rw [heq]
    refine hi.set fun old hold => ?_
    rw [hslot] at hold
    cases hold
    exact Or.inr ⟨rfl, rfl⟩
  · rw [heq]
    obtain ⟨slot, hslot, hg⟩ := hi
    have hlt := (List.getElem?_eq_some_iff.mp hslot).1
    exact ⟨slot, by rw [List.getElem?_append_left hlt]; exact hslot, hg⟩

theorem mem_entries {s : Store} {h : Handle} {c : Cache} :
    (h, c) ∈ s.entries ↔ s.get? h = some c := by
  rw [get?_eq_some, entries, List.mem_filterMap]
  constructor
  · rintro ⟨⟨⟨generation, cache⟩, n⟩, hmem, hentry⟩
    obtain ⟨c', rfl, hpair⟩ := Option.map_eq_some_iff.mp hentry
    cases hpair
    exact List.mem_zipIdx_iff_getElem?.mp hmem
  · intro hslot
    exact ⟨(_, h.slot), List.mem_zipIdx_iff_getElem?.mpr hslot, rfl⟩

/-- A refresh is going to read the eager expressions without a stored value. -/
theorem mem_staleHandles {s : Store} {h : Handle} :
    h ∈ s.staleHandles ↔ ∃ c, s.get? h = some c ∧ c.mode = .eager ∧ c.value = none := by
  rw [staleHandles, List.mem_map]
  constructor
  · rintro ⟨⟨h', c⟩, hmem, rfl⟩
    obtain ⟨hentry, hstale⟩ := List.mem_filter.mp hmem
    refine ⟨c, mem_entries.mp hentry, ?_⟩
    simpa [Cache.isStale] using hstale
  · rintro ⟨c, hc, hmode, hvalue⟩
    refine ⟨(h, c), List.mem_filter.mpr ⟨mem_entries.mpr hc, ?_⟩, rfl⟩
    simp [Cache.isStale, hmode, hvalue]

/-- It reads each of them once. -/
theorem nodup_staleHandles (s : Store) : s.staleHandles.Nodup := by
  have hslots : s.slots.zipIdx.Pairwise fun x y => x.2 ≠ y.2 := by
    have hsnd : (s.slots.zipIdx.map Prod.snd).Nodup := by
      rw [List.zipIdx_map_snd]
      exact List.nodup_range'
    exact List.pairwise_map.mp hsnd
  have hentries : s.entries.Pairwise fun x y => x.1 ≠ y.1 := by
    refine List.pairwise_filterMap.mpr (hslots.imp ?_)
    rintro ⟨slot, n⟩ ⟨slot', n'⟩ hne ⟨h, c⟩ hc ⟨h', c'⟩ hc' rfl
    obtain ⟨_, -, hpair⟩ := Option.map_eq_some_iff.mp hc
    obtain ⟨_, -, hpair'⟩ := Option.map_eq_some_iff.mp hc'
    have hn : n = h.slot := congrArg (fun entry => entry.1.slot) hpair
    have hn' : n' = h.slot := congrArg (fun entry => entry.1.slot) hpair'
    exact hne (hn.trans hn'.symm)
  exact List.pairwise_map.mpr (hentries.filter _)

end LiveExpr.Store
