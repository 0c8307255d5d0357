import LiveExpr.Bus

/-!
What the bus knows of a subscription, and how that changes. A subscription stands as
it was made until it is ended, and an ended one never comes back, because its number
is not used again. The lists by name hold exactly the subscriptions that are live, so
a fan-out is going to call those and no others.
-/
namespace LiveExpr.Bus

variable {α : Type}

theorem find?_eq_some {b : Bus α} {id : Ticket} {s : Subscription α} (h : b.find? id = some s) :
    (id, s) ∈ b.subscriptions := by
  unfold find? at h
  obtain ⟨⟨id', s'⟩, hfound, rfl⟩ := Option.map_eq_some_iff.mp h
  have hid : id' = id := by simpa using List.find?_some hfound
  subst hid
  exact List.mem_of_find?_eq_some hfound

theorem find?_unsubscribe (b : Bus α) (id other : Ticket) :
    (b.unsubscribe id).2.find? other = if other = id then none else b.find? other := by
  unfold unsubscribe
  cases hfound : b.find? id with
  | none =>
    by_cases h : other = id
    · rw [if_pos h, h]
      exact hfound
    · rw [if_neg h]
  | some s =>
    simp only [find?]
    by_cases h : other = id
    · subst h
      rw [if_pos rfl, Option.map_eq_none_iff, List.find?_eq_none]
      intro entry hentry hid
      rw [List.mem_filter] at hentry
      exact (of_decide_eq_true hentry.2) (of_decide_eq_true hid)
    · rw [if_neg h, List.find?_filter]
      congr 2
      funext entry
      by_cases hid : entry.1 = other
      · simp [hid, h]
      · simp [hid]

theorem idsOf_dropId (t : Table (List Ticket)) (name other : String) (id : Ticket) :
    ((dropId t name id).get? other).getD [] =
      if other = name then ((t.get? name).getD []).filter (· ≠ id) else (t.get? other).getD [] := by
  unfold dropId
  cases ht : t.get? name with
  | none =>
    by_cases h : other = name
    · simp [h, ht]
    · simp [h]
  | some ids =>
    by_cases hrest : (ids.filter (· ≠ id)).isEmpty
    · simp only [if_pos hrest, Table.get?_erase]
      by_cases h : other = name
      · simpa [h] using hrest
      · simp [h]
    · simp only [if_neg hrest, Table.get?_set]
      by_cases h : other = name
      · simp [h]
      · simp [h]

/-- Ending a subscription adds nothing to a list by name and keeps its order. -/
theorem idsOf_unsubscribe_sublist (b : Bus α) (id : Ticket) (name : String) :
    ((b.unsubscribe id).2.idsOf name).Sublist (b.idsOf name) := by
  unfold unsubscribe
  cases b.find? id with
  | none => exact List.Sublist.refl _
  | some s =>
    simp only [idsOf, idsOf_dropId]
    split
    · rename_i hname
      exact hname ▸ List.filter_sublist
    · exact List.Sublist.refl _

theorem idsOf_subscribe (b : Bus α) (owner : Owner) (name other : String) (tier : Tier)
    (target : α) :
    (b.subscribe owner name tier target).2.idsOf other =
      if other = name then b.idsOf name ++ [⟨owner, b.nextNumber⟩] else b.idsOf other := by
  simp only [subscribe, idsOf, Table.get?_set]
  by_cases h : other = name
  · simp [h]
  · simp [h]

/-- The numbers in use have been given out, and the lists by name are right. -/
structure Valid (b : Bus α) : Prop where
  fresh : ∀ entry ∈ b.subscriptions, entry.1.number < b.nextNumber
  listed : ∀ name id, id ∈ b.idsOf name ↔ ∃ s, b.find? id = some s ∧ s.name = name

theorem Valid.number_lt {b : Bus α} (hb : b.Valid) {id : Ticket} {s : Subscription α}
    (h : b.find? id = some s) : id.number < b.nextNumber :=
  hb.fresh _ (find?_eq_some h)

/-- The next number is not in use. -/
theorem Valid.find?_next {b : Bus α} (hb : b.Valid) (owner : Owner) :
    b.find? ⟨owner, b.nextNumber⟩ = none := by
  cases hs : b.find? ⟨owner, b.nextNumber⟩ with
  | none => rfl
  | some s => exact absurd (hb.number_lt hs) (Nat.lt_irrefl _)

theorem Valid.find?_subscribe {b : Bus α} (hb : b.Valid) (owner : Owner) (name : String)
    (tier : Tier) (target : α) (id : Ticket) :
    (b.subscribe owner name tier target).2.find? id =
      if id = ⟨owner, b.nextNumber⟩ then some ⟨name, tier, target⟩ else b.find? id := by
  by_cases h : id = ⟨owner, b.nextNumber⟩
  · have hnone := hb.find?_next owner
    rw [find?, Option.map_eq_none_iff] at hnone
    rw [if_pos h, h]
    simp [subscribe, find?, List.find?_append, hnone]
  · rw [if_neg h]
    simp only [subscribe, find?, List.find?_append]
    rw [List.find?_singleton, if_neg (by simpa using Ne.symm h), Option.or_none]

theorem valid_empty : (empty : Bus α).Valid where
  fresh := by simp [empty]
  listed := by simp [empty, idsOf, find?, Table.get?]

theorem Valid.subscribe {b : Bus α} (hb : b.Valid) (owner : Owner) (name : String) (tier : Tier)
    (target : α) : (b.subscribe owner name tier target).2.Valid where
  fresh := by
    intro entry hentry
    rcases List.mem_append.mp hentry with hold | hnew
    · exact Nat.lt_succ_of_lt (hb.fresh entry hold)
    · rw [List.mem_singleton.mp hnew]
      exact Nat.lt_succ_self _
  listed := by
    intro other id
    rw [idsOf_subscribe, hb.find?_subscribe]
    by_cases hid : id = ⟨owner, b.nextNumber⟩
    · subst hid
      have hunknown : ⟨owner, b.nextNumber⟩ ∉ b.idsOf other := by
        intro hmem
        obtain ⟨s, hs, -⟩ := (hb.listed other _).mp hmem
        exact Nat.lt_irrefl _ (hb.number_lt hs)
      by_cases hname : other = name
      · simp [hname]
      · simp [hname, Ne.symm hname, hunknown]
    · by_cases hname : other = name
      · simp [hname, hid, hb.listed]
      · simp [hname, hid, hb.listed]

/-- Ending a subscription takes its number out of the lists. -/
theorem Valid.idsOf_unsubscribe {b : Bus α} (hb : b.Valid) (id : Ticket) (name : String) :
    (b.unsubscribe id).2.idsOf name = (b.idsOf name).filter (· ≠ id) := by
  have hfree (h : id ∉ b.idsOf name) : b.idsOf name = (b.idsOf name).filter (· ≠ id) := by
    refine (List.filter_eq_self.mpr fun other hother => ?_).symm
    exact decide_eq_true fun heq => h (heq ▸ hother)
  cases hfound : b.find? id with
  | none =>
    have hunknown : id ∉ b.idsOf name := fun hid => by
      obtain ⟨s, hs, -⟩ := (hb.listed name id).mp hid
      cases hfound.symm.trans hs
    unfold Bus.unsubscribe
    rw [hfound]
    exact hfree hunknown
  | some s =>
    have hids : (b.unsubscribe id).2.idsOf name =
        if name = s.name then (b.idsOf s.name).filter (· ≠ id) else b.idsOf name := by
      unfold Bus.unsubscribe
      rw [hfound]
      exact idsOf_dropId b.byName s.name name id
    rw [hids]
    split
    · rename_i hname
      rw [hname]
    · rename_i hname
      refine hfree fun hid => ?_
      obtain ⟨s', hs', hname'⟩ := (hb.listed name id).mp hid
      cases hfound.symm.trans hs'
      exact hname hname'.symm

theorem Valid.unsubscribe {b : Bus α} (hb : b.Valid) (id : Ticket) :
    (b.unsubscribe id).2.Valid where
  fresh := by
    intro entry hentry
    unfold Bus.unsubscribe at hentry ⊢
    cases hfound : b.find? id with
    | none =>
      rw [hfound] at hentry
      exact hb.fresh entry hentry
    | some s =>
      rw [hfound] at hentry
      exact hb.fresh entry (List.mem_filter.mp hentry).1
  listed := by
    intro name other
    rw [hb.idsOf_unsubscribe, List.mem_filter, hb.listed, find?_unsubscribe]
    by_cases hid : other = id <;> simp [hid]

/-- Whom a fan-out is going to call. -/
theorem Valid.mem_targets {b : Bus α} (hb : b.Valid) {name : String} {id : Ticket} {target : α} :
    (id, target) ∈ b.targets name ↔
      ∃ s, b.find? id = some s ∧ s.name = name ∧ s.target = target := by
  have htier : ∀ tier, (id, target) ∈ b.tierTargets name tier ↔
      ∃ s, b.find? id = some s ∧ s.name = name ∧ s.target = target ∧ s.tier = tier := by
    intro tier
    simp only [tierTargets, List.mem_filterMap]
    constructor
    · rintro ⟨other, hmem, hother⟩
      obtain ⟨s, hs, hname⟩ := (hb.listed name other).mp hmem
      simp only [hs] at hother
      by_cases ht : s.tier = tier
      · simp only [if_pos ht, Option.some.injEq, Prod.mk.injEq] at hother
        obtain ⟨rfl, htarget⟩ := hother
        exact ⟨s, hs, hname, htarget, ht⟩
      · simp [ht] at hother
    · rintro ⟨s, hs, hname, htarget, ht⟩
      refine ⟨id, (hb.listed name id).mpr ⟨s, hs, hname⟩, ?_⟩
      simp [hs, ht, htarget]
  rw [targets, List.mem_append, htier, htier]
  constructor
  · rintro (⟨s, hs, hname, htarget, -⟩ | ⟨s, hs, hname, htarget, -⟩)
    · exact ⟨s, hs, hname, htarget⟩
    · exact ⟨s, hs, hname, htarget⟩
  · rintro ⟨s, hs, hname, htarget⟩
    cases ht : s.tier with
    | invalidate => exact Or.inl ⟨s, hs, hname, htarget, ht⟩
    | listen => exact Or.inr ⟨s, hs, hname, htarget, ht⟩

theorem next?_eq_some {b b' : Bus α} {name : String} (h : b.next? = some (name, b')) :
    ∃ rest, b.pending = name :: rest ∧ b' = { b with pending := rest } := by
  unfold next? at h
  cases hp : b.pending with
  | nil =>
    rw [hp] at h
    cases h
  | cons first rest =>
    rw [hp] at h
    cases h
    exact ⟨rest, rfl, rfl⟩

theorem next?_eq_none {b : Bus α} (h : b.next? = none) : b.pending = [] := by
  unfold next? at h
  cases hp : b.pending with
  | nil => rfl
  | cons first rest =>
    rw [hp] at h
    cases h

/-- Of the subscriptions made by then, the later bus holds some, each as it was. -/
structure Later (b b' : Bus α) : Prop where
  numbers : b.nextNumber ≤ b'.nextNumber
  kept : ∀ id s, id.number < b.nextNumber → b'.find? id = some s → b.find? id = some s

theorem Later.refl (b : Bus α) : b.Later b := ⟨Nat.le_refl _, fun _ _ _ h => h⟩

theorem Later.trans {a b c : Bus α} (hab : a.Later b) (hbc : b.Later c) : a.Later c :=
  ⟨Nat.le_trans hab.numbers hbc.numbers, fun id s hid h =>
    hab.kept id s hid (hbc.kept id s (Nat.lt_of_lt_of_le hid hab.numbers) h)⟩

theorem Valid.later_subscribe {b : Bus α} (hb : b.Valid) (owner : Owner) (name : String)
    (tier : Tier) (target : α) : b.Later (b.subscribe owner name tier target).2 where
  numbers := Nat.le_succ _
  kept := by
    intro id s hid h
    rw [hb.find?_subscribe, if_neg] at h
    · exact h
    · rintro rfl
      exact Nat.lt_irrefl _ hid

theorem nextNumber_unsubscribe (b : Bus α) (id : Ticket) :
    (b.unsubscribe id).2.nextNumber = b.nextNumber := by
  unfold unsubscribe
  cases b.find? id <;> rfl

theorem later_unsubscribe (b : Bus α) (id : Ticket) : b.Later (b.unsubscribe id).2 where
  numbers := Nat.le_of_eq (nextNumber_unsubscribe b id).symm
  kept := by
    intro other s _ h
    rw [find?_unsubscribe] at h
    by_cases hid : other = id
    · rw [if_pos hid] at h
      cases h
    · rwa [if_neg hid] at h

theorem pending_unsubscribe (b : Bus α) (id : Ticket) :
    (b.unsubscribe id).2.pending = b.pending := by
  unfold unsubscribe
  cases b.find? id <;> rfl

theorem dispatching_unsubscribe (b : Bus α) (id : Ticket) :
    (b.unsubscribe id).2.dispatching = b.dispatching := by
  unfold unsubscribe
  cases b.find? id <;> rfl

end LiveExpr.Bus
