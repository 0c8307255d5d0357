import LiveExpr.Proofs.FanOutOrder

/-!
The lists of subscriptions by name, against all the subscriptions that have ever been made. A name
lists those of its subscriptions that are still live, in the order in which they were made, and a
name that has none is not in the table. This is so at every moment, amid callbacks and fan-outs
too.
-/
namespace LiveExpr

namespace Table

variable {β : Type}

theorem mem_of_mem_set {t : Table β} {name : String} {x : β} {entry : String × β}
    (h : entry ∈ t.set name x) : entry = (name, x) ∨ entry ∈ t := by
  induction t with
  | nil => exact Or.inl (List.mem_singleton.mp h)
  | cons p rest ih =>
    obtain ⟨k, v⟩ := p
    unfold set at h
    split at h
    · exact (List.mem_cons.mp h).imp_right (List.mem_cons_of_mem _)
    · rcases List.mem_cons.mp h with rfl | hrest
      · exact Or.inr List.mem_cons_self
      · exact (ih hrest).imp_right (List.mem_cons_of_mem _)

theorem mem_of_mem_erase {t : Table β} {name : String} {entry : String × β}
    (h : entry ∈ t.erase name) : entry ∈ t := by
  induction t with
  | nil => cases h
  | cons p rest ih =>
    obtain ⟨k, v⟩ := p
    unfold erase at h
    split at h
    · exact List.mem_cons_of_mem _ (ih h)
    · rcases List.mem_cons.mp h with rfl | hrest
      · exact List.mem_cons_self
      · exact List.mem_cons_of_mem _ (ih hrest)

end Table

namespace Bus

/-- The subscriptions that have ever been made on a bus, in this order. Whatever else is done to the
bus ends subscriptions or changes the line of fires. -/
inductive Made {α : Type} : List (Ticket × Subscription α) → Bus α → Prop
  | empty : Made [] empty
  | line {made b} (pending : List String) (dispatching : Bool) (h : Made made b) :
      Made made { b with pending, dispatching }
  | subscribed {made b} (owner : Owner) (name : String) (tier : Tier) (target : α)
      (h : Made made b) :
      Made (made ++ [(⟨owner, b.nextNumber⟩, ⟨name, tier, target⟩)])
        (b.subscribe owner name tier target).2
  | unsubscribed {made b} (id : Ticket) (h : Made made b) : Made made (b.unsubscribe id).2

variable {α : Type} {b : Bus α} {made : List (Ticket × Subscription α)}

theorem isLive_iff {id : Ticket} : b.isLive id = true ↔ ∃ s, b.find? id = some s :=
  Option.isSome_iff_exists

theorem Valid.isLive_subscribe (hb : b.Valid) (owner : Owner) (name : String) (tier : Tier)
    (target : α) (id : Ticket) :
    (b.subscribe owner name tier target).2.isLive id =
      (decide (id = ⟨owner, b.nextNumber⟩) || b.isLive id) := by
  unfold isLive
  rw [hb.find?_subscribe]
  by_cases hid : id = ⟨owner, b.nextNumber⟩ <;> simp [hid]

theorem isLive_unsubscribe (b : Bus α) (id other : Ticket) :
    (b.unsubscribe id).2.isLive other = (decide (other ≠ id) && b.isLive other) := by
  unfold isLive
  rw [find?_unsubscribe]
  by_cases hid : other = id <;> simp [hid]

theorem fst_unsubscribe (b : Bus α) (id : Ticket) : (b.unsubscribe id).1 = b.isLive id := by
  unfold unsubscribe isLive
  cases b.find? id <;> rfl

namespace Made

theorem valid (h : Made made b) : b.Valid := by
  induction h with
  | empty => exact valid_empty
  | line _ _ _ ih => exact ⟨ih.fresh, ih.listed⟩
  | subscribed owner name tier target _ ih => exact ih.subscribe owner name tier target
  | unsubscribed id _ ih => exact ih.unsubscribe id

/-- Numbers are given out in the order of subscription. -/
theorem numbered (h : Made made b) :
    made.map (fun entry => entry.1.number) = List.range b.nextNumber := by
  induction h with
  | empty => rfl
  | line _ _ _ ih => exact ih
  | @subscribed made b owner name tier target _ ih =>
    show _ = List.range (b.nextNumber + 1)
    rw [List.map_append, ih, List.range_succ]
    rfl
  | @unsubscribed made b id _ ih =>
    rw [nextNumber_unsubscribe]
    exact ih

theorem number_lt (h : Made made b) {entry : Ticket × Subscription α} (hentry : entry ∈ made) :
    entry.1.number < b.nextNumber := by
  have hmem := List.mem_map_of_mem (f := fun entry => entry.1.number) hentry
  rw [h.numbered] at hmem
  exact List.mem_range.mp hmem

theorem mem (h : Made made b) {id : Ticket} {s : Subscription α} (hs : b.find? id = some s) :
    (id, s) ∈ made := by
  induction h with
  | empty => cases hs
  | line _ _ _ ih => exact ih hs
  | @subscribed made b owner name tier target hmade ih =>
    rw [hmade.valid.find?_subscribe] at hs
    split at hs
    · rename_i hid
      cases hs
      exact List.mem_append_right _ (hid ▸ List.mem_singleton_self _)
    · exact List.mem_append_left _ (ih hs)
  | unsubscribed other _ ih =>
    rw [find?_unsubscribe] at hs
    split at hs
    · cases hs
    · exact ih hs

theorem ordered (h : Made made b) (name : String) :
    b.idsOf name =
      (made.filter fun entry => entry.2.name = name ∧ b.isLive entry.1).map Prod.fst := by
  induction h with
  | empty => rfl
  | line _ _ _ ih => exact ih
  | @subscribed made b owner other tier target hmade ih =>
    -- The number has not been used before, so of those made earlier the same ones are live.
    have hold : (made.filter fun entry => entry.2.name = name ∧
          (b.subscribe owner other tier target).2.isLive entry.1) =
        made.filter fun entry => entry.2.name = name ∧ b.isLive entry.1 := by
      refine List.filter_congr fun entry hentry => ?_
      have hne : entry.1 ≠ ⟨owner, b.nextNumber⟩ := fun heq => by
        have hlt := hmade.number_lt hentry
        rw [heq] at hlt
        exact hlt.false
      rw [hmade.valid.isLive_subscribe, decide_eq_false hne, Bool.false_or]
    rw [idsOf_subscribe, List.filter_append, List.map_append, hold, ← ih,
      List.filter_singleton, hmade.valid.isLive_subscribe]
    by_cases hname : name = other
    · simp [hname]
    · simp [hname, Ne.symm hname]
  | @unsubscribed made b id hmade ih =>
    rw [hmade.valid.idsOf_unsubscribe, ih, List.filter_map, List.filter_filter]
    congr 1
    refine List.filter_congr fun entry _ => ?_
    rw [isLive_unsubscribe]
    by_cases hid : entry.1 = id <;> simp [hid]

theorem filled (h : Made made b) : ∀ entry ∈ b.byName, entry.2 ≠ [] := by
  induction h with
  | empty => exact nofun
  | line _ _ _ ih => exact ih
  | @subscribed made b owner name tier target _ ih =>
    intro entry hentry
    rcases Table.mem_of_mem_set hentry with rfl | hold
    · exact List.append_ne_nil_of_right_ne_nil _ (List.cons_ne_nil _ _)
    · exact ih entry hold
  | @unsubscribed made b id _ ih =>
    intro entry hentry
    unfold unsubscribe at hentry
    split at hentry
    · exact ih entry hentry
    · unfold dropId at hentry
      dsimp only at hentry
      split at hentry
      · exact ih entry hentry
      · split at hentry
        · exact ih entry (Table.mem_of_mem_erase hentry)
        · rename_i hsome
          rcases Table.mem_of_mem_set hentry with rfl | hold
          · exact fun hnil => hsome (List.isEmpty_iff.mpr hnil)
          · exact ih entry hold

theorem nodup (h : Made made b) : (made.map Prod.fst).Nodup := by
  have hnumbers : ((made.map Prod.fst).map Ticket.number).Nodup := by
    rw [List.map_map]
    exact h.numbered ▸ List.nodup_range
  exact hnumbers.of_map _

theorem nodup_idsOf (h : Made made b) (name : String) : (b.idsOf name).Nodup := by
  rw [h.ordered]
  exact h.nodup.sublist (List.filter_sublist.map _)

theorem subscriberCount (h : Made made b) (name : String) :
    b.subscriberCount name = {id | ∃ s, b.find? id = some s ∧ s.name = name}.ncard := by
  have hset : {id | ∃ s, b.find? id = some s ∧ s.name = name} =
      ((b.idsOf name).toFinset : Set Ticket) := by
    ext id
    rw [List.coe_toFinset]
    exact (h.valid.listed name id).symm
  rw [hset, Set.ncard_coe_finset, List.toFinset_card_of_nodup (h.nodup_idsOf name)]
  rfl

end Made

/-- What the lists by name have to do with the subscriptions that have been made, and what becomes
of both when a subscription is ended. -/
structure Consistent (made : List (Ticket × Subscription α)) (b : Bus α) : Prop where
  numbered : made.map (fun entry => entry.1.number) = List.range b.nextNumber
  known : ∀ id s, b.find? id = some s → (id, s) ∈ made
  listed : ∀ name id, id ∈ b.idsOf name ↔ ∃ s, b.find? id = some s ∧ s.name = name
  once : ∀ name id, id ∈ b.idsOf name → (b.idsOf name).count id = 1
  ordered : ∀ name, b.idsOf name =
    (made.filter fun entry => entry.2.name = name ∧ b.isLive entry.1).map Prod.fst
  filled : ∀ entry ∈ b.byName, entry.2 ≠ []
  counted : ∀ name,
    b.subscriberCount name = {id | ∃ s, b.find? id = some s ∧ s.name = name}.ncard
  ends : ∀ id, (b.unsubscribe id).1 = true ↔ ∃ s, b.find? id = some s
  alone : ∀ id other,
    (b.unsubscribe id).2.find? other = if other = id then none else b.find? other
  unlisted : ∀ id name, (b.unsubscribe id).2.idsOf name = (b.idsOf name).filter (· ≠ id)

theorem Made.consistent (h : Made made b) : Consistent made b where
  numbered := h.numbered
  known _ _ := h.mem
  listed := h.valid.listed
  once name _ hid := List.count_eq_one_of_mem (h.nodup_idsOf name) hid
  ordered := h.ordered
  filled := h.filled
  counted := h.subscriberCount
  ends id := by rw [fst_unsubscribe, isLive_iff]
  alone := find?_unsubscribe b
  unlisted := h.valid.idsOf_unsubscribe

end Bus

variable {H : Host}

theorem Steps.made {terms : Terms H} {m m' : Moment H} (h : Steps terms m m')
    (hm : Sound terms m) (hmade : ∃ made, Bus.Made made m.engine.bus) :
    ∃ made, Bus.Made made m'.engine.bus := by
  induction h with
  | refl => exact hmade
  | tail hsteps hstep ih =>
    refine hstep.bus_induction (P := fun b => ∃ made, Bus.Made made b) (hm.steps hsteps) ih ?_ ?_ ?_
    · rintro b pending dispatching ⟨made, hb⟩
      exact ⟨made, hb.line pending dispatching⟩
    · rintro b owner name tier target - ⟨made, hb⟩
      exact ⟨_, hb.subscribed owner name tier target⟩
    · rintro b id ⟨made, hb⟩
      exact ⟨made, hb.unsubscribed id⟩

/-- Whenever one looks at the bus, the lists by name are right. -/
theorem Engine.Reachable.bus_consistent {e : Engine H} (he : e.Reachable) :
    ∃ made, Bus.Made made e.bus ∧ Bus.Consistent made e.bus := by
  obtain ⟨limits, host, w, hsteps⟩ := he
  obtain ⟨made, hmade⟩ := Steps.made hsteps (sound_create limits host) ⟨[], .empty⟩
  exact ⟨made, hmade, hmade.consistent⟩

namespace Nested

/-- Of three subscriptions to one name, the first one is ended. -/
def ending : Action Nested Unit := do
  let first ← Action.ask (.subscribe "outer" .listen true)
  let _ ← Action.ask (.subscribe "outer" .listen false)
  let _ ← Action.ask (.subscribe "outer" .invalidate false)
  let _ ← Action.ask (.unsubscribe first)

def ended : Engine Nested :=
  { Engine.create .standard () with
    bus := ((((Bus.empty.subscribe .host "outer" .listen (.listener true)).2.subscribe .host "outer"
      .listen (.listener false)).2.subscribe .host "outer" .invalidate
      (.listener false)).2.unsubscribe ⟨.host, 0⟩).2 }

theorem reachable_ended : ended.Reachable := by
  have hrun : (ending.run (script.callbacks 4 2)).run (.create .standard ()) =
      some ((), ended) := by
    cbv
  exact (Engine.reachable_create (H := Nested) .standard ()).action script hrun

theorem bus_consistent_ended :
    ended.bus.idsOf "outer" = [⟨.host, 1⟩, ⟨.host, 2⟩] ∧
      {id | ∃ s, ended.bus.find? id = some s ∧ s.name = "outer"}.ncard = 2 := by
  obtain ⟨made, -, hconsistent⟩ := reachable_ended.bus_consistent
  have hlisted : ended.bus.idsOf "outer" = [⟨.host, 1⟩, ⟨.host, 2⟩] := by
    decide
  refine ⟨hlisted, ?_⟩
  rw [← hconsistent.counted, Bus.subscriberCount, hlisted]
  rfl

end Nested

end LiveExpr
