import LiveExpr.Engine.Evaluate
import LiveExpr.Proofs.Slots
import LiveExpr.Proofs.Subscriptions

/-!
The subscriptions by which expressions watch names. The bus and the store agree on
them: the watches of the bound expressions are exactly the subscriptions that drop
stored values, whatever the host subscribes or ends on its own account.
-/
namespace LiveExpr

variable {H : Host}

namespace Engine

/-- What comes of having the bus watch names for an expression. -/
structure Watched (h : Handle) (b : Bus (Subscriber H)) (added : Table Ticket)
    (b' : Bus (Subscriber H)) : Prop where
  valid : b'.Valid
  later : b.Later b'
  pending : b'.pending = b.pending
  dispatching : b'.dispatching = b.dispatching
  numbered : ∀ entry ∈ added, b.nextNumber ≤ entry.2.number ∧ entry.2.owner = .engine
  find? : ∀ id s, b'.find? id = some s ↔
    b.find? id = some s ∨ ∃ name, (name, id) ∈ added ∧ s = ⟨name, .invalidate, .cache h⟩

theorem watch_watched (h : Handle) (names : List String) {b : Bus (Subscriber H)} (hb : b.Valid) :
    Watched h b (watch h names b).1 (watch h names b).2 := by
  induction names generalizing b with
  | nil => exact ⟨hb, .refl b, rfl, rfl, by simp [watch], by simp [watch]⟩
  | cons name rest ih =>
    have hrest := ih (hb.subscribe .engine name .invalidate (.cache h))
    have hnew := hb.find?_subscribe .engine name .invalidate (.cache h)
    refine ⟨hrest.valid, (hb.later_subscribe ..).trans hrest.later, hrest.pending,
      hrest.dispatching, ?_, ?_⟩
    · intro entry hentry
      rcases List.mem_cons.mp hentry with rfl | hentry
      · exact ⟨Nat.le_refl _, rfl⟩
      · obtain ⟨hnumber, howner⟩ := hrest.numbered entry hentry
        exact ⟨Nat.le_of_succ_le hnumber, howner⟩
    · intro id s
      refine (hrest.find? id s).trans ?_
      rw [hnew]
      -- The rest is numbered above the first one, so it does not make that again.
      by_cases hid : id = ⟨.engine, b.nextNumber⟩
      · have hnone : b.find? id = none := hid ▸ hb.find?_next .engine
        have hfresh : ∀ other, (other, id) ∉ (watch h rest
            (b.subscribe .engine name .invalidate (.cache h)).2).1 := by
          intro other hmem
          have hle := (hrest.numbered _ hmem).1
          rw [hid] at hle
          exact absurd hle (Nat.not_succ_le_self _)
        rw [if_pos hid, hnone]
        constructor
        · rintro (hs | ⟨other, hmem, -⟩)
          · cases hs
            exact Or.inr ⟨name, by simp [watch, Bus.subscribe, hid], rfl⟩
          · exact (hfresh other hmem).elim
        · rintro (hs | ⟨other, hmem, rfl⟩)
          · cases hs
          · rcases List.mem_cons.mp hmem with heq | hmem
            · cases heq
              exact Or.inl rfl
            · exact (hfresh other hmem).elim
      · rw [if_neg hid]
        refine or_congr_right ⟨?_, ?_⟩
        · rintro ⟨other, hmem, rfl⟩
          exact ⟨other, List.mem_cons_of_mem _ hmem, rfl⟩
        · rintro ⟨other, hmem, rfl⟩
          rcases List.mem_cons.mp hmem with heq | hmem
          · cases heq
            exact (hid rfl).elim
          · exact ⟨other, hmem, rfl⟩

theorem watch_keys (h : Handle) (names : List String) (b : Bus (Subscriber H)) :
    (watch h names b).1.keys = names := by
  induction names generalizing b with
  | nil => rfl
  | cons name rest ih => exact congrArg (name :: ·) (ih _)

theorem find?_unwatch (watches : Table Ticket) (b : Bus (Subscriber H)) (id : Ticket) :
    (unwatch watches b).find? id = if id ∈ watches.map Prod.snd then none else b.find? id := by
  induction watches generalizing b with
  | nil => simp [unwatch]
  | cons watch rest ih =>
    refine (ih (b.unsubscribe watch.2).2).trans ?_
    rw [Bus.find?_unsubscribe]
    by_cases hid : id = watch.2
    · simp [hid]
    · rw [if_neg hid]
      simp only [List.map_cons, List.mem_cons, hid, false_or]

/-- What only needs to hold of making one subscription. -/
theorem watch_induction {P : Bus (Subscriber H) → Prop} (h : Handle) (names : List String)
    {b : Bus (Subscriber H)} (hv : b.Valid) (hb : P b)
    (hstep : ∀ b name, b.Valid → P b → P (b.subscribe .engine name .invalidate (.cache h)).2) :
    P (watch h names b).2 := by
  induction names generalizing b with
  | nil => exact hb
  | cons name rest ih => exact ih (hv.subscribe ..) (hstep b name hv hb)

/-- What only needs to hold of ending one subscription. -/
theorem unwatch_induction {P : Bus (Subscriber H) → Prop} (watches : Table Ticket)
    {b : Bus (Subscriber H)} (hb : P b) (hstep : ∀ b id, P b → P (b.unsubscribe id).2) :
    P (unwatch watches b) := by
  induction watches generalizing b with
  | nil => exact hb
  | cons watch rest ih => exact ih (hstep b watch.2 hb)

end Engine

/-- The bus and the store agree on who watches what. -/
structure Tied (b : Bus (Subscriber H)) (s : Store) : Prop where
  bus : b.Valid
  store : s.Valid
  watched : ∀ {h c}, s.get? h = some c → ∀ {name id}, (name, id) ∈ c.watches →
    id.owner = .engine ∧ b.find? id = some ⟨name, .invalidate, .cache h⟩
  owned : ∀ {id t h}, b.find? id = some t → t.target = .cache h →
    ∃ c, s.get? h = some c ∧ (t.name, id) ∈ c.watches

namespace Tied

variable {b : Bus (Subscriber H)} {s : Store}

theorem empty : Tied (.empty : Bus (Subscriber H)) .empty where
  bus := Bus.valid_empty
  store := Store.valid_empty
  watched := by simp [Store.get?, Store.empty]
  owned := by simp [Bus.find?, Bus.empty]

/-- The line of pending fires is of no account. -/
theorem line (ht : Tied b s) (pending : List String) (dispatching : Bool) :
    Tied { b with pending, dispatching } s :=
  ⟨⟨ht.bus.fresh, ht.bus.listed⟩, ht.store, ht.watched, ht.owned⟩

theorem insert (ht : Tied b s) (p : Program) (mode : Mode) :
    Tied b (s.insert (.create p mode)).2 where
  bus := ht.bus
  store := ht.store.insert _
  watched := by
    intro h c hc name id hmem
    rw [ht.store.get?_insert] at hc
    split at hc
    · cases hc
      cases hmem
    · exact ht.watched hc hmem
  owned := by
    intro id t h hfind htarget
    obtain ⟨c, hc, hmem⟩ := ht.owned hfind htarget
    refine ⟨c, ?_, hmem⟩
    rw [ht.store.get?_insert, if_neg]
    · exact hc
    · rintro rfl
      exact ht.store.not_issued_insert _ (Store.issued_of_get? hc)

theorem modify (ht : Tied b s) (h : Handle) {f : Cache → Cache}
    (hf : ∀ c, (f c).watches = c.watches) : Tied b (s.modify h f) where
  bus := ht.bus
  store := ht.store.modify h f
  watched := by
    intro h' c hc name id hmem
    rw [Store.get?_modify] at hc
    by_cases heq : h' = h
    · rw [if_pos heq] at hc
      obtain ⟨c', hc', rfl⟩ := Option.map_eq_some_iff.mp hc
      rw [hf] at hmem
      rw [heq]
      exact ht.watched hc' hmem
    · rw [if_neg heq] at hc
      exact ht.watched hc hmem
  owned := by
    intro id t h' hfind htarget
    obtain ⟨c, hc, hmem⟩ := ht.owned hfind htarget
    by_cases heq : h' = h
    · subst heq
      refine ⟨f c, ?_, by rwa [hf]⟩
      rw [Store.get?_modify, if_pos rfl, hc]
      rfl
    · refine ⟨c, ?_, hmem⟩
      rw [Store.get?_modify, if_neg heq, hc]

theorem unbind (ht : Tied b s) {h : Handle} {c : Cache} (hc : s.get? h = some c) :
    Tied (Engine.unwatch c.watches b) (s.remove h).2 where
  bus := Engine.unwatch_induction (P := Bus.Valid) _ ht.bus fun _ id hb => hb.unsubscribe id
  store := ht.store.remove h
  watched := by
    intro h' c' hc' name id hmem
    rw [Store.get?_remove] at hc'
    split at hc'
    · cases hc'
    · rename_i hne
      obtain ⟨howner, hfind⟩ := ht.watched hc' hmem
      refine ⟨howner, ?_⟩
      rw [Engine.find?_unwatch, if_neg, hfind]
      intro hwatch
      obtain ⟨⟨name', id'⟩, hmem', rfl⟩ := List.mem_map.mp hwatch
      rw [(ht.watched hc hmem').2] at hfind
      cases hfind
      exact hne rfl
  owned := by
    intro id t h' hfind htarget
    rw [Engine.find?_unwatch] at hfind
    split at hfind
    · cases hfind
    · rename_i hunwatched
      obtain ⟨c', hc', hmem⟩ := ht.owned hfind htarget
      refine ⟨c', ?_, hmem⟩
      rw [Store.get?_remove, if_neg, hc']
      rintro rfl
      rw [hc] at hc'
      cases hc'
      exact hunwatched (List.mem_map.mpr ⟨_, hmem, rfl⟩)

/-- A subscription of the host leaves the expressions alone, -/
theorem subscribe (ht : Tied b s) (name : String) (tier : Tier) {target : Subscriber H}
    (hn : ∀ h, target ≠ .cache h) : Tied (b.subscribe .host name tier target).2 s where
  bus := ht.bus.subscribe ..
  store := ht.store
  watched := by
    intro h c hc name' id hmem
    obtain ⟨howner, hfind⟩ := ht.watched hc hmem
    refine ⟨howner, ?_⟩
    rw [ht.bus.find?_subscribe, if_neg, hfind]
    rintro rfl
    cases howner
  owned := by
    intro id t h hfind htarget
    rw [ht.bus.find?_subscribe] at hfind
    split at hfind
    · cases hfind
      exact (hn h htarget).elim
    · exact ht.owned hfind htarget

/-- and the host has no means to end one that is not its own. -/
theorem unsubscribe (ht : Tied b s) (id : SubscriptionId) : Tied (b.unsubscribe id.ticket).2 s where
  bus := ht.bus.unsubscribe _
  store := ht.store
  watched := by
    intro h c hc name id' hmem
    obtain ⟨howner, hfind⟩ := ht.watched hc hmem
    refine ⟨howner, ?_⟩
    rw [Bus.find?_unsubscribe, if_neg, hfind]
    rintro rfl
    cases howner
  owned := by
    intro id' t h hfind htarget
    rw [Bus.find?_unsubscribe] at hfind
    split at hfind
    · cases hfind
    · exact ht.owned hfind htarget

/-- New watches of an expression, made on the bus and noted in the store at once. -/
theorem watch (ht : Tied b s) {h : Handle} {c : Cache} (hc : s.get? h = some c)
    {added : Table Ticket} {b' : Bus (Subscriber H)} (hw : Engine.Watched h b added b')
    {f : Cache → Cache} (hf : (f c).watches = c.watches ++ added) : Tied b' (s.modify h f) where
  bus := hw.valid
  store := ht.store.modify h f
  watched := by
    intro h' c' hc' name id hmem
    rw [Store.get?_modify] at hc'
    by_cases heq : h' = h
    · rw [if_pos heq, hc, Option.map_some] at hc'
      cases hc'
      rw [hf, List.mem_append] at hmem
      rw [heq]
      rcases hmem with hold | hnew
      · obtain ⟨howner, hfind⟩ := ht.watched hc hold
        exact ⟨howner, (hw.find? ..).mpr (Or.inl hfind)⟩
      · exact ⟨(hw.numbered _ hnew).2, (hw.find? ..).mpr (Or.inr ⟨name, hnew, rfl⟩)⟩
    · rw [if_neg heq] at hc'
      obtain ⟨howner, hfind⟩ := ht.watched hc' hmem
      exact ⟨howner, (hw.find? ..).mpr (Or.inl hfind)⟩
  owned := by
    intro id t h' hfind htarget
    rcases (hw.find? ..).mp hfind with hold | ⟨name, hnew, rfl⟩
    · obtain ⟨c', hc', hmem⟩ := ht.owned hold htarget
      by_cases heq : h' = h
      · subst heq
        rw [hc] at hc'
        cases hc'
        refine ⟨f c, ?_, by rw [hf]; exact List.mem_append_left _ hmem⟩
        rw [Store.get?_modify, if_pos rfl, hc]
        rfl
      · exact ⟨c', by rw [Store.get?_modify, if_neg heq, hc'], hmem⟩
    · cases htarget
      refine ⟨f c, ?_, by rw [hf]; exact List.mem_append_right _ hnew⟩
      rw [Store.get?_modify, if_pos rfl, hc]
      rfl

end Tied

end LiveExpr
