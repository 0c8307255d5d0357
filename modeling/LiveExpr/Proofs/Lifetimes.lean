import LiveExpr.Proofs.Transitions

/-!
What becomes of one bound expression while an engine runs. It keeps its program, its
watches only grow, and its epoch counts how often the bus has called one of its own
subscriptions. So the epoch of an expression stands still exactly as long as no name
that it watches reaches it.
-/
namespace LiveExpr

variable {H : Host} {terms : Terms H} {m m' : Moment H}

/-- What a step leaves under a handle is what was there before, unless its value was dropped, or it
is a new expression, or an evaluation was taken in. -/
theorem Step.cache_cases (h : Step terms m m') (hm : Sound terms m) {x : Handle} {c' : Cache}
    (hc' : m'.engine.store.get? x = some c') :
    m.engine.store.get? x = some c' ∨
      (∃ c, m.engine.store.get? x = some c ∧ c' = c.invalidate) ∨
      (¬ m.engine.store.Issued x ∧ ∃ p mode, c' = .create p mode) ∨
      ∃ c epoch v, m.engine.store.get? x = some c ∧
        terms.completes m.engine.registry m.engine.limits c.program v ∧
        m'.engine = m.engine.complete x epoch v ∧
        c' = Engine.completed x epoch v c m.engine.bus := by
  cases h with
  | @dropped e w id s h hs ht =>
    simp only [Store.get?_modify] at hc'
    by_cases hx : x = h
    · subst hx
      obtain ⟨c, hc, rfl⟩ := Option.map_eq_some_iff.mp ((if_pos rfl).symm.trans hc')
      exact Or.inr (Or.inl ⟨c, hc, rfl⟩)
    · rw [if_neg hx] at hc'
      exact Or.inl hc'
  | @inserted e w p mode =>
    simp only [hm.tied.store.get?_insert] at hc'
    split at hc'
    · rename_i hx
      cases hc'
      refine Or.inr (Or.inr (Or.inl ⟨?_, p, mode, rfl⟩))
      rw [hx]
      exact hm.tied.store.not_issued_insert _
    · exact Or.inl hc'
  | @unbound e w h c hc =>
    simp only [Store.get?_remove] at hc'
    split at hc'
    · cases hc'
    · exact Or.inl hc'
  | @completed e w h epoch v hv =>
    rcases Engine.complete_cases hc' with ⟨-, hc⟩ | ⟨rfl, c, hc, hcompleted⟩
    · exact Or.inl hc
    · exact Or.inr (Or.inr (Or.inr ⟨c, epoch, v, hc, hv c hc, rfl, hcompleted⟩))
  | _ => exact Or.inl hc'

/-- What a later cache of one expression has in common with an earlier one, when the journal has
grown by `d` and new subscriptions have got numbers from `n` on. -/
structure Cache.Since (n : Nat) (d : List (Note H)) (c c' : Cache) : Prop where
  program : c'.program = c.program
  watches : ∃ added, c'.watches = c.watches ++ added ∧ ∀ entry ∈ added, n ≤ entry.2.number
  epoch_le : c.epoch ≤ c'.epoch
  epoch_eq : c'.epoch = c.epoch ↔
    ∀ id name, .called id name ∈ d → ∀ watched, (watched, id) ∉ c'.watches

theorem Cache.Since.refl (n : Nat) {d : List (Note H)} {c : Cache}
    (hd : ∀ id name, .called id name ∈ d → ∀ watched, (watched, id) ∉ c.watches) :
    Cache.Since n d c c where
  program := rfl
  watches := ⟨[], by simp, by simp⟩
  epoch_le := Nat.le_refl _
  epoch_eq := iff_of_true rfl hd

theorem Cache.Since.trans {n n' : Nat} {d d' : List (Note H)} {c c' c'' : Cache} (hn : n ≤ n')
    (hd : ∀ id name, .called id name ∈ d → id.number < n') (h : Cache.Since n d c c')
    (h' : Cache.Since n' d' c' c'') : Cache.Since n (d' ++ d) c c'' := by
  obtain ⟨added, hadded, hnumbers⟩ := h.watches
  obtain ⟨added', hadded', hnumbers'⟩ := h'.watches
  refine ⟨h'.program.trans h.program, ⟨added ++ added', ?_, ?_⟩,
    Nat.le_trans h.epoch_le h'.epoch_le, ?_⟩
  · rw [hadded', hadded, List.append_assoc]
  · intro entry hentry
    rcases List.mem_append.mp hentry with hold | hnew
    · exact hnumbers entry hold
    · exact Nat.le_trans hn (hnumbers' entry hnew)
  · have hle := h.epoch_le
    have hle' := h'.epoch_le
    have hsplit : c''.epoch = c.epoch ↔ c''.epoch = c'.epoch ∧ c'.epoch = c.epoch := by omega
    rw [hsplit, h'.epoch_eq, h.epoch_eq]
    constructor
    · rintro ⟨hlate, hearly⟩ id name hmem watched hwatched
      rcases List.mem_append.mp hmem with hmem | hmem
      · exact hlate id name hmem watched hwatched
      · rw [hadded'] at hwatched
        rcases List.mem_append.mp hwatched with hold | hnew
        · exact hearly id name hmem watched hold
        · have hlt := hd id name hmem
          have hge : n' ≤ id.number := hnumbers' _ hnew
          omega
    · intro hall
      refine ⟨fun id name hmem => hall id name (List.mem_append_left _ hmem), ?_⟩
      intro id name hmem watched hwatched
      refine hall id name (List.mem_append_right _ hmem) watched ?_
      rw [hadded']
      exact List.mem_append_left _ hwatched

theorem Cache.Since.mem_watches {n : Nat} {d : List (Note H)} {c c' : Cache}
    (h : Cache.Since n d c c') {entry : String × Ticket} (hw : entry ∈ c.watches) :
    entry ∈ c'.watches := by
  obtain ⟨added, hadded, -⟩ := h.watches
  rw [hadded]
  exact List.mem_append_left _ hw

/-- What has become of an expression between two moments. -/
structure Since (x : Handle) (m m' : Moment H) (d : List (Note H)) : Prop where
  issued : m'.engine.store.Issued x
  journal : m'.engine.journal = d ++ m.engine.journal
  numbers : m.engine.bus.nextNumber ≤ m'.engine.bus.nextNumber
  called : ∀ id name, .called id name ∈ d → id.number < m'.engine.bus.nextNumber ∧
    ∀ s, m'.engine.bus.find? id = some s → s.name = name
  cache : ∀ c', m'.engine.store.get? x = some c' →
    ∃ c, m.engine.store.get? x = some c ∧ c.Since m.engine.bus.nextNumber d c'

variable {x : Handle}

/-- What is bound at the end is what was bound at the beginning. -/
theorem Since.kept {d : List (Note H)} {c c' : Cache} (h : Since x m m' d)
    (hc : m.engine.store.get? x = some c) (hc' : m'.engine.store.get? x = some c') :
    c.Since m.engine.bus.nextNumber d c' := by
  obtain ⟨c₀, hc₀, hkept⟩ := h.cache c' hc'
  obtain rfl : c = c₀ := Option.some_inj.mp (hc.symm.trans hc₀)
  exact hkept

theorem Since.bound {d : List (Note H)} (h : Since x m m' d)
    (hbound : (m'.engine.store.get? x).isSome) : (m.engine.store.get? x).isSome := by
  obtain ⟨c', hc'⟩ := Option.isSome_iff_exists.mp hbound
  obtain ⟨c, hc, -⟩ := h.cache c' hc'
  rw [hc]
  rfl

theorem Since.trans {m'' : Moment H} {d d' : List (Note H)} (h : Since x m m' d)
    (h' : Since x m' m'' d') (hl : m'.engine.bus.Later m''.engine.bus) :
    Since x m m'' (d' ++ d) where
  issued := h'.issued
  journal := by rw [h'.journal, h.journal, List.append_assoc]
  numbers := Nat.le_trans h.numbers h'.numbers
  called := by
    intro id name hmem
    rcases List.mem_append.mp hmem with hlate | hearly
    · exact h'.called id name hlate
    · obtain ⟨hlt, hname⟩ := h.called id name hearly
      exact ⟨Nat.lt_of_lt_of_le hlt hl.numbers, fun s hs => hname s (hl.kept id s hlt hs)⟩
  cache := by
    intro c'' hc''
    obtain ⟨c', hc', hlate⟩ := h'.cache c'' hc''
    obtain ⟨c, hc, hearly⟩ := h.cache c' hc'
    exact ⟨c, hc, hearly.trans h.numbers (fun id name hmem => (h.called id name hmem).1) hlate⟩

theorem Bus.Valid.called {α : Type} {b : Bus α} (hb : b.Valid) {id : Ticket} {s : Subscription α}
    (hs : b.find? id = some s) :
    id.number < b.nextNumber ∧ ∀ t, b.find? id = some t → t.name = s.name := by
  refine ⟨hb.number_lt hs, fun t ht => ?_⟩
  rw [hs] at ht
  cases ht
  rfl

/-- A step that leaves the store alone and calls nobody. -/
theorem Since.still (hi : m.engine.store.Issued x) (hl : m.engine.bus.Later m'.engine.bus)
    (hs : m'.engine.store = m.engine.store) {d : List (Note H)}
    (hj : m'.engine.journal = d ++ m.engine.journal) (hd : ∀ id name, .called id name ∉ d) :
    Since x m m' d where
  issued := hs ▸ hi
  journal := hj
  numbers := hl.numbers
  called := fun id name hmem => (hd id name hmem).elim
  cache := by
    intro c hc
    rw [hs] at hc
    exact ⟨c, hc, .refl _ fun id name hmem => (hd id name hmem).elim⟩

/-- Calling a subscription that is not one of the expression's own. -/
theorem Since.other {e e' : Engine H} {w w' : List Ticket} (hm : Sound terms ⟨e, w⟩) {id : Ticket}
    {s : Subscription (Subscriber H)}
    (hs : e.bus.find? id = some s) (hn : s.target ≠ .cache x) (hi' : e'.store.Issued x)
    (hstore : e'.store.get? x = e.store.get? x) (hbus : e'.bus = e.bus)
    (hj : e'.journal = .called id s.name :: e.journal) :
    Since x ⟨e, w⟩ ⟨e', w'⟩ [.called id s.name] where
  issued := hi'
  journal := hj
  numbers := Nat.le_of_eq (congrArg Bus.nextNumber hbus.symm)
  called := by
    intro id' name hmem
    cases List.mem_singleton.mp hmem
    rw [hbus]
    exact hm.tied.bus.called hs
  cache := by
    intro c hc
    rw [hstore] at hc
    refine ⟨c, hc, .refl _ fun id' name hmem watched hwatched => ?_⟩
    cases List.mem_singleton.mp hmem
    obtain ⟨-, hfind⟩ := hm.tied.watched hc hwatched
    rw [hs] at hfind
    cases hfind
    exact hn rfl

/-- Calling one of the expression's own subscriptions. -/
theorem Since.dropped {e : Engine H} {w : List Ticket} {id : Ticket}
    {s : Subscription (Subscriber H)} (hm : Sound terms ⟨e, id :: w⟩)
    (hs : e.bus.find? id = some s) (ht : s.target = .cache x) (hi : e.store.Issued x) :
    Since x ⟨e, id :: w⟩
      ⟨{ e.note (.called id s.name) with store := e.store.modify x Cache.invalidate }, w⟩
      [.called id s.name] where
  issued := hi.modify _ _
  journal := rfl
  numbers := Nat.le_refl _
  called := by
    intro id' name hmem
    cases List.mem_singleton.mp hmem
    exact hm.tied.bus.called hs
  cache := by
    intro c' hc'
    obtain ⟨c, hc, hwatch⟩ := hm.tied.owned hs ht
    simp only [Store.get?_modify] at hc'
    rw [hc] at hc'
    cases hc'
    refine ⟨c, hc, rfl, ⟨[], by simp [Cache.invalidate], by simp⟩, Nat.le_succ _, ?_⟩
    refine iff_of_false (Nat.succ_ne_self _) fun hall => ?_
    exact hall id s.name List.mem_cons_self s.name hwatch

/-- An evaluation that is taken in, for the expression itself or for another one. -/
theorem Since.completed {e : Engine H} {w : List Ticket} (hm : Sound terms ⟨e, w⟩) (h : Handle)
    (began : Nat) (v : Evaluation) (hi : e.store.Issued x)
    (hl : e.bus.Later (e.complete h began v).bus) :
    ∃ d, Since x ⟨e, w⟩ ⟨e.complete h began v, w⟩ d := by
  obtain ⟨d, hj, hd⟩ : ∃ d, (e.complete h began v).journal = d ++ e.journal ∧
      ∀ id name, .called id name ∉ d := by
    rcases e.complete_journal h began v with hj | hj
    · exact ⟨[], hj, by simp⟩
    · exact ⟨[.stored h v.value], hj, by simp⟩
  cases hc : e.store.get? h with
  | none => exact ⟨d, .still hi hl (congrArg Engine.store (Engine.complete_unknown began v hc)) hj hd⟩
  | some c =>
    have hstore := Engine.complete_store began v hc
    refine ⟨d, hstore ▸ hi.modify _ _, hj, hl.numbers, fun id name hmem => (hd id name hmem).elim,
      fun c' hc' => ?_⟩
    simp only [hstore, Store.get?_modify] at hc'
    by_cases hx : x = h
    · subst hx
      rw [if_pos rfl, hc] at hc'
      cases hc'
      have hw := Engine.watch_watched x (Engine.unwatched c v) hm.tied.bus
      refine ⟨c, hc, rfl, ⟨_, rfl, fun entry hentry => (hw.numbered entry hentry).1⟩,
        Nat.le_refl _, ?_⟩
      exact iff_of_true rfl fun id name hmem => (hd id name hmem).elim
    · rw [if_neg hx] at hc'
      exact ⟨c', hc', .refl _ fun id name hmem => (hd id name hmem).elim⟩

theorem Step.since (h : Step terms m m') (hm : Sound terms m) (hi : m.engine.store.Issued x) :
    ∃ d, Since x m m' d := by
  have hl := h.later hm
  cases h with
  | passed => exact ⟨[], .still hi hl rfl rfl (by simp)⟩
  | @noted e w n hn =>
    refine ⟨[n], .still hi hl rfl rfl fun id name hmem => ?_⟩
    cases List.mem_singleton.mp hmem
    exact hn
  | looked => exact ⟨[], .still hi hl rfl rfl (by simp)⟩
  | alerted name => exact ⟨[.fired name], .still hi hl rfl rfl (by simp)⟩
  | @rebound e w name b hb => exact ⟨[.fired name], .still hi hl rfl rfl (by simp)⟩
  | rested => exact ⟨[], .still hi hl rfl rfl (by simp)⟩
  | @began e name bus hd hn =>
    obtain ⟨rest, -, rfl⟩ := Bus.next?_eq_some hn
    exact ⟨[.fanOutBegan name], .still hi hl rfl rfl (by simp)⟩
  | @called e w id s hs hn => exact ⟨_, .other hm hs (hn x) hi rfl rfl rfl⟩
  | @dropped e w id s h hs ht =>
    by_cases hx : x = h
    · subst hx
      exact ⟨_, .dropped hm hs ht hi⟩
    · have hne : s.target ≠ .cache x := by
        rw [ht]
        intro heq
        cases heq
        exact hx rfl
      refine ⟨_, .other hm hs hne (hi.modify _ _) ?_ rfl rfl⟩
      rw [Store.get?_modify, if_neg hx]
  | skipped => exact ⟨[], .still hi hl rfl rfl (by simp)⟩
  | @inserted e w p mode =>
    refine ⟨[], hi.insert hm.tied.store _, rfl, hl.numbers, by simp, fun c hc => ?_⟩
    simp only [hm.tied.store.get?_insert] at hc
    rw [if_neg] at hc
    · exact ⟨c, hc, .refl _ (by simp)⟩
    · rintro rfl
      exact hm.tied.store.not_issued_insert _ hi
  | @unbound e w h c hc =>
    refine ⟨[], hi.remove h, rfl, hl.numbers, by simp, fun c' hc' => ?_⟩
    simp only [Store.get?_remove] at hc'
    split at hc'
    · cases hc'
    · exact ⟨c', hc', .refl _ (by simp)⟩
  | subscribed => exact ⟨[], .still hi hl rfl rfl (by simp)⟩
  | unsubscribed => exact ⟨[], .still hi hl rfl rfl (by simp)⟩
  | @completed e w h epoch v hv => exact Since.completed hm h epoch v hi hl

/-- From one moment to any later one. -/
theorem Steps.since (h : Steps terms m m') (hm : Sound terms m) (hi : m.engine.store.Issued x) :
    ∃ d, Since x m m' d := by
  induction h with
  | refl => exact ⟨[], .still hi (.refl _) rfl rfl (by simp)⟩
  | tail hsteps hstep ih =>
    obtain ⟨d, hd⟩ := ih
    obtain ⟨d', hd'⟩ := hstep.since (hm.steps hsteps) hd.issued
    exact ⟨d' ++ d, hd.trans hd' (hstep.later (hm.steps hsteps))⟩

/-- The last step of a run apart from those before it, for an expression that is still bound after
it. -/
theorem Steps.before_last {m'' : Moment H} {c : Cache} {d : List (Note H)}
    (hsteps : Steps terms m m') (hstep : Step terms m' m'') (hm : Sound terms m)
    (hc : m.engine.store.get? x = some c) (hbound : (m''.engine.store.get? x).isSome)
    (hj : m''.engine.journal = d ++ m.engine.journal) :
    ∃ early late c', d = late ++ early ∧ m'.engine.journal = early ++ m.engine.journal ∧
      m''.engine.journal = late ++ m'.engine.journal ∧ m'.engine.store.get? x = some c' ∧
      ∀ entry ∈ c.watches, entry ∈ c'.watches := by
  obtain ⟨early, hsince⟩ := hsteps.since hm (Store.issued_of_get? hc)
  obtain ⟨late, hlast⟩ := hstep.since (hm.steps hsteps) hsince.issued
  obtain ⟨c', hc'⟩ := Option.isSome_iff_exists.mp (hlast.bound hbound)
  have hd : d = late ++ early := by
    refine List.append_cancel_right (hj.symm.trans ?_)
    rw [hlast.journal, hsince.journal, List.append_assoc]
  exact ⟨early, late, c', hd, hsince.journal, hlast.journal, hc',
    fun _ => (hsince.kept hc hc').mem_watches⟩

end LiveExpr
