import LiveExpr.Proofs.Lifetimes

/-!
Fan-outs miss nobody. A subscription by which an expression watches a name is called by
every fan-out of the name that begins while it is there. The epoch of the expression
tells later whether that has happened. Nor is anybody called but in a fan-out.
-/
namespace LiveExpr

variable {H : Host} {terms : Terms H} {m m' : Moment H} {x : Handle} {c : Cache} {name : String}
  {id : Ticket}

/-- A fan-out that has begun passes over none of the watches of an expression. -/
theorem Step.heard (h : Step terms m m') (hm : Sound terms m)
    (hc : m.engine.store.get? x = some c) (hw : (name, id) ∈ c.watches) {d : List (Note H)}
    (hj : m'.engine.journal = d ++ m.engine.journal)
    (hbegan : .fanOutBegan name ∈ d ∨ id ∈ m.awaited) :
    .called id name ∈ d ∨ id ∈ m'.awaited := by
  have hfind := (hm.tied.watched hc hw).2
  have hd : ∀ d', m'.engine.journal = d' ++ m.engine.journal → d = d' :=
    fun d' hj' => List.append_cancel_right (hj.symm.trans hj')
  have hquiet : ∀ d', m'.engine.journal = d' ++ m.engine.journal → m'.awaited = m.awaited →
      .fanOutBegan name ∉ d' → .called id name ∈ d ∨ id ∈ m'.awaited := by
    intro d' hj' hawaited hn
    rw [hd d' hj'] at hbegan
    rw [hawaited]
    exact Or.inr (hbegan.resolve_left hn)
  -- The turn of one subscription, which may be the one in question.
  have hturn : ∀ {id' rest s}, m.engine.bus.find? id' = some s → m.awaited = id' :: rest →
      m'.awaited = rest → d = [.called id' s.name] → .called id name ∈ d ∨ id ∈ m'.awaited := by
    intro id' rest s hs hawaited hrest hd
    rw [hd] at hbegan ⊢
    rw [hawaited] at hbegan
    rw [hrest]
    rcases hbegan with hbegan | hmem
    · simp at hbegan
    · rcases List.mem_cons.mp hmem with rfl | hmem
      · rw [hfind] at hs
        cases hs
        exact Or.inl List.mem_cons_self
      · exact Or.inr hmem
  cases h with
  | passed => exact hquiet [] rfl rfl (by simp)
  | @noted e w n hn =>
    refine hquiet [n] rfl rfl fun hmem => ?_
    rw [← List.mem_singleton.mp hmem] at hn
    exact hn
  | looked => exact hquiet [] rfl rfl (by simp)
  | alerted other => exact hquiet [.fired other] rfl rfl (by simp)
  | @rebound e w other b hb => exact hquiet [.fired other] rfl rfl (by simp)
  | rested => exact hquiet [] rfl rfl (by simp)
  | @began e other bus hd' hn =>
    rw [hd [.fanOutBegan other] rfl] at hbegan
    rcases hbegan with hbegan | hmem
    · cases List.mem_singleton.mp hbegan
      obtain ⟨rest, -, rfl⟩ := Bus.next?_eq_some hn
      refine Or.inr (List.mem_map.mpr ⟨(id, .cache x), ?_, rfl⟩)
      exact (hm.tied.line rest true).bus.mem_targets.mpr ⟨_, hfind, rfl, rfl⟩
    · cases hmem
  | called hs hn => exact hturn hs rfl rfl (hd _ rfl)
  | dropped hs ht => exact hturn hs rfl rfl (hd _ rfl)
  | @skipped e w other hs =>
    rw [hd [] rfl] at hbegan
    rcases hbegan with hbegan | hmem
    · cases hbegan
    · rcases List.mem_cons.mp hmem with rfl | hmem
      · rw [show e.bus.find? id = _ from hfind] at hs
        cases hs
      · exact Or.inr hmem
  | inserted => exact hquiet [] rfl rfl (by simp)
  | unbound => exact hquiet [] rfl rfl (by simp)
  | subscribed => exact hquiet [] rfl rfl (by simp)
  | unsubscribed => exact hquiet [] rfl rfl (by simp)
  | @completed e w h epoch v hv =>
    rcases e.complete_journal h epoch v with hj' | hj'
    · exact hquiet [] hj' rfl (by simp)
    · exact hquiet [_] hj' rfl (by simp)

/-- The same over any number of steps after which the expression is still bound. -/
theorem Steps.heard (h : Steps terms m m') (hm : Sound terms m)
    (hc : m.engine.store.get? x = some c) (hw : (name, id) ∈ c.watches)
    (hc' : (m'.engine.store.get? x).isSome) {d : List (Note H)}
    (hj : m'.engine.journal = d ++ m.engine.journal)
    (hbegan : .fanOutBegan name ∈ d ∨ id ∈ m.awaited) :
    .called id name ∈ d ∨ id ∈ m'.awaited := by
  induction h generalizing d with
  | refl =>
    obtain rfl : d = [] := by simpa using hj
    exact Or.inr (hbegan.resolve_left (by simp))
  | @tail m₁ m₂ hsteps hstep ih =>
    obtain ⟨d₁, d₂, c₁, rfl, hj₁, hj₂, hc₁, hkept⟩ :=
      Steps.before_last hsteps hstep hm hc hc' hj
    have hlate : .fanOutBegan name ∈ d₂ ∨ id ∈ m₁.awaited →
        .called id name ∈ d₂ ++ d₁ ∨ id ∈ m₂.awaited := by
      intro hmem
      exact (hstep.heard (hm.steps hsteps) hc₁ (hkept _ hw) hj₂ hmem).imp_left
        (List.mem_append_left _)
    have hearly : .fanOutBegan name ∈ d₁ ∨ id ∈ m.awaited →
        .called id name ∈ d₂ ++ d₁ ∨ id ∈ m₂.awaited := by
      intro hmem
      rcases ih (by rw [hc₁]; rfl) hj₁ hmem with hcalled | hawaited
      · exact Or.inl (List.mem_append_right _ hcalled)
      · exact hlate (Or.inr hawaited)
    rcases hbegan with hbegan | hawaited
    · rcases List.mem_append.mp hbegan with hmem | hmem
      · exact hlate (Or.inl hmem)
      · exact hearly (Or.inl hmem)
    · exact hearly (Or.inr hawaited)

/-- A step calls the subscription that is next in the fan-out in progress, if it calls one, and only
the beginning of a fan-out gives anybody a turn. -/
theorem Step.summons (h : Step terms m m') (hm : Sound terms m) :
    ∃ d, m'.engine.journal = d ++ m.engine.journal ∧
      (∀ id name, .called id name ∈ d →
        id ∈ m.awaited ∧ ∃ s, m.engine.bus.find? id = some s ∧ s.name = name) ∧
      ∀ id ∈ m'.awaited, id ∈ m.awaited ∨
        ∃ s, m'.engine.bus.find? id = some s ∧ .fanOutBegan s.name ∈ d := by
  have hstill : ∀ d : List (Note H), m'.engine.journal = d ++ m.engine.journal →
      m'.awaited = m.awaited → (∀ id name, .called id name ∉ d) →
      ∃ d, m'.engine.journal = d ++ m.engine.journal ∧
        (∀ id name, .called id name ∈ d →
          id ∈ m.awaited ∧ ∃ s, m.engine.bus.find? id = some s ∧ s.name = name) ∧
        ∀ id ∈ m'.awaited, id ∈ m.awaited ∨
          ∃ s, m'.engine.bus.find? id = some s ∧ .fanOutBegan s.name ∈ d :=
    fun d hj hw hd =>
      ⟨d, hj, fun id name hmem => (hd id name hmem).elim, fun id hid => Or.inl (hw ▸ hid)⟩
  cases h with
  | passed => exact hstill [] rfl rfl (by simp)
  | @noted e w n hn =>
    refine hstill [n] rfl rfl fun id name hmem => ?_
    rw [← List.mem_singleton.mp hmem] at hn
    exact hn
  | looked => exact hstill [] rfl rfl (by simp)
  | alerted name => exact hstill [.fired name] rfl rfl (by simp)
  | @rebound e w name b hb => exact hstill [.fired name] rfl rfl (by simp)
  | rested => exact hstill [] rfl rfl (by simp)
  | @began e name bus hd hn =>
    obtain ⟨rest, -, rfl⟩ := Bus.next?_eq_some hn
    refine ⟨[.fanOutBegan name], rfl, by simp, fun id hid => Or.inr ?_⟩
    obtain ⟨⟨id, target⟩, hmem, rfl⟩ := List.mem_map.mp hid
    obtain ⟨s, hs, rfl, -⟩ := (hm.tied.line rest true).bus.mem_targets.mp hmem
    exact ⟨s, hs, List.mem_cons_self⟩
  | @called e w id s hs hn =>
    refine ⟨[.called id s.name], rfl, ?_, fun other hother => Or.inl (.tail _ hother)⟩
    rintro _ _ (_ | ⟨_, ⟨⟩⟩)
    exact ⟨List.mem_cons_self, s, hs, rfl⟩
  | @dropped e w id s h hs ht =>
    refine ⟨[.called id s.name], rfl, ?_, fun other hother => Or.inl (.tail _ hother)⟩
    rintro _ _ (_ | ⟨_, ⟨⟩⟩)
    exact ⟨List.mem_cons_self, s, hs, rfl⟩
  | skipped => exact ⟨[], rfl, by simp, fun other hother => Or.inl (.tail _ hother)⟩
  | inserted => exact hstill [] rfl rfl (by simp)
  | unbound => exact hstill [] rfl rfl (by simp)
  | subscribed => exact hstill [] rfl rfl (by simp)
  | unsubscribed => exact hstill [] rfl rfl (by simp)
  | @completed e w h epoch v hv =>
    rcases e.complete_journal h epoch v with hj' | hj'
    · exact hstill [] hj' rfl (by simp)
    · exact hstill [_] hj' rfl (by simp)

/-- Whoever is called had a turn to come already, or a fan-out of the name has begun in the
meantime. -/
theorem Steps.summons (h : Steps terms m m') (hm : Sound terms m) :
    ∃ d, m'.engine.journal = d ++ m.engine.journal ∧
      (∀ id name, .called id name ∈ d → id ∈ m.awaited ∨ .fanOutBegan name ∈ d) ∧
      ∀ id ∈ m'.awaited, id ∈ m.awaited ∨ id.number < m'.engine.bus.nextNumber ∧
        ∀ s, m'.engine.bus.find? id = some s → .fanOutBegan s.name ∈ d := by
  induction h with
  | refl => exact ⟨[], rfl, by simp, fun id hid => Or.inl hid⟩
  | @tail m₁ m₂ hsteps hstep ih =>
    obtain ⟨d, hj, hcalled, hawaited⟩ := ih
    have hs₁ := hm.steps hsteps
    have hlater := hstep.later hs₁
    obtain ⟨d', hj', hcalled', hawaited'⟩ := hstep.summons hs₁
    refine ⟨d' ++ d, by rw [hj', hj, List.append_assoc], fun id name hmem => ?_, fun id hid => ?_⟩
    · rcases List.mem_append.mp hmem with hlate | hearly
      · obtain ⟨hid, s, hs, rfl⟩ := hcalled' id name hlate
        refine (hawaited id hid).imp_right fun hnames => ?_
        exact List.mem_append_right _ (hnames.2 s hs)
      · exact (hcalled id name hearly).imp_right (List.mem_append_right _)
    · rcases hawaited' id hid with hold | ⟨s, hs, hbegan⟩
      · refine (hawaited id hold).imp_right fun ⟨hlt, hnames⟩ => ?_
        refine ⟨Nat.lt_of_lt_of_le hlt hlater.numbers, fun s hs => ?_⟩
        exact List.mem_append_right _ (hnames s (hlater.kept id s hlt hs))
      · obtain ⟨hlt, hname⟩ := (hs₁.step hstep).tied.bus.called hs
        refine Or.inr ⟨hlt, fun t ht => ?_⟩
        rw [hname t ht]
        exact List.mem_append_left _ hbegan

/-- The bus has called one of the subscriptions by which the expression watches names. -/
def Cache.Reached (c : Cache) (d : List (Note H)) : Prop :=
  ∃ name id, (name, id) ∈ c.watches ∧ .called id name ∈ d

/-- The epoch of an expression tells whether it was reached. -/
theorem Since.epoch_iff {h : Handle} {d : List (Note H)}
    (hd : Since h m m' d) (hm : Sound terms m') {c' : Cache}
    (hc : m.engine.store.get? h = some c) (hc' : m'.engine.store.get? h = some c') :
    c'.epoch = c.epoch ↔ ¬ c'.Reached d := by
  rw [(hd.kept hc hc').epoch_eq]
  constructor
  · rintro hall ⟨name, id, hwatch, hcalled⟩
    exact hall id name hcalled name hwatch
  · intro hunreached id name hcalled watched hwatch
    have hname := (hd.called id name hcalled).2 _ (hm.tied.watched hc' hwatch).2
    exact hunreached ⟨name, id, hname ▸ hwatch, hcalled⟩

end LiveExpr
